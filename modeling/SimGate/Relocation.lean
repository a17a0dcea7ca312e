import SimGate.CircuitRefinement

/-!
# Gates at other addresses

The user points at gates and hitboxes; where they are in memory is not seen.

* `step_relocated`: an edit does the same to a circuit whose gates are at other addresses;
* `relocated_simMap`: the simulator and the table are given the same map.
-/

namespace SimGate

open Execution

/-! ## Other addresses -/

def HitBoxPtr.relocate (π : GatePtr → GatePtr) (box : HitBoxPtr) : HitBoxPtr :=
  ⟨π box.owner, box.type⟩

def Part.relocate (π : GatePtr → GatePtr) (p : Part) : Part := { p with ptr := π p.ptr }

def Edit.relocate (π : GatePtr → GatePtr) : Edit → Edit
  | .draw type => .draw type
  | .click box => .click (box.relocate π)
  | .unplug input => .unplug (input.relocate π)
  | .remove gate => .remove (π gate)
  | .toggle gate => .toggle (π gate)
  | .simulate => .simulate
  | .clearSimulate => .clearSimulate
  | .load fuel file reader => .load fuel file reader
  | .idle => .idle

/-- No other gate is sent where `gate` is. -/
def Apart (π : GatePtr → GatePtr) (gate : GatePtr) : Prop := ∀ q, π q = π gate → q = gate

variable {π : GatePtr → GatePtr}

theorem Apart.eq_iff {p q : GatePtr} (h : Apart π q) : π p = π q ↔ p = q :=
  ⟨h p, congrArg π⟩

theorem Apart.box_iff {box other : HitBoxPtr} (h : Apart π other.owner) :
    box.relocate π = other.relocate π ↔ box = other := by
  constructor
  · intro he
    obtain ⟨howner, htype⟩ := HitBoxPtr.mk.inj he
    have hsame := h _ howner
    cases box
    cases other
    cases hsame
    cases htype
    rfl
  · exact congrArg _

theorem Part.relocate_toggle (p : Part) : p.toggle.relocate π = (p.relocate π).toggle := by
  obtain ⟨ptr, type, id⟩ := p
  cases type <;> rfl

namespace Circuit

/-- `c'` is `c` with its gates, and all gates to come, at other addresses. -/
structure Relocated (π : GatePtr → GatePtr) (c c' : Circuit) : Prop where
  parts : c'.parts = c.parts.map (Part.relocate π)
  apart : ∀ p ∈ c.parts, Apart π p.ptr
  new : ∀ k, Apart π (c.next + k) ∧ π (c.next + k) = c'.next + k
  source : ∀ box, Apart π box.owner → c'.source (box.relocate π) = (c.source box).map π
  driver : ∀ box q, Apart π box.owner → c.source box = some q → Apart π q
  pending : c'.pending = c.pending.map (HitBoxPtr.relocate π)
  waiting : ∀ box, c.pending = some box → Apart π box.owner
  simulated : c'.simulated = c.simulated
  gen : c'.gen = c.gen

namespace Relocated

variable {c c' : Circuit} (h : Relocated π c c')

include h

theorem hasPart {gate : GatePtr} : c'.HasPart (π gate) ↔ c.HasPart gate := by
  rw [HasPart, h.parts]
  constructor
  · rintro ⟨p, hp, hptr⟩
    obtain ⟨x, hx, rfl⟩ := List.mem_map.mp hp
    exact ⟨x, hx, (h.apart x hx gate hptr.symm).symm⟩
  · rintro ⟨p, hp, rfl⟩
    exact ⟨p.relocate π, List.mem_map_of_mem hp, rfl⟩

theorem hasBox {box : HitBoxPtr} : c'.HasBox (box.relocate π) ↔ c.HasBox box := by
  rw [HasBox, h.parts]
  constructor
  · rintro ⟨p, hp, howner, htype⟩
    obtain ⟨x, hx, rfl⟩ := List.mem_map.mp hp
    exact ⟨x, hx, h.apart x hx _ howner, htype⟩
  · rintro ⟨p, hp, howner, htype⟩
    exact ⟨p.relocate π, List.mem_map_of_mem hp, congrArg π howner, htype⟩

theorem apart_box {box : HitBoxPtr} (hbox : c.HasBox box) : Apart π box.owner := by
  obtain ⟨p, hp, howner, _⟩ := hbox
  exact howner ▸ h.apart p hp

theorem free_iff (box : HitBoxPtr) (hbox : Apart π box.owner) :
    c'.source (box.relocate π) = none ↔ c.source box = none := by
  rw [h.source box hbox, Option.map_eq_none_iff]

theorem ids : c'.parts.map Part.id = c.parts.map Part.id := by
  rw [h.parts, List.map_map]
  rfl

theorem getPart (id : Id) : c'.getPart id = (c.getPart id).map (Part.relocate π) := by
  rw [Circuit.getPart, h.parts, List.find?_map]
  rfl

theorem complete : c'.Complete ↔ c.Complete := by
  rw [Complete, h.parts, List.forall_mem_map]
  refine forall₂_congr fun p hp => imp_congr_right fun _ => not_congr ?_
  exact h.free_iff ⟨p.ptr, .input2⟩ (h.apart p hp)

theorem slotId {p : Part} (hp : p ∈ c.parts) (slot : HitBoxType) :
    c'.slotId (p.relocate π) slot = c.slotId p slot := by
  have hsource : c'.source ⟨π p.ptr, slot⟩ = (c.source ⟨p.ptr, slot⟩).map π :=
    h.source ⟨p.ptr, slot⟩ (h.apart p hp)
  rw [Circuit.slotId, Circuit.slotId, Part.relocate, hsource]
  cases hs : c.source ⟨p.ptr, slot⟩ with
  | none => rfl
  | some q =>
    have hq := h.driver _ q (h.apart p hp) hs
    have hfind : c'.parts.find? (fun x => x.ptr = π q) =
        (c.parts.find? fun x => x.ptr = q).map (Part.relocate π) := by
      rw [h.parts, List.find?_map]
      congr 2
      funext x
      exact decide_eq_decide.mpr hq.eq_iff
    simp only [Option.map_some, hfind, Option.map_map]
    rfl

theorem simMap : c'.simMap = c.simMap := by
  have hparts : c'.parts.map c'.entry = c.parts.map c.entry := by
    rw [h.parts, List.map_map]
    refine List.map_congr_left fun p hp => ?_
    show (⟨_, (c'.slotId (p.relocate π) .input1, c'.slotId (p.relocate π) .input2)⟩ : Entry) = _
    rw [h.slotId hp, h.slotId hp]
    rfl
  rw [Circuit.simMap, Circuit.simMap, hparts]
  exact if_congr h.complete rfl rfl

/-! ## One edit -/

theorem drawEntity (e : Entity) : Option.Rel (Relocated π) (c.drawEntity e) (c'.drawEntity e) := by
  rw [Circuit.drawEntity, Circuit.drawEntity, h.ids, h.gen]
  cases e.given (c.parts.map Part.id) c.gen with
  | none => exact .none
  | some r =>
    obtain ⟨hnext, hsame⟩ := h.new 0
    refine .some ⟨?_, fun p hp => ?_, fun k => ?_, h.source, h.driver, h.pending, h.waiting,
      h.simulated, rfl⟩
    · show (if e.type = .enumSize then c'.parts else _) = List.map _ (if _ then _ else _)
      split
      · exact h.parts
      · rw [List.map_append, h.parts, ← Nat.add_zero c'.next, ← hsame]
        rfl
    · dsimp only at hp
      split at hp
      · exact h.apart p hp
      · rcases List.mem_append.mp hp with hp | hp
        · exact h.apart p hp
        · rw [List.mem_singleton.mp hp]
          exact hnext
    · show Apart π (c.next + 1 + k) ∧ π (c.next + 1 + k) = c'.next + 1 + k
      rw [Nat.add_assoc, Nat.add_assoc, Nat.add_comm 1]
      exact h.new (k + 1)

theorem await {p : Option HitBoxPtr} (hp : ∀ box, p = some box → Apart π box.owner) :
    Relocated π { c with pending := p } { c' with pending := p.map (HitBoxPtr.relocate π) } :=
  ⟨h.parts, h.apart, h.new, h.source, h.driver, rfl, hp, h.simulated, h.gen⟩

/-- An input reads something else. -/
theorem rewire (input : HitBoxPtr) {r : Option GatePtr} (hr : ∀ q, r = some q → Apart π q) :
    Relocated π { c with source := Function.update c.source input r }
      { c' with source := Function.update c'.source (input.relocate π) (r.map π) } := by
  refine ⟨h.parts, h.apart, h.new, fun box hbox => ?_, fun box q hbox hq => ?_, h.pending,
    h.waiting, h.simulated, h.gen⟩
  · have hinput : box.relocate π = input.relocate π ↔ box = input := by
      rw [eq_comm, hbox.box_iff, eq_comm]
    simp only [Function.update_apply, hinput]
    split
    · rfl
    · exact h.source box hbox
  · simp only [Function.update_apply] at hq
    split at hq
    · exact hr q hq
    · exact h.driver box q hbox hq

theorem plug (input : HitBoxPtr) {output : HitBoxPtr} (hout : Apart π output.owner) :
    Relocated π (c.plug input output)
      (c'.plug (input.relocate π) (output.relocate π)) := by
  have hnone : ∀ box : HitBoxPtr, (none : Option HitBoxPtr) = some box → Apart π box.owner := by
    simp
  have howner : (input.relocate π).owner = (output.relocate π).owner ↔
      input.owner = output.owner := hout.eq_iff
  rw [Circuit.plug, Circuit.plug]
  by_cases hsame : input.owner = output.owner
  · rw [if_pos hsame, if_pos (howner.mpr hsame)]
    exact h.await hnone
  · rw [if_neg hsame, if_neg (mt howner.mp hsame)]
    exact (h.rewire input (r := some output.owner) (by rintro q ⟨⟩; exact hout)).await hnone

theorem click (box : HitBoxPtr) :
    Option.Rel (Relocated π) (c.click box) (c'.click (box.relocate π)) := by
  by_cases hbox : c.HasBox box
  · have hapart := h.apart_box hbox
    have hbox' := h.hasBox.mpr hbox
    have hnone : ∀ box : HitBoxPtr, (none : Option HitBoxPtr) = some box → Apart π box.owner := by
      simp
    by_cases htaken : box.isInput = true ∧ c.source box ≠ none
    · rw [click_taken hbox htaken.1 htaken.2,
        click_taken hbox' htaken.1 (mt (h.free_iff box hapart).mp htaken.2)]
      exact .some (h.await hnone)
    · have hfree : box.isInput = true → c.source box = none := fun hi =>
        not_not.mp fun hs => htaken ⟨hi, hs⟩
      have hfree' : (box.relocate π).isInput = true → c'.source (box.relocate π) = none :=
        fun hi => (h.free_iff box hapart).mpr (hfree hi)
      cases hp : c.pending with
      | none =>
        have hp' : c'.pending = none := by rw [h.pending, hp]; rfl
        rw [click_first hbox hfree hp, click_first hbox' hfree' hp']
        exact .some (h.await (p := some box) (by rintro _ ⟨⟩; exact hapart))
      | some other =>
        have hp' : c'.pending = some (other.relocate π) := by rw [h.pending, hp]; rfl
        have hother := h.waiting other hp
        by_cases hsame : other.isInput = box.isInput
        · rw [click_same hbox hfree hp hsame, click_same hbox' hfree' hp' hsame]
          exact .some (h.await hnone)
        · rw [click_second hbox hfree hp hsame, click_second hbox' hfree' hp' hsame]
          by_cases halive : c.HasBox other
          · rw [if_pos halive, if_pos (h.hasBox.mpr halive)]
            show Option.Rel _ (some (if box.isInput then _ else _))
              (some (if box.isInput then _ else _))
            split
            · exact .some (h.plug box hother)
            · exact .some (h.plug other hapart)
          · rw [if_neg halive, if_neg (mt h.hasBox.mp halive)]
            exact .none
  · rw [Circuit.click, Circuit.click, if_pos hbox, if_pos (mt h.hasBox.mp hbox)]
    exact .some h

theorem unplug (input : HitBoxPtr) :
    Relocated π (c.unplug input) (c'.unplug (input.relocate π)) :=
  h.rewire input (r := none) (by simp)

theorem remove (gate : GatePtr) : Relocated π (c.remove gate) (c'.remove (π gate)) := by
  rw [Circuit.remove, Circuit.remove]
  by_cases hgate : c.HasPart gate
  · obtain ⟨p, hp, rfl⟩ := hgate
    have hapart := h.apart p hp
    rw [if_pos ⟨p, hp, rfl⟩, if_pos (h.hasPart.mpr ⟨p, hp, rfl⟩)]
    refine ⟨?_, fun x hx => h.apart x (List.mem_filter.mp hx).1, h.new, fun box hbox => ?_,
      fun box q hbox hq => ?_, h.pending, h.waiting, rfl, h.gen⟩
    · show c'.parts.filter _ = (c.parts.filter _).map _
      rw [h.parts, List.filter_map]
      congr 1
      refine List.filter_congr fun x _ => ?_
      exact decide_eq_decide.mpr (not_congr hapart.eq_iff)
    · show (if π box.owner = π p.ptr ∨ c'.source (box.relocate π) = some (π p.ptr) then none
          else c'.source (box.relocate π)) =
        Option.map π (if box.owner = p.ptr ∨ c.source box = some p.ptr then none else c.source box)
      have hread : (c.source box).map π = some (π p.ptr) ↔ c.source box = some p.ptr := by
        rw [Option.map_eq_some_iff]
        constructor
        · rintro ⟨q, hq, he⟩
          rw [hq, hapart q he]
        · exact fun hq => ⟨_, hq, rfl⟩
      simp only [h.source box hbox, hapart.eq_iff, hread]
      split
      · rfl
      · rfl
    · dsimp only at hq
      split at hq
      · cases hq
      · exact h.driver box q hbox hq
  · rw [if_neg hgate, if_neg (mt h.hasPart.mp hgate)]
    exact h

theorem simulate : Option.Rel (Relocated π) c.simulate c'.simulate := by
  rw [Circuit.simulate, Circuit.simulate]
  by_cases hc : c.Complete
  · rw [if_pos hc, if_pos (h.complete.mpr hc)]
    exact .some ⟨h.parts, h.apart, h.new, h.source, h.driver, h.pending, h.waiting, rfl, h.gen⟩
  · rw [if_neg hc, if_neg (mt h.complete.mp hc)]
    exact .none

theorem toggle (gate : GatePtr) :
    Option.Rel (Relocated π) (c.toggle gate) (c'.toggle (π gate)) := by
  rw [Circuit.toggle, Circuit.toggle]
  by_cases hgate : c.HasPart gate
  · rw [if_pos hgate, if_pos (h.hasPart.mpr hgate)]
    have htoggled : Relocated π
        { c with parts := c.parts.map fun p : Part => if p.ptr = gate then p.toggle else p }
        { c' with
          parts := c'.parts.map fun p : Part => if p.ptr = π gate then p.toggle else p } := by
      refine ⟨?_, fun p hp => ?_, h.new, h.source, h.driver, h.pending, h.waiting, h.simulated,
        h.gen⟩
      · show c'.parts.map _ = (c.parts.map _).map _
        rw [h.parts, List.map_map, List.map_map]
        refine List.map_congr_left fun p hp => ?_
        have hptr : π p.ptr = π gate ↔ p.ptr = gate := by
          rw [eq_comm, (h.apart p hp).eq_iff, eq_comm]
        simp only [Function.comp_apply, Part.relocate, hptr]
        split
        · exact (Part.relocate_toggle p).symm
        · rfl
      · obtain ⟨x, hx, rfl⟩ := List.mem_map.mp hp
        split
        · rw [Part.toggle_ptr]
          exact h.apart x hx
        · exact h.apart x hx
    have hflag : c'.simulated = true ↔ c.simulated = true := by rw [h.simulated]
    by_cases hs : c.simulated = true
    · rw [if_pos hs, if_pos (hflag.mpr hs)]
      exact htoggled.simulate
    · rw [if_neg hs, if_neg (mt hflag.mp hs)]
      exact .some htoggled
  · rw [if_neg hgate, if_neg (mt h.hasPart.mp hgate)]
    exact .some h

/-! ## Loading -/

theorem connectSlot {p : Part} (slot : HitBoxType) (id : Id) : Option.Rel (Relocated π)
    (c.connectSlot p slot id) (c'.connectSlot (p.relocate π) slot id) := by
  rw [Circuit.connectSlot, Circuit.connectSlot, h.getPart]
  cases c.getPart id with
  | none => exact .none
  | some x =>
    have hsame : slot ∈ hitBoxTypes (p.relocate π).type ∧
        .output ∈ hitBoxTypes (x.relocate π).type ↔
          slot ∈ hitBoxTypes p.type ∧ .output ∈ hitBoxTypes x.type := Iff.rfl
    simp only [Option.map_some]
    by_cases hboxes : slot ∈ hitBoxTypes p.type ∧ .output ∈ hitBoxTypes x.type
    · rw [if_pos hboxes, if_pos (hsame.mpr hboxes)]
      exact rel_bind (h.click ⟨p.ptr, slot⟩) fun _ _ hd => hd.click ⟨x.ptr, .output⟩
    · rw [if_neg hboxes, if_neg (mt hsame.mp hboxes)]
      exact .none

theorem connectPair (pair : Id × Id) :
    Option.Rel (Relocated π) (c.connectPair pair) (c'.connectPair pair) := by
  rw [Circuit.connectPair, Circuit.connectPair, h.getPart]
  cases hp : c.getPart pair.1 with
  | none => exact .none
  | some p =>
    have hmem : p ∈ c.parts := List.mem_of_find?_eq_some hp
    have hfree : c'.source ⟨(p.relocate π).ptr, .input1⟩ = none ↔
        c.source ⟨p.ptr, .input1⟩ = none := h.free_iff ⟨p.ptr, .input1⟩ (h.apart p hmem)
    simp only [Option.map_some]
    by_cases h1 : c.source ⟨p.ptr, .input1⟩ = none
    · rw [if_pos h1, if_pos (hfree.mpr h1)]
      exact h.connectSlot .input1 pair.2
    · rw [if_neg h1, if_neg (mt hfree.mp h1)]
      show Option.Rel _ _ (if .input2 ∈ hitBoxTypes p.type then _ else _)
      split
      · exact h.connectSlot .input2 pair.2
      · exact .some h

theorem clear : Relocated π c.clear c'.clear :=
  ⟨rfl, by simp [Circuit.clear], h.new, fun _ _ => rfl, by simp [Circuit.clear], h.pending,
    h.waiting, h.simulated, h.gen⟩

theorem load (fuel : Nat) (file : Option (List Element)) (reader : Element) :
    Option.Rel (Relocated π) (c.load fuel file reader) (c'.load fuel file reader) := by
  cases file with
  | none => exact .some h.clear
  | some file =>
    rw [Circuit.load, Circuit.load]
    split
    · have hdraw := rel_foldlM (f := Circuit.drawEntity) (ρ := id)
        (fun e d d' hd => hd.drawEntity e) ((Area.Decoder.start reader).entities file) h.clear
      have hconnect : ∀ d d', Relocated π d d' → _ := fun d d' hd =>
        rel_foldlM (f := Circuit.connectPair) (ρ := id) (fun pair d d' hd => hd.connectPair pair)
          ((Area.Decoder.start reader).readAll file).connVec hd
      rw [List.map_id] at hdraw
      simp only [List.map_id] at hconnect
      exact rel_bind hdraw hconnect
    · exact .none

end Relocated

/-- **An edit** does the same to a circuit whose gates are at other addresses. -/
theorem step_relocated {c c' : Circuit} (e : Edit) (h : Relocated π c c') :
    Option.Rel (Relocated π) (c.step e) (c'.step (e.relocate π)) := by
  cases e with
  | draw type => exact h.drawEntity _
  | click box => exact h.click box
  | unplug input => exact .some (h.unplug input)
  | remove gate => exact .some (h.remove gate)
  | toggle gate => exact h.toggle gate
  | simulate => exact h.simulate
  | clearSimulate =>
    exact .some ⟨h.parts, h.apart, h.new, h.source, h.driver, h.pending, h.waiting, rfl, h.gen⟩
  | load fuel file reader => exact h.load fuel file reader
  | idle => exact .some h

end Circuit

end SimGate

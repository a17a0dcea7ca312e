import Mathlib.Data.List.Nodup
import SimGate.HitBox

/-!
# Registration of wires

A wire is stored twice, in its input hitbox and in its output hitbox.
`Consistent` says that the two agree with the wires that are alive; every
operation on hitboxes and wires keeps it and is described by what it does to
the wires alone:

* `deleteWire_eq`, `destroyHitBoxes_spec`: exactly the wires concerned go;
* `Consistent.connect`: a new wire between two gates.
-/

namespace SimGate

namespace Scene

structure Consistent (s : Scene) : Prop where
  ends : ∀ p w, s.wire p = some w →
    w.input.isInput = true ∧ w.output.isInput = false ∧ w.input.owner ≠ w.output.owner
  registered : ∀ p w, s.wire p = some w →
    (∃ h, s.hitbox w.input = some h ∧ h.wire = some p) ∧
      ∃ h, s.hitbox w.output = some h ∧ h.outputWires.count p = 1
  ofWire : ∀ box h p, s.hitbox box = some h → h.wire = some p →
    ∃ w, s.wire p = some w ∧ w.input = box
  ofOutputs : ∀ box h p, s.hitbox box = some h → p ∈ h.outputWires →
    ∃ w, s.wire p = some w ∧ w.output = box
  fresh : ∀ p w, s.wire p = some w → p < s.nextWire

/-! ## Reading the heap after an update -/

theorem put_hitbox (s : Scene) (box box' : HitBoxPtr) (h : GateHitBox) :
    (s.put box h).hitbox box' = if box' = box then some h else s.hitbox box' := by
  simp [put, Function.update_apply]

@[simp] theorem put_wire (s : Scene) (box : HitBoxPtr) (h : GateHitBox) :
    (s.put box h).wire = s.wire := rfl

theorem free_hitbox (s : Scene) (box box' : HitBoxPtr) :
    (s.free box).hitbox box' = if box' = box then none else s.hitbox box' := by
  simp [free, Function.update_apply]

theorem deref_eq {s : Scene} {box : HitBoxPtr} {h : GateHitBox} (hb : s.hitbox box = some h) :
    s.deref box = .ok h := by simp [deref, hb]

theorem derefWire_eq {s : Scene} {p : WirePtr} {w : Wire} (hw : s.wire p = some w) :
    s.derefWire p = .ok w := by simp [derefWire, hw]

theorem deref_ok {s : Scene} {box : HitBoxPtr} {h : GateHitBox} (hd : s.deref box = .ok h) :
    s.hitbox box = some h := by
  cases hb : s.hitbox box with
  | none => simp [deref, hb] at hd
  | some b =>
    rw [deref_eq hb] at hd
    cases hd
    rfl

theorem derefWire_ok {s : Scene} {p : WirePtr} {w : Wire} (hd : s.derefWire p = .ok w) :
    s.wire p = some w := by
  cases hw : s.wire p with
  | none => simp [derefWire, hw] at hd
  | some v =>
    rw [derefWire_eq hw] at hd
    cases hd
    rfl

namespace Consistent

variable {s : Scene} (hs : s.Consistent)

include hs

theorem wire_of_input {p : WirePtr} {w : Wire} (hw : s.wire p = some w) {h : GateHitBox}
    (hb : s.hitbox w.input = some h) : h.wire = some p := by
  obtain ⟨⟨h', hb', hp⟩, _⟩ := hs.registered p w hw
  rw [hb] at hb'
  cases hb'
  exact hp

theorem count_of_output {p : WirePtr} {w : Wire} (hw : s.wire p = some w) {h : GateHitBox}
    (hb : s.hitbox w.output = some h) : h.outputWires.count p = 1 := by
  obtain ⟨_, h', hb', hc⟩ := hs.registered p w hw
  rw [hb] at hb'
  cases hb'
  exact hc

theorem mem_of_output {p : WirePtr} {w : Wire} (hw : s.wire p = some w) {h : GateHitBox}
    (hb : s.hitbox w.output = some h) : p ∈ h.outputWires := by
  have hc := hs.count_of_output hw hb
  exact List.count_pos_iff.mp (by omega)

/-- A free input is the end of no wire. -/
theorem input_ne {box : HitBoxPtr} {h : GateHitBox} (hb : s.hitbox box = some h)
    (hfree : h.wire = none) {p : WirePtr} {w : Wire} (hw : s.wire p = some w) : w.input ≠ box := by
  rintro rfl
  rw [hs.wire_of_input hw hb] at hfree
  cases hfree

theorem output_wire {box : HitBoxPtr} {h : GateHitBox} (hb : s.hitbox box = some h)
    (ho : box.isInput = false) : h.wire = none := by
  cases hw : h.wire with
  | none => rfl
  | some p =>
    obtain ⟨w, hp, rfl⟩ := hs.ofWire box h p hb hw
    simp [(hs.ends p w hp).1] at ho

theorem input_outputWires {box : HitBoxPtr} {h : GateHitBox} (hb : s.hitbox box = some h)
    (hi : box.isInput = true) : h.outputWires = [] := by
  refine List.eq_nil_iff_forall_not_mem.mpr fun p hp => ?_
  obtain ⟨w, hw, rfl⟩ := hs.ofOutputs box h p hb hp
  simp [(hs.ends p w hw).2.1] at hi

theorem outputWires_nodup {box : HitBoxPtr} {h : GateHitBox} (hb : s.hitbox box = some h) :
    h.outputWires.Nodup := by
  refine List.nodup_iff_count_le_one.mpr fun p => ?_
  by_cases hp : p ∈ h.outputWires
  · obtain ⟨w, hw, rfl⟩ := hs.ofOutputs box h p hb hp
    exact Nat.le_of_eq (hs.count_of_output hw hb)
  · rw [List.count_eq_zero_of_not_mem hp]
    exact Nat.zero_le 1

end Consistent

end Scene

/-! ## Forgetting wires -/

/-- Forget the wires that are not `live`. -/
def GateHitBox.keep (live : WirePtr → Bool) (h : GateHitBox) : GateHitBox :=
  ⟨h.wire.filter live, h.outputWires.filter live⟩

theorem GateHitBox.keep_of_unused {h : GateHitBox} {p : WirePtr} (hw : h.wire ≠ some p)
    (ho : p ∉ h.outputWires) : h.keep (fun q => q ≠ p) = h := by
  obtain ⟨wire, outputs⟩ := h
  have h1 : wire.filter (fun q => q ≠ p) = wire := by
    cases wire with
    | none => rfl
    | some q =>
      have hq : q ≠ p := fun e => hw (by rw [e])
      simp [Option.filter_some, hq]
  have h2 : outputs.filter (fun q => q ≠ p) = outputs := by
    refine List.filter_eq_self.mpr fun q hq => ?_
    have hne : q ≠ p := fun e => ho (e ▸ hq)
    simp [hne]
  rw [GateHitBox.keep, h1, h2]

namespace Scene

/-- The scene when exactly the `live` wires are left. -/
def keep (live : WirePtr → Bool) (s : Scene) : Scene :=
  { s with
    hitbox := fun box => (s.hitbox box).map (GateHitBox.keep live)
    wire := fun p => if live p then s.wire p else none }

theorem keep_wire {live : WirePtr → Bool} {s : Scene} {p : WirePtr} {w : Wire} :
    (s.keep live).wire p = some w ↔ live p = true ∧ s.wire p = some w := by
  simp only [keep]
  split <;> simp_all

theorem keep_hitbox {live : WirePtr → Bool} {s : Scene} {box : HitBoxPtr} {h : GateHitBox} :
    (s.keep live).hitbox box = some h ↔ ∃ h', s.hitbox box = some h' ∧ h'.keep live = h := by
  simp [keep]

theorem Consistent.keep {s : Scene} (hs : s.Consistent) (live : WirePtr → Bool) :
    (s.keep live).Consistent where
  ends p w hw := hs.ends p w (keep_wire.mp hw).2
  registered p w hw := by
    obtain ⟨hl, hw⟩ := keep_wire.mp hw
    obtain ⟨⟨h, hb, hp⟩, h', hb', hc⟩ := hs.registered p w hw
    refine ⟨⟨_, keep_hitbox.mpr ⟨h, hb, rfl⟩, ?_⟩, _, keep_hitbox.mpr ⟨h', hb', rfl⟩, ?_⟩
    · simp [GateHitBox.keep, hp, hl]
    · rw [GateHitBox.keep, List.count_filter hl, hc]
  ofWire box h p hb hp := by
    obtain ⟨h', hb', rfl⟩ := keep_hitbox.mp hb
    obtain ⟨hp, hl⟩ := Option.filter_eq_some_iff.mp hp
    obtain ⟨w, hw, he⟩ := hs.ofWire box h' p hb' hp
    exact ⟨w, keep_wire.mpr ⟨hl, hw⟩, he⟩
  ofOutputs box h p hb hp := by
    obtain ⟨h', hb', rfl⟩ := keep_hitbox.mp hb
    obtain ⟨hp, hl⟩ := List.mem_filter.mp hp
    obtain ⟨w, hw, he⟩ := hs.ofOutputs box h' p hb' hp
    exact ⟨w, keep_wire.mpr ⟨hl, hw⟩, he⟩
  fresh p w hw := hs.fresh p w (keep_wire.mp hw).2

theorem keep_keep (s : Scene) (f g : WirePtr → Bool) :
    (s.keep f).keep g = s.keep (fun p => f p && g p) := by
  simp only [keep, mk.injEq, and_true]
  constructor
  · funext box
    cases s.hitbox box with
    | none => rfl
    | some h =>
      simp [GateHitBox.keep, Option.filter_filter, List.filter_filter, Bool.and_comm]
  · funext p
    by_cases hf : f p = true <;> simp [hf]

theorem keep_cons (s : Scene) (p : WirePtr) (l : List WirePtr) :
    (s.keep fun q => q ≠ p).keep (fun q => q ∉ l) = s.keep fun q => q ∉ p :: l := by
  rw [keep_keep]
  congr 1
  funext q
  by_cases hq : q = p <;> simp [hq]

/-- **Deleting a wire.**  In a consistent scene it goes and nothing else does. -/
theorem deleteWire_eq {s : Scene} (hs : s.Consistent) {p : WirePtr} {w : Wire}
    (hw : s.wire p = some w) : s.deleteWire p = .ok (s.keep fun q => q ≠ p) := by
  obtain ⟨hi, ho, hne⟩ := hs.ends p w hw
  obtain ⟨⟨bi, hbi, hbw⟩, bo, hbo, hcount⟩ := hs.registered p w hw
  have hio : w.output ≠ w.input := fun h => hne (by rw [h])
  have hbon : bo.wire = none := hs.output_wire hbo ho
  have h1 : s.removeWire w.input p = .ok (s.put w.input { bi with wire := none }) := by
    simp [removeWire, deref_eq hbi, hbw, bind, Except.bind]
  have h2 : (s.put w.input { bi with wire := none }).removeWire w.output p =
      .ok ((s.put w.input { bi with wire := none }).put w.output
        { bo with outputWires := bo.outputWires.erase p }) := by
    have hb : (s.put w.input { bi with wire := none }).hitbox w.output = some bo := by
      rw [put_hitbox, if_neg hio, hbo]
    simp [removeWire, deref_eq hb, hbon, bind, Except.bind]
  rw [deleteWire, derefWire_eq hw]
  simp only [bind, Except.bind, h1, h2, keep, Except.ok.injEq, mk.injEq, put_wire]
  refine ⟨?_, ?_, rfl, rfl, rfl⟩
  · funext box
    rw [put_hitbox, put_hitbox]
    by_cases hbox : box = w.output
    · -- the output hitbox has the wire in its vector only
      rw [if_pos hbox, hbox, hbo, (hs.outputWires_nodup hbo).erase_eq_filter]
      simp [GateHitBox.keep, hbon, bne]
      rfl
    · rw [if_neg hbox]
      by_cases hbox' : box = w.input
      · rw [if_pos hbox', hbox', hbi]
        simp [GateHitBox.keep, hbw, hs.input_outputWires hbi hi, Option.filter_some]
      · -- other hitboxes do not know the wire
        rw [if_neg hbox']
        cases hb : s.hitbox box with
        | none => rfl
        | some h =>
          refine congrArg some (GateHitBox.keep_of_unused ?_ ?_).symm
          · intro hp
            obtain ⟨w', hw', rfl⟩ := hs.ofWire box h p hb hp
            rw [hw] at hw'
            cases hw'
            exact hbox' rfl
          · intro hp
            obtain ⟨w', hw', rfl⟩ := hs.ofOutputs box h p hb hp
            rw [hw] at hw'
            cases hw'
            exact hbox rfl
  · funext q
    by_cases hq : q = p <;> simp [hq]

/-! ## Destroying hitboxes -/

theorem keep_all (s : Scene) {live : WirePtr → Bool} (h : ∀ p, live p = true) :
    s.keep live = s := by
  have hl : live = fun _ => true := funext h
  subst hl
  simp only [keep, if_true]
  have hb : ∀ b : GateHitBox, b.keep (fun _ => true) = b := by
    rintro ⟨wire, outputs⟩
    cases wire <;> simp [GateHitBox.keep, Option.filter_some]
  congr 1
  funext box
  cases s.hitbox box <;> simp [hb]

/-- The wrapping index is back at 0 in every turn, so the loop deletes the wires
from the front. -/
theorem destroyOutputs_eq {box : HitBoxPtr} {l : List WirePtr} {fuel : Nat} {s : Scene}
    (hs : s.Consistent) {h : GateHitBox} (hb : s.hitbox box = some h) (hl : h.outputWires = l)
    (hf : l.length < fuel) :
    s.destroyOutputs box fuel 0 = .ok (s.keep fun q => q ∉ l) := by
  induction l generalizing fuel s h with
  | nil =>
    obtain ⟨fuel, rfl⟩ : ∃ k, fuel = k + 1 := ⟨fuel - 1, by omega⟩
    rw [keep_all s (fun q => by simp)]
    simp [destroyOutputs, deref_eq hb, hl, bind, Except.bind]
  | cons p l ih =>
    obtain ⟨fuel, rfl⟩ : ∃ k, fuel = k + 1 := ⟨fuel - 1, by omega⟩
    have hnd := hs.outputWires_nodup hb
    rw [hl, List.nodup_cons] at hnd
    obtain ⟨w, hw, _⟩ := hs.ofOutputs box h p hb (by simp [hl])
    have hdel := deleteWire_eq hs hw
    have hb₁ : (s.keep fun q => q ≠ p).hitbox box = some (h.keep fun q => q ≠ p) :=
      keep_hitbox.mpr ⟨h, hb, rfl⟩
    have hl₁ : (h.keep fun q => q ≠ p).outputWires = l := by
      show h.outputWires.filter (fun q => q ≠ p) = l
      rw [hl, List.filter_cons_of_neg (by simp)]
      refine List.filter_eq_self.mpr fun q hq => ?_
      have hne : q ≠ p := fun e => hnd.1 (e ▸ hq)
      simp [hne]
    have hrec := ih (hs.keep _) hb₁ hl₁ (show l.length < fuel by simpa using hf)
    have hidx : ((0 + 0xFFFFFFFFFFFFFFFF) % 0x10000000000000000 + 1) % 0x10000000000000000 = 0 := by
      decide
    simp only [destroyOutputs, deref_eq hb, hl, bind, Except.bind, List.getElem?_cons_zero, hdel,
      hidx, hrec, keep_cons]

theorem Consistent.free {s : Scene} (hs : s.Consistent) {box : HitBoxPtr}
    (hbox : ∀ p w, s.wire p = some w → w.input ≠ box ∧ w.output ≠ box) :
    (s.free box).Consistent where
  ends := hs.ends
  registered p w hw := by
    obtain ⟨hi, ho⟩ := hbox p w hw
    rw [free_hitbox, free_hitbox, if_neg hi, if_neg ho]
    exact hs.registered p w hw
  ofWire box' h p hb := by
    rw [free_hitbox] at hb
    split at hb
    · cases hb
    · exact hs.ofWire box' h p hb
  ofOutputs box' h p hb := by
    rw [free_hitbox] at hb
    split at hb
    · cases hb
    · exact hs.ofOutputs box' h p hb
  fresh := hs.fresh

/-- **One hitbox.**  Exactly the wires with an end on it go. -/
theorem destroyHitBox_spec {s : Scene} (hs : s.Consistent) {box : HitBoxPtr} {h : GateHitBox}
    (hb : s.hitbox box = some h) :
    ∃ live, s.destroyHitBox box = .ok ((s.keep live).free box) ∧
      ((s.keep live).free box).Consistent ∧
      ∀ p w, s.wire p = some w → (live p = true ↔ w.input ≠ box ∧ w.output ≠ box) := by
  suffices hex : ∃ live, s.destroyHitBox box = .ok ((s.keep live).free box) ∧
      ∀ p w, s.wire p = some w → (live p = true ↔ w.input ≠ box ∧ w.output ≠ box) by
    obtain ⟨live, hd, hl⟩ := hex
    refine ⟨live, hd, (hs.keep live).free fun p w hw => ?_, hl⟩
    obtain ⟨hp, hw⟩ := keep_wire.mp hw
    exact (hl p w hw).mp hp
  cases hi : box.isInput with
  | true =>
    have hout : ∀ p w, s.wire p = some w → w.output ≠ box := by
      rintro p w hw rfl
      simp [(hs.ends p w hw).2.1] at hi
    cases hp : h.wire with
    | none =>
      refine ⟨fun _ => true, ?_, fun p w hw => ?_⟩
      · rw [keep_all s (fun _ => rfl)]
        simp [destroyHitBox, deref_eq hb, hi, hp, bind, Except.bind]
      · simp [hs.input_ne hb hp hw, hout p w hw]
    | some q =>
      obtain ⟨v, hv, hvb⟩ := hs.ofWire box h q hb hp
      refine ⟨fun p => p ≠ q, ?_, fun p w hw => ?_⟩
      · simp [destroyHitBox, deref_eq hb, hi, hp, deleteWire_eq hs hv, bind, Except.bind]
      · have hiff : p = q ↔ w.input = box := by
          constructor
          · rintro rfl
            rw [hv] at hw
            cases hw
            exact hvb
          · rintro rfl
            rw [hs.wire_of_input hw hb] at hp
            exact Option.some.inj hp
        simp [hiff, hout p w hw]
  | false =>
    refine ⟨fun q => q ∉ h.outputWires, ?_, fun p w hw => ?_⟩
    · simp [destroyHitBox, deref_eq hb, hi, destroyOutputs_eq hs hb rfl (Nat.lt_succ_self _),
        bind, Except.bind]
    · have hne : w.input ≠ box := by
        rintro rfl
        simp [(hs.ends p w hw).1] at hi
      have hiff : p ∈ h.outputWires ↔ w.output = box := by
        constructor
        · intro hp
          obtain ⟨v, hv, hvb⟩ := hs.ofOutputs box h p hb hp
          rw [hw] at hv
          cases hv
          exact hvb
        · rintro rfl
          exact hs.mem_of_output hw hb
      simp [hiff, hne]

/-- Free several hitboxes. -/
def without (boxes : List HitBoxPtr) (s : Scene) : Scene :=
  { s with hitbox := fun box => if box ∈ boxes then none else s.hitbox box }

/-- **A gate's hitboxes.**  Exactly the wires with an end on one of them go. -/
theorem destroyHitBoxes_spec {s : Scene} (hs : s.Consistent) {boxes : List HitBoxPtr}
    (hnd : boxes.Nodup) (hb : ∀ box ∈ boxes, ∃ h, s.hitbox box = some h) :
    ∃ live, s.destroyHitBoxes boxes = .ok ((s.keep live).without boxes) ∧
      ((s.keep live).without boxes).Consistent ∧
      ∀ p w, s.wire p = some w → (live p = true ↔ w.input ∉ boxes ∧ w.output ∉ boxes) := by
  induction boxes generalizing s with
  | nil =>
    refine ⟨fun _ => true, ?_, ?_, by simp⟩
    · simp [destroyHitBoxes, keep_all, without]
    · simpa [keep_all, without] using hs
  | cons box boxes ih =>
    obtain ⟨hbox, hnd⟩ := List.nodup_cons.mp hnd
    obtain ⟨h, hh⟩ := hb box (by simp)
    obtain ⟨live₁, hd₁, hs₁, hl₁⟩ := destroyHitBox_spec hs hh
    have hb₁ : ∀ b ∈ boxes, ∃ h, ((s.keep live₁).free box).hitbox b = some h := by
      intro b hbm
      obtain ⟨h, hh⟩ := hb b (by simp [hbm])
      have hne : b ≠ box := fun e => hbox (e ▸ hbm)
      exact ⟨_, by rw [free_hitbox, if_neg hne]; exact keep_hitbox.mpr ⟨h, hh, rfl⟩⟩
    obtain ⟨live₂, hd₂, hs₂, hl₂⟩ := ih hs₁ hnd hb₁
    have heq : (((s.keep live₁).free box).keep live₂).without boxes =
        (s.keep fun p => live₁ p && live₂ p).without (box :: boxes) := by
      rw [← keep_keep]
      simp only [without, keep, free, mk.injEq, and_true, List.mem_cons]
      funext b
      by_cases hb : b = box
      · simp [hb]
      · simp [hb]
    refine ⟨fun p => live₁ p && live₂ p, ?_, heq ▸ hs₂, fun p w hw => ?_⟩
    · rw [destroyHitBoxes, hd₁, ← heq]
      exact hd₂
    · have h1 := hl₁ p w hw
      by_cases hp : live₁ p = true
      · have hw₁ : ((s.keep live₁).free box).wire p = some w := keep_wire.mpr ⟨hp, hw⟩
        have h2 := hl₂ p w hw₁
        simp only [hp, true_iff] at h1
        simp [hp, h2, h1.1, h1.2]
      · have hn : ¬ (w.input ≠ box ∧ w.output ≠ box) := fun h => hp (h1.mpr h)
        simp only [hp, Bool.false_and, Bool.false_eq_true, List.mem_cons, not_or, false_iff]
        exact fun h => hn ⟨h.1.1, h.2.1⟩

/-! ## Connecting -/

/-- The scene with a new wire from `o` to `i`, registered on both sides. -/
def connect (i o : HitBoxPtr) (s : Scene) : Scene :=
  { s with
    hitbox := fun box => (s.hitbox box).map fun h =>
      if box = i then { h with wire := some s.nextWire }
      else if box = o then { h with outputWires := h.outputWires ++ [s.nextWire] }
      else h
    wire := Function.update s.wire s.nextWire (some ⟨i, o, .black⟩)
    nextWire := s.nextWire + 1 }

theorem connect_hitbox (s : Scene) (i o box : HitBoxPtr) :
    (s.connect i o).hitbox box = (s.hitbox box).map fun h =>
      if box = i then { h with wire := some s.nextWire }
      else if box = o then { h with outputWires := h.outputWires ++ [s.nextWire] }
      else h := rfl

theorem connect_wire (s : Scene) (i o : HitBoxPtr) (p : WirePtr) :
    (s.connect i o).wire p = if p = s.nextWire then some ⟨i, o, .black⟩ else s.wire p := by
  simp [connect, Function.update_apply]

/-- The pending pointers do not matter to the registrations. -/
theorem Consistent.pending {s : Scene} (hs : s.Consistent) (i o : Option HitBoxPtr) :
    { s with input := i, output := o }.Consistent :=
  ⟨hs.ends, hs.registered, hs.ofWire, hs.ofOutputs, hs.fresh⟩

theorem Consistent.ne_nextWire {s : Scene} (hs : s.Consistent) {p : WirePtr} {w : Wire}
    (hw : s.wire p = some w) : p ≠ s.nextWire := Nat.ne_of_lt (hs.fresh p w hw)

/-- A new wire replaces none. -/
theorem Consistent.connect_wire_old {s : Scene} (hs : s.Consistent) (i o : HitBoxPtr)
    {p : WirePtr} {w : Wire} (hw : s.wire p = some w) : (s.connect i o).wire p = some w := by
  rw [connect_wire, if_neg (hs.ne_nextWire hw)]
  exact hw

/-- What connecting does to one hitbox. -/
theorem connect_registers {s : Scene} {i o : HitBoxPtr} (hne : o ≠ i) {box : HitBoxPtr}
    {h' : GateHitBox} :
    (s.connect i o).hitbox box = some h' ↔ ∃ h, s.hitbox box = some h ∧
      h' = ⟨if box = i then some s.nextWire else h.wire,
        if box = o then h.outputWires ++ [s.nextWire] else h.outputWires⟩ := by
  rw [connect_hitbox, Option.map_eq_some_iff]
  refine exists_congr fun h => and_congr_right fun _ => ?_
  by_cases hi : box = i
  · simp [hi, Ne.symm hne, eq_comm]
  · by_cases ho : box = o
    · simp [ho, hne, eq_comm]
    · simp [hi, ho, eq_comm]

theorem Consistent.connect {s : Scene} (hs : s.Consistent) {i o : HitBoxPtr}
    {hi ho : GateHitBox} (hii : i.isInput = true) (hoo : o.isInput = false)
    (hne : i.owner ≠ o.owner) (hbi : s.hitbox i = some hi) (hiw : hi.wire = none)
    (hbo : s.hitbox o = some ho) : (s.connect i o).Consistent := by
  have hio : o ≠ i := fun h => hne (by rw [h])
  have hunused : ∀ box h, s.hitbox box = some h → s.nextWire ∉ h.outputWires := by
    intro box h hb hp
    obtain ⟨w, hw, _⟩ := hs.ofOutputs box h _ hb hp
    exact hs.ne_nextWire hw rfl
  refine ⟨fun p w hw => ?_, fun p w hw => ?_, fun box h p hb hp => ?_, fun box h p hb hp => ?_,
    fun p w hw => ?_⟩
  · rw [connect_wire] at hw
    split at hw
    · cases hw
      exact ⟨hii, hoo, hne⟩
    · exact hs.ends p w hw
  · rw [connect_wire] at hw
    split at hw
    · next hp =>
      -- the new wire
      cases hw
      refine ⟨⟨_, (connect_registers hio).mpr ⟨hi, hbi, rfl⟩, ?_⟩, _,
        (connect_registers hio).mpr ⟨ho, hbo, rfl⟩, ?_⟩
      · simp [hp]
      · simp [hp, List.count_eq_zero_of_not_mem (hunused o ho hbo)]
    · next hp =>
      -- the others keep their registrations
      obtain ⟨⟨h, hb, hw'⟩, h', hb', hc⟩ := hs.registered p w hw
      refine ⟨⟨_, (connect_registers hio).mpr ⟨h, hb, rfl⟩, ?_⟩, _,
        (connect_registers hio).mpr ⟨h', hb', rfl⟩, ?_⟩
      · simp [hs.input_ne hbi hiw hw, hw']
      · by_cases hbox : w.output = o <;> simp [hbox, hc, Ne.symm hp]
  · obtain ⟨h', hb', rfl⟩ := (connect_registers hio).mp hb
    split at hp
    · next hbox =>
      cases hp
      exact ⟨⟨i, o, .black⟩, by rw [connect_wire, if_pos rfl], hbox.symm⟩
    · obtain ⟨w, hw, he⟩ := hs.ofWire box h' p hb' hp
      exact ⟨w, hs.connect_wire_old i o hw, he⟩
  · obtain ⟨h', hb', rfl⟩ := (connect_registers hio).mp hb
    have hp' : p ∈ h'.outputWires ∨ p = s.nextWire ∧ box = o := by
      simp only at hp
      split at hp
      · next hbox => simpa [hbox] using hp
      · exact Or.inl hp
    rcases hp' with hp' | ⟨rfl, rfl⟩
    · obtain ⟨w, hw, he⟩ := hs.ofOutputs box h' p hb' hp'
      exact ⟨w, hs.connect_wire_old i o hw, he⟩
    · exact ⟨⟨i, box, .black⟩, by rw [connect_wire, if_pos rfl], rfl⟩
  · rw [connect_wire] at hw
    split at hw
    · next hp => exact hp ▸ Nat.lt_succ_self s.nextWire
    · exact Nat.lt_succ_of_lt (hs.fresh p w hw)

/-- `s'` has every wire and every registration of `s`. -/
structure Keeps (s s' : Scene) : Prop where
  wire : ∀ p w, s.wire p = some w → s'.wire p = some w
  inputs : ∀ box h p, s.hitbox box = some h → h.wire = some p →
    ∃ h', s'.hitbox box = some h' ∧ h'.wire = some p
  outputs : ∀ box h p, s.hitbox box = some h → p ∈ h.outputWires →
    ∃ h', s'.hitbox box = some h' ∧ p ∈ h'.outputWires

theorem Keeps.refl (s : Scene) : Keeps s s :=
  ⟨fun _ _ h => h, fun _ h _ hb hp => ⟨h, hb, hp⟩, fun _ h _ hb hp => ⟨h, hb, hp⟩⟩

theorem connect_keeps {s : Scene} (hs : s.Consistent) {i o : HitBoxPtr} (hne : o ≠ i)
    {hi : GateHitBox} (hbi : s.hitbox i = some hi) (hiw : hi.wire = none) :
    Keeps s (s.connect i o).reset where
  wire _ _ hw := hs.connect_wire_old i o hw
  inputs box h p hb hp := by
    have hbox : box ≠ i := by
      rintro rfl
      rw [hbi] at hb
      cases hb
      simp [hiw] at hp
    exact ⟨_, (connect_registers hne).mpr ⟨h, hb, rfl⟩, by simp [hbox, hp]⟩
  outputs box h p hb hp := by
    refine ⟨_, (connect_registers hne).mpr ⟨h, hb, rfl⟩, ?_⟩
    by_cases hbox : box = o <;> simp [hbox, hp]

end Scene

end SimGate

import SimGate.TableScreen

/-!
# The order of edits

Wires and gates are deleted and input states toggled in any order; the circuit that is
left is the same.

* `take_comm`: two such edits commute on every circuit;
* `order_unseen`: runs with the same such actions in different orders.
-/

namespace SimGate

open Execution

/-! ## Edits that commute -/

namespace Circuit

variable {c : Circuit}

/-- What an edit that takes away or toggles does to any circuit. -/
def take (c : Circuit) : Edit → Circuit
  | .unplug input => c.unplug input
  | .remove gate => c.remove gate
  | .toggle gate => c.toggled [gate]
  | .clearSimulate => { c with simulated := false }
  | _ => c

theorem hasPart_toggled {l : List GatePtr} {gate : GatePtr} :
    (c.toggled l).HasPart gate ↔ c.HasPart gate := by
  constructor
  · rintro ⟨p, hp, rfl⟩
    obtain ⟨x, hx, rfl⟩ := List.mem_map.mp hp
    exact ⟨x, hx, (Part.toggleIn_ptr l x).symm⟩
  · rintro ⟨p, hp, rfl⟩
    exact ⟨p.toggleIn l, List.mem_map_of_mem hp, Part.toggleIn_ptr l p⟩

theorem hasPart_remove {gate other : GatePtr} (h : other ≠ gate) :
    (c.remove gate).HasPart other ↔ c.HasPart other := by
  rw [remove]
  split
  · constructor
    · rintro ⟨p, hp, hptr⟩
      exact ⟨p, (List.mem_filter.mp hp).1, hptr⟩
    · rintro ⟨p, hp, rfl⟩
      exact ⟨p, List.mem_filter.mpr ⟨hp, decide_eq_true h⟩, rfl⟩
  · rfl

theorem remove_unplug (c : Circuit) (gate : GatePtr) (input : HitBoxPtr) :
    (c.remove gate).unplug input = (c.unplug input).remove gate := by
  have hhas : (c.unplug input).HasPart gate ↔ c.HasPart gate := Iff.rfl
  rw [remove, remove]
  simp only [hhas]
  split
  · refine Circuit.ext rfl (funext fun box => ?_) rfl rfl rfl rfl
    by_cases hbox : box = input
    · subst hbox
      simp [unplug]
    · simp [unplug, hbox]
  · rfl

theorem remove_toggled (c : Circuit) (gate : GatePtr) (l : List GatePtr) :
    (c.remove gate).toggled l = (c.toggled l).remove gate := by
  rw [remove, remove]
  simp only [hasPart_toggled]
  split
  · refine Circuit.ext ?_ rfl rfl rfl rfl rfl
    show (c.parts.filter _).map (Part.toggleIn l) = (c.parts.map (Part.toggleIn l)).filter _
    rw [List.filter_map]
    congr 1
    refine List.filter_congr fun p _ => ?_
    simp
  · rfl

theorem remove_clear (c : Circuit) (gate : GatePtr) :
    ({ c.remove gate with simulated := false } : Circuit) =
      ({ c with simulated := false } : Circuit).remove gate := by
  have hhas : ({ c with simulated := false } : Circuit).HasPart gate ↔ c.HasPart gate := Iff.rfl
  rw [remove, remove]
  simp only [hhas]
  split <;> rfl

theorem remove_present {gate : GatePtr} (h : c.HasPart gate) : c.remove gate = { c with
    parts := c.parts.filter fun p => p.ptr ≠ gate
    source := fun box => if box.owner = gate ∨ c.source box = some gate then none else c.source box
    simulated := false } := if_pos h

theorem remove_absent {gate : GatePtr} (h : ¬ c.HasPart gate) : c.remove gate = c := if_neg h

theorem remove_remove (c : Circuit) (gate other : GatePtr) :
    (c.remove gate).remove other = (c.remove other).remove gate := by
  by_cases hsame : other = gate
  · rw [hsame]
  · have hother := hasPart_remove (c := c) hsame
    have hgate := hasPart_remove (c := c) (Ne.symm hsame)
    by_cases hg : c.HasPart gate
    · by_cases ho : c.HasPart other
      · rw [remove_present (hother.mpr ho), remove_present (hgate.mpr hg), remove_present hg,
          remove_present ho]
        refine Circuit.ext ?_ (funext fun box => ?_) rfl rfl rfl rfl
        · show (c.parts.filter _).filter _ = (c.parts.filter _).filter _
          rw [List.filter_filter, List.filter_filter]
          exact List.filter_congr fun p _ => Bool.and_comm ..
        · show (if box.owner = other ∨ (if _ then _ else _) = some other then none
              else if _ then _ else _) =
            if box.owner = gate ∨ (if _ then _ else _) = some gate then none
              else if _ then _ else _
          grind
      · rw [remove_absent ho, remove_absent (mt hother.mp ho)]
    · rw [remove_absent hg, remove_absent (mt hgate.mp hg)]

theorem toggled_toggled (c : Circuit) (l l' : List GatePtr) :
    (c.toggled l).toggled l' = (c.toggled l').toggled l := by
  refine Circuit.ext ?_ rfl rfl rfl rfl rfl
  show (c.parts.map _).map _ = (c.parts.map _).map _
  rw [List.map_map, List.map_map]
  refine List.map_congr_left fun p _ => ?_
  simp only [Function.comp_apply, Part.toggleIn, apply_ite Part.ptr, Part.toggle_ptr, ite_self]
  split <;> split <;> rfl

theorem unplug_unplug (c : Circuit) (input other : HitBoxPtr) :
    (c.unplug input).unplug other = (c.unplug other).unplug input := by
  refine Circuit.ext rfl (funext fun box => ?_) rfl rfl rfl rfl
  simp only [unplug, Function.update_apply]
  split_ifs <;> rfl

section

variable (c : Circuit) (f : Edit)

theorem take_remove (gate : GatePtr) : (c.remove gate).take f = (c.take f).remove gate := by
  cases f with
  | unplug input => exact remove_unplug c gate input
  | remove other => exact remove_remove c gate other
  | toggle other => exact remove_toggled c gate [other]
  | clearSimulate => exact remove_clear c gate
  | _ => rfl

theorem take_unplug (input : HitBoxPtr) : (c.unplug input).take f = (c.take f).unplug input := by
  cases f with
  | unplug other => exact unplug_unplug c input other
  | remove gate => exact (remove_unplug c gate input).symm
  | _ => rfl

theorem take_toggled (l : List GatePtr) : (c.toggled l).take f = (c.take f).toggled l := by
  cases f with
  | remove gate => exact (remove_toggled c gate l).symm
  | toggle gate => exact toggled_toggled c l [gate]
  | _ => rfl

theorem take_clear :
    ({ c with simulated := false } : Circuit).take f = { c.take f with simulated := false } := by
  cases f with
  | remove gate => exact (remove_clear c gate).symm
  | _ => rfl

/-- **Two edits commute.** -/
theorem take_comm (e : Edit) : (c.take e).take f = (c.take f).take e := by
  cases e with
  | unplug input => exact take_unplug c f input
  | remove gate => exact take_remove c f gate
  | toggle gate => exact take_toggled c f [gate]
  | clearSimulate => exact take_clear c f
  | _ => rfl

end

end Circuit

def Action.takes : Action → Bool
  | .deleteWire _ | .deleteGate _ | .changeTypeInput _ | .clearSimulate => true
  | _ => false

namespace Area

variable {a b c : Area}

/-- The wires of `b` are wires of `a`. -/
def Fewer (a b : Area) : Prop :=
  ∀ p w, b.scene.wire p = some w → ∃ w₀, a.scene.wire p = some w₀ ∧ w₀.input = w.input

theorem Fewer.keep (h : Fewer a b) (live : WirePtr → Bool) :
    Fewer a { b with scene := b.scene.keep live } := by
  intro p w hw
  exact h p w (Scene.keep_wire.mp hw).2

theorem displayFree_fewer (a : Area) : DisplayFree (Fewer a) where
  pixmap _ _ _ h := h
  scene b s hs h p w hw := by
    obtain ⟨w₀, hw₀, hin, _⟩ := hs.wire_of hw
    obtain ⟨w₁, hw₁, hin'⟩ := h p w₀ hw₀
    exact ⟨w₁, hw₁, hin'.trans hin⟩
  flag _ _ h := h

/-- An input that has lost its wire is free. -/
theorem Fewer.source_free (h : Fewer a b) (ha : a.Sound) (hb : b.Sound) {p : WirePtr} {w : Wire}
    (hw : a.scene.wire p = some w) (hnone : b.scene.wire p = none) :
    b.scene.source w.input = none := by
  refine Option.eq_none_iff_forall_ne_some.mpr fun q hq => ?_
  obtain ⟨p', w', hw', hin, _⟩ := hb.wellFormed.consistent.source_eq_some.mp hq
  obtain ⟨w₀, hw₀, hin₀⟩ := h p' w' hw'
  have hsame := ha.wellFormed.consistent.eq_of_input hw₀ hw (hin₀.trans hin)
  rw [hsame, hnone] at hw'
  cases hw'

theorem edit_unplug {p : WirePtr} {w : Wire} (hw : a.scene.wire p = some w) :
    a.edit (.deleteWire p) = .unplug w.input := by simp only [edit, hw]

theorem edit_idle {p : WirePtr} (hw : a.scene.wire p = none) :
    a.edit (.deleteWire p) = .idle := by simp only [edit, hw]

theorem Fewer.take_deleteWire (h : Fewer a b) (ha : a.Sound) (hb : b.Sound) (wire : WirePtr)
    {d : Circuit} (hd : b.circuit.step (b.edit (.deleteWire wire)) = some d) :
    b.circuit.take (a.edit (.deleteWire wire)) = d := by
  cases hw : b.scene.wire wire with
  | some w =>
    obtain ⟨w₀, hw₀, hin⟩ := h wire w hw
    rw [edit_unplug hw] at hd
    rw [edit_unplug hw₀, hin]
    exact Option.some.inj hd
  | none =>
    rw [edit_idle hw] at hd
    cases hw₀ : a.scene.wire wire with
    | none =>
      rw [edit_idle hw₀]
      exact Option.some.inj hd
    | some w₀ =>
      -- the wire went with a gate
      have hfree := h.source_free ha hb hw₀ hw
      have hsame : b.circuit.unplug w₀.input = b.circuit :=
        Circuit.ext rfl (Function.update_eq_self_iff.mpr hfree.symm) rfl rfl rfl rfl
      rw [edit_unplug hw₀]
      exact hsame.trans (Option.some.inj hd)

/-- **One action** is its edit in the scheme from which the run started. -/
theorem step_take {act : Action} (hact : act.takes = true) (ha : a.Sound) (hb : b.Sound)
    (h : Fewer a b) (hstep : step act b = .ok c) :
    Fewer a c ∧ c.circuit = b.circuit.take (a.edit act) := by
  obtain ⟨d, hd, _, rfl⟩ := (step_simulated act ⟨hb, rfl⟩).of_ok hstep
  cases act with
  | deleteWire wire =>
    obtain ⟨live, rfl⟩ := deleteWire_ok hb.wellFormed.consistent hstep
    exact ⟨h.keep live, (h.take_deleteWire ha hb wire hd).symm⟩
  | deleteGate gate =>
    refine ⟨?_, (Option.some.inj hd).symm⟩
    rcases deleteGate_ok hb.wellFormed hstep with ⟨_, rfl⟩ | ⟨g, _, _, live, _, hclear⟩
    · exact h
    · refine (displayFree_fewer a).clearSimulate ?_ hclear
      exact h.keep live
  | changeTypeInput gate =>
    refine ⟨?_, ?_⟩
    · rcases changeTypeInput_ok hstep with rfl | rfl | hsim
      · exact h
      · exact h
      · refine (displayFree_fewer a).simulate ?_ hsim
        exact h
    · have htoggle : b.circuit.toggle gate = some c.circuit := hd
      rw [Circuit.toggle_eq] at htoggle
      split at htoggle
      · cases htoggle
      · exact (Option.some.inj htoggle).symm
  | clearSimulate =>
    exact ⟨(displayFree_fewer a).clearSimulate h hstep, (Option.some.inj hd).symm⟩
  | _ => cases hact

/-- A run of such actions is the run of their edits. -/
theorem runs_take {acts : List Action} (hacts : ∀ act ∈ acts, act.takes = true) (ha : a.Sound)
    (hb : b.Sound) (h : Fewer a b) (hrun : runs step acts b = .ok c) :
    c.circuit = (acts.map a.edit).foldl Circuit.take b.circuit := by
  induction acts generalizing b with
  | nil =>
    cases hrun
    rfl
  | cons act acts ih =>
    obtain ⟨hact, hacts⟩ := List.forall_mem_cons.mp hacts
    obtain ⟨d, hd, hrun⟩ := bind_eq_ok hrun
    obtain ⟨hfewer, hcircuit⟩ := step_take hact ha hb h hd
    rw [ih hacts (step_sound hb hd) hfewer hrun, hcircuit]
    rfl

/-- **The order of edits.**  From any state of the editor, wires and gates deleted, input
states toggled and the simulation cleared leave the same circuit in every order. -/
theorem order_unseen {gen : List Id} {acts₀ acts acts' : List Action}
    (h : create gen >>= runs step acts₀ = .ok a) (hacts : ∀ act ∈ acts, act.takes = true)
    (hperm : acts.Perm acts') (hb : runs step acts a = .ok b) (hc : runs step acts' a = .ok c) :
    b.circuit = c.circuit := by
  have ha := runs_sound h
  have hself : Fewer a a := fun p w hw => ⟨w, hw, rfl⟩
  have hacts' : ∀ act ∈ acts', act.takes = true :=
    fun act hact => hacts act (hperm.mem_iff.mpr hact)
  rw [runs_take hacts ha ha hself hb, runs_take hacts' ha ha hself hc]
  exact (hperm.map a.edit).foldl_eq' (fun e _ f _ d => Circuit.take_comm d f e) _

/-- A NOT gate is deleted with its wires, one of them before or after it, and the input
state toggled. -/
theorem order_unseen_negated :
    ∃ a b c, create [7, 8, 9] >>= runs step negated = .ok a ∧
      runs step [.deleteGate 2, .changeTypeInput 1, .deleteWire 0] a = .ok b ∧
      runs step [.deleteWire 0, .deleteGate 2, .changeTypeInput 1] a = .ok c ∧
      b.circuit = c.circuit := by
  obtain ⟨a, b, c, h, hb, hc⟩ : ∃ a b c, create [7, 8, 9] >>= runs step negated = .ok a ∧
      runs step [.deleteGate 2, .changeTypeInput 1, .deleteWire 0] a = .ok b ∧
      runs step [.deleteWire 0, .deleteGate 2, .changeTypeInput 1] a = .ok c :=
    ⟨_, _, _, rfl, rfl, rfl⟩
  have hperm : ([.deleteGate 2, .changeTypeInput 1] ++ [.deleteWire 0] : List Action).Perm
      ([.deleteWire 0] ++ [.deleteGate 2, .changeTypeInput 1]) := List.perm_append_comm
  exact ⟨a, b, c, h, hb, hc, order_unseen h (by decide) hperm hb hc⟩

end Area

end SimGate

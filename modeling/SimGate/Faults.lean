import SimGate.Resaving
import SimGate.TableScreen

/-!
# Where the editor fails

Apart from loads there are four ways: the generator has no more ids, a connection is
finished whose other gate is gone, and a scheme with a free second input is simulated, by
the button or by the toggle of an input state.

* `step_fault_iff`: one action;
* `runs_fault_iff`: runs.
-/

namespace SimGate

open Execution

/-! ## Where a circuit is stuck -/

namespace Circuit

variable {c : Circuit}

theorem click_eq_none {box : HitBoxPtr} : c.click box = none ↔
    c.HasBox box ∧ (box.isInput = true → c.source box = none) ∧
      ∃ other, c.pending = some other ∧ other.isInput ≠ box.isInput ∧ ¬ c.HasBox other := by
  by_cases hbox : c.HasBox box
  · rw [and_iff_right hbox]
    by_cases htaken : box.isInput = true ∧ c.source box ≠ none
    · rw [click_taken hbox htaken.1 htaken.2]
      simp [htaken.1, htaken.2]
    · have hfree : box.isInput = true → c.source box = none := fun hi =>
        not_not.mp fun hs => htaken ⟨hi, hs⟩
      rw [and_iff_right hfree]
      cases hp : c.pending with
      | none =>
        rw [click_first hbox hfree hp]
        simp
      | some other =>
        by_cases hsame : other.isInput = box.isInput
        · rw [click_same hbox hfree hp hsame]
          simp [hsame]
        · rw [click_second hbox hfree hp hsame]
          simp [hsame]
  · rw [click, if_pos hbox]
    simp [hbox]

theorem simulate_eq_none : c.simulate = none ↔ ¬ c.Complete := by
  rw [simulate]
  split <;> simp [*]

theorem toggle_eq_none {gate : GatePtr} :
    c.toggle gate = none ↔ c.simulated = true ∧ c.HasPart gate ∧ ¬ c.Complete := by
  rw [toggle_eq]
  split
  · next h => exact iff_of_true rfl h
  · next h => exact iff_of_false (by simp) h

end Circuit

/-! ## Faults -/

namespace Area

variable {a : Area}

/-- The second input of a gate is not connected. -/
def FreeSecond (a : Area) : Prop :=
  ∃ g ∈ a.m_gates.elems, twoInputs g.type ∧ a.scene.source ⟨g.ptr, .input2⟩ = none

/-- The action fails in the scheme with this fault. -/
def Faults (act : Action) (a : Area) (e : Fault) : Prop :=
  match act with
  | .draw _ =>
    e = .idLoop ∧ ∀ id ∈ a.gen, id = gNotValidGateId ∨ ∃ g ∈ a.m_gates.elems, g.id = id
  | .click hitbox =>
    e = .dangling ∧ a.circuit.HasBox hitbox ∧
      (hitbox.isInput = true → a.scene.source hitbox = none) ∧
      ∃ other, a.circuit.pending = some other ∧ other.isInput ≠ hitbox.isInput ∧
        ¬ a.circuit.HasBox other
  | .changeTypeInput gate =>
    e = .nullPointer ∧ a.simulatorFlag = true ∧ (∃ g ∈ a.m_gates.elems, g.ptr = gate) ∧
      a.FreeSecond
  | .simulate => e = .nullPointer ∧ a.FreeSecond
  | _ => False

theorem freeSecond_iff : a.FreeSecond ↔ ¬ a.circuit.Complete := by
  unfold FreeSecond Circuit.Complete
  push Not
  constructor
  · rintro ⟨g, hg, htwo, hfree⟩
    exact ⟨g.part, List.mem_map_of_mem hg, htwo, hfree⟩
  · rintro ⟨p, hp, htwo, hfree⟩
    obtain ⟨g, hg, rfl⟩ := List.mem_map.mp hp
    exact ⟨g, hg, htwo, hfree⟩

/-! ## Drawing -/

theorem generateId_error_iff {m_gates : List Gate} {gen : List Id} {e : Fault} :
    generateId m_gates gen = .error e ↔
      e = .idLoop ∧ ∀ id ∈ gen, id = gNotValidGateId ∨ ∃ g ∈ m_gates, g.id = id := by
  induction gen with
  | nil => simp [generateId, eq_comm]
  | cons tmpId gen ih =>
    rw [generateId, List.forall_mem_cons]
    split
    · next htaken => rw [ih, and_iff_right htaken]
    · next hfree =>
      constructor
      · rintro ⟨⟩
      · rintro ⟨_, htaken, _⟩
        exact absurd htaken hfree

theorem draw_fault_iff (type : CommonGateType) {e : Fault} :
    step (.draw type) a = .error e ↔ Faults (.draw type) a e := by
  show a.draw type gNotValidGateId 0 0 = .error e ↔ _
  rw [Faults, ← generateId_error_iff]
  cases hgen : generateId a.m_gates.elems a.gen with
  | error e' => simp [draw, newGate, hgen, bind, Except.bind]
  | ok r =>
    obtain ⟨tmpId, gen⟩ := r
    rw [draw_generated 0 0 hgen, draw_eq (generateId_ok hgen).1]
    simp

end Area

/-! ## The kind of a fault -/

namespace Scene

variable {s : Scene} {box : HitBoxPtr}

theorem deref_failsOnly : FailsOnly .dangling (s.deref box) := by
  unfold deref
  split
  · exact .ok _ _
  · exact .error _

theorem setupWire_failsOnly {wire : WirePtr} : FailsOnly .dangling (s.setupWire box wire) := by
  refine deref_failsOnly.bind fun h => ?_
  split <;> exact .ok _ _

theorem hitBoxConnectRef_failsOnly : FailsOnly .dangling s.hitBoxConnectRef := by
  unfold hitBoxConnectRef
  split
  · refine deref_failsOnly.bind fun _ => deref_failsOnly.bind fun _ => ?_
    split
    · exact .ok _ _
    · exact setupWire_failsOnly.bind fun _ => setupWire_failsOnly.bind fun _ => .ok _ _
  · exact .ok _ _

theorem released_failsOnly : FailsOnly .dangling (s.released box) := by
  refine deref_failsOnly.bind fun h => ?_
  split
  · exact .ok _ _
  · split
    · exact .ok _ _
    · exact hitBoxConnectRef_failsOnly

end Scene

namespace Area

variable {a : Area}

theorem click_failsOnly (box : HitBoxPtr) : FailsOnly .dangling (a.click box) := by
  unfold click
  split
  · exact .ok _ _
  · exact Scene.released_failsOnly.bind fun _ => .ok _ _

theorem WellFormed.simulate_failsOnly (ha : a.WellFormed) : FailsOnly .nullPointer a.simulate := by
  by_cases hc : a.SecondsConnected
  · obtain ⟨a', h'⟩ := simulate_total ha hc
    rw [h']
    exact .ok _ _
  · rw [simulate, ha.createSimMap_null hc]
    exact .error _

theorem WellFormed.changeTypeInput_failsOnly (ha : a.WellFormed) (gate : GatePtr) :
    FailsOnly .nullPointer (a.changeTypeInput gate) := by
  unfold changeTypeInput
  split
  · exact .ok _ _
  · show FailsOnly _ (if a.simulatorFlag then _ else _)
    split
    · exact (ha.modify gate Gate.toggle_ptr Gate.toggle_shaped).simulate_failsOnly
    · exact .ok _ _

/-! ## Actions and runs -/

/-- **One action.** -/
theorem step_fault_iff {act : Action} (hact : act.loads = false) (ha : a.Sound) {e : Fault} :
    step act a = .error e ↔ Faults act a e := by
  have hsim := step_simulated act ⟨ha, rfl⟩
  have hnever : ∀ {c}, a.circuit.step (a.edit act) = some c → (step act a = .error e ↔ False) := by
    intro c hc
    refine iff_false_intro fun he => ?_
    rw [hsim.of_error he] at hc
    cases hc
  cases act with
  | draw type => exact draw_fault_iff type
  | click hitbox =>
    refine (hsim.error_iff (click_failsOnly hitbox)).trans (and_congr_right fun _ => ?_)
    exact Circuit.click_eq_none
  | deleteWire wire =>
    cases hw : a.scene.wire wire with
    | none => exact hnever (by rw [edit, hw]; rfl)
    | some w => exact hnever (by rw [edit, hw]; rfl)
  | deleteGate gate => exact hnever rfl
  | changeTypeInput gate =>
    refine (hsim.error_iff (ha.wellFormed.changeTypeInput_failsOnly gate)).trans
      (and_congr_right fun _ => ?_)
    rw [freeSecond_iff, ← hasPart_iff]
    exact Circuit.toggle_eq_none
  | simulate =>
    refine (hsim.error_iff ha.wellFormed.simulate_failsOnly).trans (and_congr_right fun _ => ?_)
    rw [freeSecond_iff]
    exact Circuit.simulate_eq_none
  | clearSimulate => exact hnever rfl
  | load fuel file reader => cases hact

/-- **Where a run fails.**  From any state of the editor, loads included, a run without
loads fails with a fault exactly when it comes to an action that has it. -/
theorem runs_fault_iff {gen : List Id} {acts₀ acts : List Action}
    (h : create gen >>= runs step acts₀ = .ok a) (hacts : ∀ act ∈ acts, act.loads = false)
    (e : Fault) : runs step acts a = .error e ↔
      ∃ pre act post b, acts = pre ++ act :: post ∧ runs step pre a = .ok b ∧ Faults act b e := by
  have hsound : ∀ pre b, runs step pre a = .ok b → b.Sound := by
    intro pre b hb
    have hrun : create gen >>= runs step (acts₀ ++ pre) = .ok b := by
      obtain ⟨c, hc, hca⟩ := bind_eq_ok h
      rw [hc]
      show runs step (acts₀ ++ pre) c = _
      rw [runs_append, hca]
      exact hb
    exact runs_sound hrun
  rw [runs_eq_error]
  constructor
  · rintro ⟨pre, act, post, b, rfl, hb, he⟩
    have hact := hacts act (List.mem_append_right pre (List.mem_cons_self ..))
    exact ⟨pre, act, post, b, rfl, hb, (step_fault_iff hact (hsound pre b hb)).mp he⟩
  · rintro ⟨pre, act, post, b, rfl, hb, he⟩
    have hact := hacts act (List.mem_append_right pre (List.mem_cons_self ..))
    exact ⟨pre, act, post, b, rfl, hb, (step_fault_iff hact (hsound pre b hb)).mpr he⟩

/-- An AND gate without connections is drawn and simulated. -/
theorem runs_fault_freshAnd :
    ∃ a, create [7, 8] >>= runs step [] = .ok a ∧
      runs step [.draw .and, .simulate] a = .error .nullPointer ∧
      ∃ pre act post b, [Action.draw .and, .simulate] = pre ++ act :: post ∧
        runs step pre a = .ok b ∧ Faults act b .nullPointer := by
  obtain ⟨a, h, hrun⟩ : ∃ a, create [7, 8] >>= runs step [] = .ok a ∧
      runs step [.draw .and, .simulate] a = .error .nullPointer := ⟨_, rfl, rfl⟩
  exact ⟨a, h, hrun, (runs_fault_iff h (by decide) _).mp hrun⟩

end Area

end SimGate

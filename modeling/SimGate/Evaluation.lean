import SimGate.Schedule

/-!
# Every run is defined

On any wiring whatsoever a run from a map that is ready returns, so it neither
throws nor fails an assertion nor recurses forever, every gate callback gets
two levels, and every gate it evaluates ends with a level (`sim_defined`).  The
gates it reports are those that an `OUTPUT` reads (`sim_reports`).
-/

namespace SimGate

open StraightLine Demand Execution

def IsLevel (v : CommonValueOutput) : Prop := v = .low ∨ v = .high

theorem isLevel_iff {v : CommonValueOutput} : IsLevel v ↔ v ≠ .unknown := by
  cases v <;> simp [IsLevel]

theorem run_isLevel (map : SimMap) (p : List (Instr Id)) (id : Id) :
    ∀ v ∈ run map.interp p id, IsLevel v := by
  intro v hv
  obtain ⟨a, b, _, rfl⟩ := (mem_run_iff_calls ..).mp hv
  exact isLevel_iff.mpr (levelOf_ne_unknown _)

/-- Whatever an operand of the schedule reads is a level. -/
theorem operand_isLevel {map : SimMap} (hready : map.Ready) {n c : Id} {o : Operand Id}
    (ho : OperandOf map.wiring n c o) {v : CommonValueOutput}
    (hv : o.Sat map.interp (fun _ v => IsLevel v) v) : IsLevel v := by
  cases o with
  | absent => exact Or.inl hv
  | leaf m =>
    obtain ⟨rfl, hl⟩ := ho
    rw [hv]
    exact isLevel_iff.mpr (Ready.leaf hready hl)
  | cut m =>
    rw [hv]
    exact isLevel_iff.mpr (getDefaultValue_ne_unknown _)
  | value m j => exact hv

theorem Refines.mem_calls {map₀ : SimMap} {s : SimState} {t : State Id} (h : Refines map₀ s t)
    {id : Id} {a b : CommonValueOutput} :
    .done id a b ∈ s.trace ↔ (id, a, b) ∈ calls map₀.interp t.prog (fun _ => []) := by
  rw [← h.done, List.mem_filterMap]
  constructor
  · exact fun hm => ⟨_, hm, rfl⟩
  · rintro ⟨e, he, hd⟩
    cases e with
    | call c => simp [Event.done?] at hd
    | done c x y =>
      simp only [Event.done?, Option.some.injEq, Prod.mk.injEq] at hd
      obtain ⟨rfl, rfl, rfl⟩ := hd
      exact he

/-- **Any wiring.**  A run returns, calls gate callbacks with levels only, and
leaves a level in every gate it simulated. -/
theorem sim_defined (map : SimMap) (hready : map.Ready) :
    ∃ s, Returns (fun fuel => SimState.run fuel (.start map)) s ∧
      (∀ id a b, .done id a b ∈ s.trace → IsLevel a ∧ IsLevel b) ∧
      ∀ id, .call id ∈ s.trace → IsLevel (s.map.outOf id) := by
  obtain ⟨s, t, _, _, hd, hr, hret⟩ := run_refines hready
  refine ⟨s, hret, ?_, ?_⟩
  · intro id a b hab
    obtain ⟨i, hi, _, ha, hb⟩ := calls_invariant hd.ok.valid
      (run_isLevel map t.prog) (hr.mem_calls.mp hab)
    obtain ⟨x, y, _, hx, hy⟩ := hd.ok.operands i hi
    exact ⟨operand_isLevel hready hx ha, operand_isLevel hready hy hb⟩
  · intro id hid
    have hu : id ∈ t.used := (hr.called id).mp hid
    have hlen : 0 < (run map.interp t.prog id).length := by
      rw [occ_run]; exact (hd.all id hu).1
    have hne : run map.interp t.prog id ≠ [] := List.length_pos_iff.mp hlen
    rw [hr.outOf_inner hready (hd.ok.inner id hu), List.getLast?_eq_some_getLast hne,
      Option.getD_some]
    exact run_isLevel map t.prog id _ (List.getLast_mem hne)

/-- A gate that reads itself, one with both inputs from the same gate, and one
with an absent and an unconnected input. -/
def tangled : SimMap := .ofGates
  [(.nor, 1, 1, 2), (.xor, 2, 3, 3), (.and, 3, 9, 1), (.not, 4, 0, 0), (.output, 5, 2, 0),
    (.output, 6, 4, 0)]

theorem sim_defined_tangled : tangled.Ready ∧
    ∃ s, Returns (fun fuel => SimState.run fuel (.start tangled)) s ∧
      (∀ id a b, .done id a b ∈ s.trace → IsLevel a ∧ IsLevel b) ∧
      ∀ id, .call id ∈ s.trace → IsLevel (s.map.outOf id) :=
  ⟨by decide, sim_defined tangled (by decide)⟩

/-! ## What is reported -/

/-- **Reported gates.**  After a run `getValue` gives a level for the `OUTPUT`
gates and for the gates that one reads, directly or transitively, and `UNKNOWN`
for every other id. -/
theorem sim_reports (map : SimMap) (hready : map.Ready) :
    ∃ s, Returns (fun fuel => SimState.run fuel (.start map)) s ∧
      ∀ id, (IsLevel (s.sim.getValue id) ↔ map.ReadByOutput id) ∧
        (¬ map.ReadByOutput id → s.sim.getValue id = .unknown) := by
  obtain ⟨s, t, ht, _, _, hr, hret⟩ := run_refines hready
  refine ⟨s, hret, fun id => ?_⟩
  have hnot : ¬ map.ReadByOutput id → s.sim.getValue id = .unknown := hr.unreported ht
  have hlevel : map.ReadByOutput id → IsLevel (s.sim.getValue id) := by
    intro hid
    rcases hr.reported ht hid with ⟨_, hmem⟩ | ⟨hleaf, hval⟩
    · exact run_isLevel map t.prog id _ hmem
    · rw [hval]
      exact isLevel_iff.mpr (Ready.leaf hready hleaf)
  refine ⟨⟨fun h => ?_, hlevel⟩, hnot⟩
  by_contra hid
  exact isLevel_iff.mp h (hnot hid)

/-- A loop that an `OUTPUT` and an `XOR` gate read, and an input state that only
the `XOR` gate reads. -/
def observedLoop : SimMap := .ofGates
  [(.highState, 1, 0, 0), (.lowState, 2, 0, 0), (.nand, 3, 1, 4), (.or, 4, 3, 3),
    (.output, 5, 4, 0), (.xor, 6, 3, 2)]

theorem sim_reports_observedLoop : observedLoop.Ready ∧
    ∃ s, Returns (fun fuel => SimState.run fuel (.start observedLoop)) s ∧
      ∀ id, (IsLevel (s.sim.getValue id) ↔ observedLoop.ReadByOutput id) ∧
        (¬ observedLoop.ReadByOutput id → s.sim.getValue id = .unknown) :=
  ⟨by decide, sim_reports observedLoop (by decide)⟩

end SimGate

import SimGate.Loading

/-!
# What a load does to the gates

* `loadProject_none_iff`: a load that loads nothing has cleared the scheme
  before it asks for the file;
* `reload_gates_iff`: the exact condition under which the gates of a saved
  scheme come back.
-/

namespace SimGate

namespace Area

/-! ## No file -/

theorem clear_gates {a b : Area} (h : a.clear = .ok b) : b.m_gates = ∅ := by
  obtain ⟨s, _, h⟩ := Execution.bind_eq_ok h
  cases h
  rfl

/-- **A cancelled load.**  The scheme stays as it was exactly when it had no gates. -/
theorem loadProject_none_iff (a : Area) (fuel : Nat) (reader : Element) :
    (∃ b, a.loadProject fuel none reader = .ok b ∧ SameScheme a b) ↔ a.m_gates = ∅ := by
  constructor
  · rintro ⟨b, h, hsame⟩
    obtain ⟨c, hc, h⟩ := Execution.bind_eq_ok h
    cases h
    refine KeySet.ext_mem fun g => iff_of_false (fun hg => ?_) (by rintro ⟨⟩)
    obtain ⟨g', hg', _⟩ := (hsame.gates g.id g.type g.x g.y).mp ⟨g, hg, rfl, rfl, rfl, rfl⟩
    rw [clear_gates hc] at hg'
    cases hg'
  · intro hempty
    have hclear : a.clear = .ok a := by
      rw [clear, hempty]
      show Except.ok { a with m_gates := ∅ } = .ok a
      rw [← hempty]
    refine ⟨a, ?_, fun _ _ _ _ => Iff.rfl, fun _ _ _ => Iff.rfl⟩
    rw [loadProject, hclear]
    rfl

/-- A new window, then Load and Cancel: the output that the constructor drew is gone. -/
theorem cancelled_create :
    ∃ a b, create [7] = .ok a ∧ a.loadProject 0 none .endFile = .ok b ∧
      (a.m_gates.elems.map Gate.id = [7] ∧ b.m_gates.elems = []) ∧ ¬ SameScheme a b := by
  refine ⟨_, _, rfl, rfl, ⟨rfl, rfl⟩, fun hsame => ?_⟩
  obtain ⟨g, hg, _⟩ := (hsame.gates 7 .output 0 0).mp ⟨_, List.mem_singleton.mpr rfl, rfl, rfl, rfl,
    rfl⟩
  cases hg

/-! ## A saved file -/

/-- What a file records of a gate, its inputs apart. -/
def placed (g : Gate) : Id × CommonGateType × Qreal × Qreal := (g.id, g.type, g.x, g.y)

/-- The same gates, none lost, added or merged. -/
def SameGates (a b : Area) : Prop := (b.m_gates.elems.map placed).Perm (a.m_gates.elems.map placed)

theorem DistinctIds.nodup_placed {a : Area} (hd : a.DistinctIds) :
    (a.m_gates.elems.map placed).Nodup :=
  a.m_gates.nodup.map_on fun g hg g' hg' h => hd g hg g' hg' (Prod.mk.inj h).1

/-- A copy stands where the gate stood if no coordinate alone is 0. -/
theorem Copy.placed_iff {g h : Gate} (hcopy : Copy g h) :
    placed h = placed g ↔ (g.x = 0 ↔ g.y = 0) := by
  simp only [placed, hcopy.id, hcopy.type, hcopy.x, hcopy.y, Prod.mk.injEq, true_and]
  by_cases hx : g.x = 0 <;> by_cases hy : g.y = 0 <;> simp [hx, hy, eq_comm]

/-- Copies are the same gates exactly when every copy stands where its gate stood. -/
theorem Copies.sameGates_iff {a b : Area} (h : Copies a b) (ha : a.DistinctIds)
    (hb : b.DistinctIds) :
    SameGates a b ↔ ∀ g ∈ a.m_gates.elems, g.x = 0 ↔ g.y = 0 := by
  rw [SameGates, List.perm_ext_iff_of_nodup hb.nodup_placed ha.nodup_placed]
  constructor
  · intro hsame g hg
    obtain ⟨k, hk, hcopy⟩ := h.copied g hg
    obtain ⟨g', hg', hplaced⟩ := List.mem_map.mp ((hsame _).mp (List.mem_map_of_mem hk))
    rw [ha g' hg' g hg ((Prod.mk.inj hplaced).1.trans hcopy.id)] at hplaced
    exact hcopy.placed_iff.mp hplaced.symm
  · intro hcond t
    simp only [List.mem_map]
    constructor
    · rintro ⟨k, hk, rfl⟩
      obtain ⟨g, hg, hcopy⟩ := h.original k hk
      exact ⟨g, hg, (hcopy.placed_iff.mpr (hcond g hg)).symm⟩
    · rintro ⟨g, hg, rfl⟩
      obtain ⟨k, hk, hcopy⟩ := h.copied g hg
      exact ⟨k, hk, hcopy.placed_iff.mpr (hcond g hg)⟩

/-- **The gates of a saved scheme** come back, wherever the file is loaded, exactly
when no gate has one coordinate alone equal to 0 and the load is not one that
follows a pending output that is gone. -/
theorem reload_gates_iff {a a₀ : Area} {file : List Element} (ha : a.WellFormed)
    (hd : a.DistinctIds) (hsave : a.saveProject = .ok file) (ha₀ : a₀.WellFormed)
    (reader : Element) :
    (∃ b, Execution.Returns (fun fuel => a₀.loadProject fuel (some file) reader) b ∧
      SameGates a b) ↔
    (∀ g ∈ a.m_gates.elems, g.x = 0 ↔ g.y = 0) ∧
      (a₀.scene.input = none → a₀.scene.output ≠ none →
        ∀ value, Element.input value ∈ file → value = gNotValidGateId) := by
  rw [← allRecorded_eq_nil ha hsave]
  constructor
  · rintro ⟨b, hret, hsame⟩
    have hdang : Dangles a₀.scene → a.allRecorded = [] := by
      intro hdang
      by_contra hpairs
      exact load_dangles ha hd hsave ha₀ reader hdang hpairs b hret
    obtain ⟨c, hc, hcopies, hshows⟩ := load_returns ha hd hsave ha₀ reader hdang
    rw [hret.unique hc] at hsame
    exact ⟨(hcopies.sameGates_iff hd hshows.distinct).mp hsame, fun hin hout => hdang ⟨hin, hout⟩⟩
  · rintro ⟨hcond, hdang⟩
    obtain ⟨b, hret, hcopies, hshows⟩ :=
      load_returns ha hd hsave ha₀ reader fun h => hdang h.1 h.2
    exact ⟨b, hret, (hcopies.sameGates_iff hd hshows.distinct).mpr hcond⟩

/-- A drag with the mouse; gates are movable. -/
def drag (gate : GatePtr) (x y : Qreal) (a : Area) : Area :=
  let m_gates := a.m_gates.modify gate (fun g => { g with x := x, y := y }) (fun _ => rfl)
  { a with m_gates := m_gates }

theorem WellFormed.drag {a : Area} (ha : a.WellFormed) (gate : GatePtr) (x y : Qreal) :
    (a.drag gate x y).WellFormed :=
  ha.modify (f := fun g => { g with x := x, y := y }) gate (fun _ => rfl)
    fun _ hg => ⟨⟨hg.type, hg.hitboxes, hg.isOutput, hg.id⟩, rfl⟩

theorem DistinctIds.drag {a : Area} (hd : a.DistinctIds) (gate : GatePtr) (x y : Qreal) :
    (a.drag gate x y).DistinctIds :=
  hd.modify (f := fun g => { g with x := x, y := y }) gate (fun _ => rfl) (fun _ => rfl)

theorem reload_gates_dragged :
    ∃ a file, create [7, 8] >>= Execution.runs step fedOutput = .ok a ∧
      (a.drag 0 30 40).saveProject = .ok file ∧
      ∃ b, Execution.Returns (fun fuel => a.loadProject fuel (some file) .endFile) b ∧
        SameGates (a.drag 0 30 40) b := by
  obtain ⟨a, file, hrun, hsave, hpos, hout⟩ : ∃ a file,
      create [7, 8] >>= Execution.runs step fedOutput = .ok a ∧
      (a.drag 0 30 40).saveProject = .ok file ∧
      (∀ g ∈ (a.drag 0 30 40).m_gates.elems, g.x = 0 ↔ g.y = 0) ∧ a.scene.output = none :=
    ⟨_, _, rfl, rfl, by decide, rfl⟩
  obtain ⟨ha, hd⟩ := runs_distinctIds (by decide) hrun
  exact ⟨a, file, hrun, hsave, (reload_gates_iff (ha.wellFormed.drag 0 30 40) (hd.drag 0 30 40)
    hsave ha.wellFormed .endFile).mpr ⟨hpos, fun _ h => absurd hout h⟩⟩

/-- **A moved gate.**  The first output, dragged along one axis and saved, comes back
at the origin. -/
theorem reload_gates_axis :
    ∃ a file b, create [7] = .ok a ∧ (a.drag 0 0 40).saveProject = .ok file ∧
      a.loadProject 8 (some file) .endFile = .ok b ∧
      (a.drag 0 0 40).m_gates.elems.map placed = [(7, .output, 0, 40)] ∧
      b.m_gates.elems.map placed = [(7, .output, 0, 0)] ∧ ¬ SameGates (a.drag 0 0 40) b := by
  refine ⟨_, _, _, rfl, rfl, rfl, rfl, rfl, fun hsame => ?_⟩
  have hperm : [((7, .output, 0, 0) : Id × CommonGateType × Qreal × Qreal)].Perm
      [(7, .output, 0, 40)] := hsame
  simp at hperm

end Area

end SimGate

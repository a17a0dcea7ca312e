import SimGate.Evaluation
import SimGate.Semantics

/-!
# Feedback loops

A run cuts a loop once, with a default, and may evaluate a gate several times.
The schedule says where; the values are judged against an assignment of levels.

* `reportsStored_iff`: reported and stored values agree, and later readers get
  them, exactly when one assignment is reproduced by every scheduled evaluation;
* `sim_stable`: a stable assignment that the cuts respect is what is reported.
-/

namespace SimGate

open StraightLine Demand Execution Relation

/-! ## Scheduled evaluations under an assignment -/

/-- The level a cut is given. -/
def SimMap.seed (map : SimMap) (id : Id) : Bool := isNegated (map.typeOf id)

/-- What an operand reads when gates have the levels `σ` and cuts the levels `seed`. -/
def SimMap.operandLevel (map : SimMap) (seed σ : Id → Bool) : Operand Id → Bool
  | .absent => false
  | .leaf n => map.typeOf n = .highState
  | .cut n => seed n
  | .value n _ => σ n

/-- The result of a scheduled evaluation under `seed` and `σ`. -/
def SimMap.evaluation (map : SimMap) (seed σ : Id → Bool) (i : Instr Id) : Bool :=
  truth (map.typeOf i.node) (map.operandLevel seed σ i.arg1) (map.operandLevel seed σ i.arg2)

theorem getDefaultValue_eq (type : CommonGateType) :
    getDefaultValue type = ofBool (isNegated type) := by
  unfold getDefaultValue ofBool; rfl

theorem outOf_leaf {map : SimMap} (hf : map.Fresh) {id : Id} (h : map.wiring id = some .leaf) :
    map.outOf id = ofBool (map.typeOf id = .highState) := by
  obtain ⟨it, hit, hi⟩ := wiring_leaf h
  have hd := hf it (KeySet.mem_of_find? hit)
  rw [outOf_of_find hit, typeOf_of_find hit, ← hd]
  rcases it.first.isInput_iff.mp hi with ht | ht <;>
    simp [CommonData.defaultValue, ht, ofBool]

/-- Operands whose computed values are the levels `σ` read what `operandLevel` says. -/
theorem read_operandLevel {map : SimMap} (hf : map.Fresh) {σ : Id → Bool} {n c : Id}
    {o : Operand Id} (ho : OperandOf map.wiring n c o) {v : CommonValueOutput}
    (hv : o.Sat map.interp (fun n v => v = ofBool (σ n)) v) :
    v = ofBool (map.operandLevel map.seed σ o) := by
  cases o with
  | absent => exact hv
  | leaf m =>
    obtain ⟨rfl, hl⟩ := ho
    rw [hv]
    exact outOf_leaf hf hl
  | cut m =>
    rw [hv]
    exact getDefaultValue_eq _
  | value m j => exact hv

/-! ## Events and instructions -/

def Evaluated (l : List Event) (id : Id) : Prop := ∃ a b, .done id a b ∈ l

theorem evaluated_iff (map : SimMap) {l : List Event} {p : List (Instr Id)}
    (h : l.filterMap Event.done? = calls map.interp p (fun _ => [])) (id : Id) :
    Evaluated l id ↔ 0 < occ id p := by
  rw [occ_pos_iff_calls map.interp id p (fun _ => []), ← h]
  simp only [List.mem_filterMap]
  constructor
  · rintro ⟨a, b, hm⟩
    exact ⟨a, b, _, hm, rfl⟩
  · rintro ⟨a, b, e, hm, he⟩
    cases e with
    | call c => simp [Event.done?] at he
    | done c x y =>
      simp only [Event.done?, Option.some.injEq, Prod.mk.injEq] at he
      exact ⟨x, y, by rw [← he.1]; exact hm⟩

/-- The return at one place of the trace, and the instruction it carries out. -/
theorem Refines.instr_of_event {map₀ : SimMap} {s : SimState} {t : State Id}
    (h : Refines map₀ s t) {l₁ l₂ : List Event} {n : Id} {a b : CommonValueOutput}
    (hs : s.trace = l₁ ++ .done n a b :: l₂) :
    ∃ p₁ i p₂, t.prog = p₁ ++ i :: p₂ ∧ i.node = n ∧
      a = i.arg1.read map₀.interp (run map₀.interp p₁) ∧
      b = i.arg2.read map₀.interp (run map₀.interp p₁) ∧
      ∀ c, Evaluated l₁ c ↔ 0 < occ c p₁ := by
  have hc := h.done
  rw [hs, List.filterMap_append,
    List.filterMap_cons_some (show Event.done? (.done n a b) = some (n, a, b) from rfl)] at hc
  obtain ⟨p₁, i, p₂, hp, hl, hi⟩ := calls_eq_append_cons hc.symm
  simp only [Prod.mk.injEq] at hi
  exact ⟨p₁, i, p₂, hp, hi.1.symm, hi.2.1, hi.2.2, fun c => evaluated_iff map₀ hl c⟩

theorem Refines.event_of_instr {map₀ : SimMap} {s : SimState} {t : State Id}
    (h : Refines map₀ s t) {p₁ p₂ : List (Instr Id)} {i : Instr Id}
    (ht : t.prog = p₁ ++ i :: p₂) :
    ∃ l₁ l₂, s.trace = l₁ ++ .done i.node (i.arg1.read map₀.interp (run map₀.interp p₁))
        (i.arg2.read map₀.interp (run map₀.interp p₁)) :: l₂ ∧
      ∀ c, Evaluated l₁ c ↔ 0 < occ c p₁ := by
  have hc := h.done
  rw [ht, calls_append, calls] at hc
  obtain ⟨l, l', hl, h₁, h₂⟩ := List.filterMap_eq_append_iff.mp hc
  obtain ⟨m₁, e, m₂, rfl, hnone, he, _⟩ := List.filterMap_eq_cons_iff.mp h₂
  have he' : e = .done i.node (i.arg1.read map₀.interp (run map₀.interp p₁))
      (i.arg2.read map₀.interp (run map₀.interp p₁)) := by
    cases e with
    | call c => simp [Event.done?] at he
    | done c x y =>
      simp only [Event.done?, Option.some.injEq, Prod.mk.injEq] at he
      obtain ⟨rfl, rfl, rfl⟩ := he
      rfl
  refine ⟨l ++ m₁, m₂, by rw [hl, he', List.append_assoc], evaluated_iff map₀ ?_⟩
  rw [List.filterMap_append, h₁, List.filterMap_eq_nil_iff.mpr hnone, List.append_nil]

/-! ## Reported and stored values -/

/-- Every gate with an entry is reported with the value stored for it. -/
def ReportsStored (s : SimState) : Prop :=
  ∀ id r, s.sim.retValues.find? id = some r → s.sim.getValue id = s.map.outOf id

/-- A gate that reads another one after its evaluation gets what is reported. -/
def ReadsReported (map : SimMap) (s : SimState) : Prop :=
  ∀ l₁ l₂ n a b c d, s.trace = l₁ ++ .done n a b :: l₂ → map.wiring n = some (.inner c d) →
    (Evaluated l₁ c → a = s.sim.getValue c) ∧ (Evaluated l₁ d → b = s.sim.getValue d)

/-- One assignment of levels is reproduced by every scheduled evaluation. -/
def SimMap.Coherent (map : SimMap) : Prop :=
  ∃ σ : Id → Bool, ∀ i ∈ map.plan, map.evaluation map.seed σ i = σ i.node

/-- When every value computed is the level `σ` gives its gate. -/
theorem evaluations_eq {map : SimMap} (hf : map.Fresh) {t : State Id} (hk : Ok map.wiring t)
    {σ : Id → Bool} (h : ∀ i ∈ t.prog, map.evaluation map.seed σ i = σ i.node) :
    ∀ n, ∀ v ∈ run map.interp t.prog n, v = ofBool (σ n) := by
  refine run_invariant hk.valid fun i hi a b ha hb => ?_
  obtain ⟨x, y, _, hx, hy⟩ := hk.operands i hi
  rw [read_operandLevel hf hx ha, read_operandLevel hf hy hb, interp_apply, callback_truth,
    ← h i hi]
  rfl

/-- An operand for a gate evaluated before is one of that gate's values. -/
theorem read_mem_run (map : SimMap) {p₁ p₂ : List (Instr Id)} {i : Instr Id}
    (hcut : CutsOpen (p₁ ++ i :: p₂)) {o : Operand Id} (ho : o = i.arg1 ∨ o = i.arg2)
    (hv : o.Valid p₁) {n c : Id} (hof : OperandOf map.wiring n c o) (hc : Inner map.wiring c)
    (he : 0 < occ c p₁) :
    o.read map.interp (run map.interp p₁) ∈ run map.interp (p₁ ++ i :: p₂) c := by
  obtain ⟨x, y, hG⟩ := hc
  cases o with
  | absent => exact absurd hof (by simp [OperandOf, hG])
  | leaf m => exact absurd hof.2 (by simp [hG])
  | cut m =>
    have h0 := hcut p₁ i p₂ rfl m (ho.imp Eq.symm Eq.symm)
    rw [hof.1] at h0
    omega
  | value m j =>
    obtain ⟨rfl, _⟩ := hof
    have hj : j < (run map.interp p₁ m).length := by rw [occ_run]; exact hv
    refine (run_grows map.interp p₁ (i :: p₂) m).subset ?_
    simp [Operand.read, List.getD_eq_getElem?_getD, List.getElem?_eq_getElem hj]

/-- What is reported for a gate that was evaluated is one of its values. -/
theorem Refines.getValue_mem {map₀ : SimMap} {s : SimState} {t : State Id}
    (h : Refines map₀ s t) (hk : Ok map₀.wiring t) {id : Id} (ho : 0 < occ id t.prog) :
    s.sim.getValue id ∈ run map₀.interp t.prog id := by
  have hlen : (run map₀.interp t.prog id).length = occ id t.prog := occ_run ..
  rw [h.getValue_inner (hk.inner id (hk.done id ho))]
  cases hl : run map₀.interp t.prog id with
  | nil => rw [hl] at hlen; simp at hlen; omega
  | cons v l => simp

theorem occ_pos_of_prefix {p₁ p₂ : List (Instr Id)} {c : Id} (h : 0 < occ c p₁) :
    0 < occ c (p₁ ++ p₂) := by
  rw [occ_append]; omega

/-- An assignment that the schedule reproduces is reported, stored and read. -/
theorem reports_of_coherent {map : SimMap} (hf : map.Fresh) {s : SimState} {t : State Id}
    (hr : Refines map s t) (hk : Ok map.wiring t) (hcut : CutsOpen t.prog) {σ : Id → Bool}
    (hσ : ∀ i ∈ t.prog, map.evaluation map.seed σ i = σ i.node) :
    ReportsStored s ∧ ReadsReported map s := by
  have hvals := evaluations_eq hf hk hσ
  constructor
  · intro id r hid
    cases hw : map.wiring id with
    | none => simp [hr.retAbsent id hw] at hid
    | some k =>
      cases k with
      | leaf =>
        obtain ⟨rfl, _⟩ := (hr.retLeaf id hw r).mp hid
        rw [hr.outOf_leaf hk hw, Simulator.getValue, hid]
      | inner a b =>
        have hi : Inner map.wiring id := ⟨a, b, hw⟩
        rw [hr.retInner id hi] at hid
        rw [hr.getValue_inner hi, hr.outOf_inner hf.ready hi]
        cases hl : run map.interp t.prog id with
        | nil => simp [hl] at hid
        | cons v l =>
          have h1 := hvals id v (by simp [hl])
          have h2 := hvals id ((v :: l).getLast (by simp)) (by rw [hl]; exact List.getLast_mem _)
          rw [List.getLast?_eq_some_getLast (by simp), List.head?_cons, Option.getD_some,
            Option.getD_some]
          exact h1.trans h2.symm
  · intro l₁ l₂ n a b c d htr hG
    obtain ⟨p₁, i, p₂, hp, rfl, rfl, rfl, hev⟩ := hr.instr_of_event htr
    obtain ⟨c', d', hG', hx, hy⟩ := hk.operands i (by simp [hp])
    rw [hG] at hG'
    cases hG'
    obtain ⟨hv1, hv2⟩ := hk.valid.operands hp
    -- a gate evaluated before has only the one level its assignment gives
    have key : ∀ e o, o = i.arg1 ∨ o = i.arg2 → o.Valid p₁ → OperandOf map.wiring i.node e o →
        Evaluated l₁ e → o.read map.interp (run map.interp p₁) = s.sim.getValue e := by
      intro e o ho hv hof he
      have hocc : 0 < occ e p₁ := (hev e).mp he
      have hocc' : 0 < occ e t.prog := hp ▸ occ_pos_of_prefix hocc
      have hm := read_mem_run map (hp ▸ hcut) ho hv hof (hk.inner e (hk.done e hocc')) hocc
      have h1 := hvals e (o.read map.interp (run map.interp p₁)) (by rw [hp]; exact hm)
      exact h1.trans (hvals e _ (hr.getValue_mem hk hocc')).symm
    exact ⟨key c i.arg1 (Or.inl rfl) hv1 hx, key d i.arg2 (Or.inr rfl) hv2 hy⟩

theorem eq_ofBool {v : CommonValueOutput} (h : IsLevel v) : v = ofBool (v = .high) := by
  rcases h with rfl | rfl <;> rfl

/-- What a reader of a gate gets after the gate's evaluation. -/
theorem ReadsReported.read {map : SimMap} {s : SimState} (h : ReadsReported map s) {t : State Id}
    (hr : Refines map s t) (hk : Ok map.wiring t) {p₁ p₂ : List (Instr Id)} {i : Instr Id}
    (hp : t.prog = p₁ ++ i :: p₂) {m : Id} {j : Nat}
    (ho : i.arg1 = .value m j ∨ i.arg2 = .value m j) :
    j < occ m p₁ ∧
      (Operand.value m j).read map.interp (run map.interp p₁) = s.sim.getValue m := by
  obtain ⟨c, d, hG, hx, hy⟩ := hk.operands i (by simp [hp])
  obtain ⟨hv1, hv2⟩ := hk.valid.operands hp
  obtain ⟨l₁, l₂, htr, hev⟩ := hr.event_of_instr hp
  obtain ⟨h1, h2⟩ := h l₁ l₂ i.node _ _ c d htr hG
  rcases ho with ho | ho
  · rw [ho] at hx hv1 h1
    obtain ⟨rfl, _⟩ := hx
    have hj : j < occ m p₁ := hv1
    exact ⟨hj, h1 ((hev m).mpr (by omega))⟩
  · rw [ho] at hy hv2 h2
    obtain ⟨rfl, _⟩ := hy
    have hj : j < occ m p₁ := hv2
    exact ⟨hj, h2 ((hev m).mpr (by omega))⟩

/-- Every evaluation of a gate gives the value reported for it: it is the last
one and stored, or a reader gets it. -/
theorem result_reported {map : SimMap} (hready : map.Ready) {s : SimState} {t : State Id}
    (hr : Refines map s t) (hk : Ok map.wiring t)
    (huse : ∀ m j, j < occ m t.prog → j + 1 = occ m t.prog ∨ Consumed t.prog m j)
    (hst : ReportsStored s) (hrd : ReadsReported map s) {p₁ p₂ : List (Instr Id)} {i : Instr Id}
    (hp : t.prog = p₁ ++ i :: p₂) :
    i.result map.interp (run map.interp p₁) = s.sim.getValue i.node := by
  have hget : (run map.interp t.prog i.node)[occ i.node p₁]? =
      some (i.result map.interp (run map.interp p₁)) := by
    rw [hp]; exact run_getElem ..
  have hocc : occ i.node p₁ < occ i.node t.prog := by
    rw [hp, occ_append]
    have : 0 < occ i.node (i :: p₂) := occ_pos.mpr ⟨i, by simp, rfl⟩
    omega
  rcases huse i.node (occ i.node p₁) hocc with hlast | ⟨k, hk', hread⟩
  · have hin : Inner map.wiring i.node := hk.inner _ (hk.done _ (by omega))
    have hg : (run map.interp t.prog i.node).getLast? =
        some (i.result map.interp (run map.interp p₁)) := by
      rw [List.getLast?_eq_getElem?, occ_run, ← hlast, Nat.add_sub_cancel, hget]
    have hfind : ∃ r, s.sim.retValues.find? i.node = some r := by
      rw [hr.retInner _ hin]
      cases hl : run map.interp t.prog i.node with
      | nil => simp [hl] at hg
      | cons v l => exact ⟨_, rfl⟩
    obtain ⟨r, hfind⟩ := hfind
    rw [hst i.node r hfind, hr.outOf_inner hready hin, hg]
    rfl
  · obtain ⟨q₁, q₂, hq⟩ := List.append_of_mem hk'
    obtain ⟨hj, hrep⟩ := hrd.read hr hk hq hread
    have hv : Operand.Valid q₁ (.value ..) := hj
    rw [← hrep, ← Operand.read_append map.interp (k :: q₂) hv,
      ← hq, Operand.read, List.getD_eq_getElem?_getD, hget]
    rfl

/-- Reported values that are stored and read make up a reproduced assignment. -/
theorem coherent_of_reports {map : SimMap} (hf : map.Fresh) {s : SimState} {t : State Id}
    (hr : Refines map s t) (hk : Ok map.wiring t)
    (huse : ∀ m j, j < occ m t.prog → j + 1 = occ m t.prog ∨ Consumed t.prog m j)
    (hst : ReportsStored s) (hrd : ReadsReported map s) :
    ∃ σ : Id → Bool, ∀ i ∈ t.prog, map.evaluation map.seed σ i = σ i.node := by
  have hlevel : ∀ m, 0 < occ m t.prog →
      s.sim.getValue m = ofBool (s.sim.getValue m = .high) := fun m hm =>
    eq_ofBool (run_isLevel map t.prog m _ (hr.getValue_mem hk hm))
  refine ⟨fun m => s.sim.getValue m = .high, fun i hi => ?_⟩
  obtain ⟨p₁, p₂, hp⟩ := List.append_of_mem hi
  obtain ⟨c, d, _, hx, hy⟩ := hk.operands i hi
  -- what the instruction reads is what its operands stand for
  have hread : ∀ e o, o = i.arg1 ∨ o = i.arg2 → OperandOf map.wiring i.node e o →
      o.read map.interp (run map.interp p₁) =
        ofBool (map.operandLevel map.seed (fun m => s.sim.getValue m = .high) o) := by
    intro e o ho hof
    refine read_operandLevel hf hof ?_
    cases o with
    | value m j =>
      obtain ⟨hj, hrep⟩ := hrd.read hr hk hp (ho.imp Eq.symm Eq.symm)
      have hm : 0 < occ m t.prog := hp ▸ occ_pos_of_prefix (by omega)
      exact hrep.trans (hlevel m hm)
    | _ => rfl
  have hres := result_reported hf.ready hr hk huse hst hrd hp
  have hocc : 0 < occ i.node t.prog := occ_pos.mpr ⟨i, hi, rfl⟩
  rw [Instr.result, hread c i.arg1 (Or.inl rfl) hx, hread d i.arg2 (Or.inr rfl) hy,
    interp_apply, callback_truth, hlevel i.node hocc] at hres
  exact ofBool_injective hres

theorem outputs_nodup (map : SimMap) : map.outputs.Nodup :=
  (filter_ids_sorted map _).imp (fun h => ne_of_lt h)

/-- **Reported and stored values.**  After `Sim` on a fresh map every gate is
reported with the value stored for it, and later readers got that value, exactly
when one assignment of levels is reproduced by every scheduled evaluation. -/
theorem reportsStored_iff (map : SimMap) (hf : map.Fresh) :
    ∃ s, Returns (fun fuel => SimState.run fuel (.start map)) s ∧
      ((ReportsStored s ∧ ReadsReported map s) ↔ map.Coherent) := by
  obtain ⟨s, t, ht, hplan, hd, hr, hret⟩ := run_refines hf.ready
  have hcut : CutsOpen t.prog :=
    visitAll_cutsOpen (Done.start _) (by simp [CutsOpen, State.start]) ht
  have huse : ∀ m j, j < occ m t.prog → j + 1 = occ m t.prog ∨ Consumed t.prog m j :=
    fun m j => visitAll_uses (outputs_nodup map) (Done.start _) (by simp [State.start]) ht
  refine ⟨s, hret, ?_⟩
  rw [SimMap.Coherent, hplan]
  constructor
  · exact fun h => coherent_of_reports hf hr hd.ok huse h.1 h.2
  · rintro ⟨σ, hσ⟩
    exact reports_of_coherent hf hr hd.ok hcut hσ

/-- `B` is an `OR` fed twice by `A`, the negation of `B`; a third gate reads both. -/
def sharedLoop : SimMap := .ofGates
  [(.not, 1, 2, 0), (.or, 2, 1, 1), (.and, 3, 1, 2), (.output, 4, 3, 0)]

/-- `B` is evaluated below `A` first and once more after it. -/
theorem sharedLoop_drifts : sharedLoop.Fresh ∧
    ∃ s, Returns (fun fuel => SimState.run fuel (.start sharedLoop)) s ∧
      s.sim.retValues.find? 2 = some (2, .high) ∧ s.sim.getValue 2 = .high ∧
      s.map.outOf 2 = .low :=
  ⟨by decide, SimState.exists_returns (n := 5) (by decide)⟩

/-- Two `NOT` gates that feed each other; a third gate reads both. -/
def crossedNots : SimMap := .ofGates
  [(.not, 1, 2, 0), (.not, 2, 1, 0), (.and, 3, 1, 2), (.output, 4, 3, 0)]

/-- The second gate of each loop is evaluated twice: the two values differ in the first
loop and agree in the second. -/
theorem reportsStored_iff_sharedLoop :
    (sharedLoop.Fresh ∧ ∃ s, Returns (fun fuel => SimState.run fuel (.start sharedLoop)) s ∧
      ((ReportsStored s ∧ ReadsReported sharedLoop s) ↔ sharedLoop.Coherent)) ∧
    crossedNots.Fresh ∧ (crossedNots.plan.filter fun i => i.node = 2).length = 2 ∧
      crossedNots.Coherent ∧
      ∃ s, Returns (fun fuel => SimState.run fuel (.start crossedNots)) s ∧
        ReportsStored s ∧ ReadsReported crossedNots s := by
  refine ⟨⟨by decide, reportsStored_iff sharedLoop (by decide)⟩, by decide, by decide, ?_⟩
  have hcoherent : crossedNots.Coherent := ⟨fun id => id = 1, by decide⟩
  obtain ⟨s, hs, hiff⟩ := reportsStored_iff crossedNots (by decide)
  exact ⟨hcoherent, s, hs, hiff.mpr hcoherent⟩

/-! ## Stable assignments -/

/-- The level of an input reference; an absent gate counts as `LOW`. -/
def SimMap.inputLevel (map : SimMap) (σ : Id → Bool) (id : Id) : Bool :=
  (map.find? id).isSome && σ id

/-- `σ` is a fixed point of the circuit on the gates that `OUTPUT` gates read. -/
def SimMap.Stable (map : SimMap) (σ : Id → Bool) : Prop :=
  ∀ id it, map.ReadByOutput id → map.find? id = some it →
    σ id = truth it.first.type (map.inputLevel σ it.second.1) (map.inputLevel σ it.second.2)

/-- Every evaluation that cuts an input gives the gate its level in `σ`, be a
cut `NOR` seeded with either level. -/
def SimMap.CutsRespect (map : SimMap) (σ : Id → Bool) : Prop :=
  ∀ i ∈ map.plan, (∃ m, i.arg1 = .cut m ∨ i.arg2 = .cut m) → ∀ seed : Id → Bool,
    (∀ id, map.typeOf id ≠ .nor → seed id = map.seed id) → map.evaluation seed σ i = σ i.node

/-- Without a cut an operand reads the level of its input. -/
theorem operandLevel_eq {map : SimMap} {σ : Id → Bool} (hst : map.Stable σ) {n c : Id}
    (hn : map.ReadByOutput n) (hr : map.wiring c ≠ none → Reads map.wiring n c)
    {o : Operand Id} (ho : OperandOf map.wiring n c o) (hcut : ∀ m, o ≠ .cut m)
    (seed : Id → Bool) : map.operandLevel seed σ o = map.inputLevel σ c := by
  have hread : map.wiring c ≠ none → map.ReadByOutput c := by
    obtain ⟨r, hr', hrn⟩ := hn
    exact fun h => ⟨r, hr', hrn.tail (hr h)⟩
  cases o with
  | absent =>
    simp [SimMap.operandLevel, SimMap.inputLevel, wiring_eq_none.mp ho]
  | leaf m =>
    obtain ⟨rfl, hl⟩ := ho
    obtain ⟨it, hit, hi⟩ := wiring_leaf hl
    have hσ := hst m it (hread (by simp [hl])) hit
    rw [SimMap.operandLevel, SimMap.inputLevel, hit, typeOf_of_find hit, hσ]
    rcases it.first.isInput_iff.mp hi with ht | ht <;> simp [ht, truth]
  | cut m => exact absurd rfl (hcut m)
  | value m j =>
    obtain ⟨rfl, a, b, hG⟩ := ho
    obtain ⟨it, hit, _⟩ := wiring_inner hG
    simp [SimMap.operandLevel, SimMap.inputLevel, hit]

/-- **Feedback loops.**  Whatever the loops, a stable assignment that every cut
respects is what `Sim` reports for every gate that an `OUTPUT` reads. -/
theorem sim_stable (map : SimMap) (hf : map.Fresh) (σ : Id → Bool) (hst : map.Stable σ)
    (hcut : map.CutsRespect σ) :
    ∃ s, Returns (fun fuel => SimState.run fuel (.start map)) s ∧
      ∀ id, map.ReadByOutput id → s.sim.getValue id = ofBool (σ id) := by
  obtain ⟨s, t, ht, hplan, hd, hr, hret⟩ := run_refines hf.ready
  refine ⟨s, hret, fun id hid => ?_⟩
  have hσ : ∀ i ∈ t.prog, map.evaluation map.seed σ i = σ i.node := by
    intro i hi
    by_cases hc : ∃ m, i.arg1 = .cut m ∨ i.arg2 = .cut m
    · exact hcut i (hplan ▸ hi) hc map.seed (fun _ _ => rfl)
    · obtain ⟨c, d, hG, hx, hy⟩ := hd.ok.operands i hi
      obtain ⟨it, hit, _, hsec⟩ := wiring_inner hG
      have hu : i.node ∈ t.used := hd.ok.done _ (occ_pos.mpr ⟨i, hi, rfl⟩)
      have hn : map.ReadByOutput i.node := ((visitAll_used ht i.node).mp hu).2
      have h1 := operandLevel_eq hst hn (fun h => ⟨c, d, hG, Or.inl rfl, h⟩) hx
        (fun m hm => hc ⟨m, Or.inl hm⟩) map.seed
      have h2 := operandLevel_eq hst hn (fun h => ⟨c, d, hG, Or.inr rfl, h⟩) hy
        (fun m hm => hc ⟨m, Or.inr hm⟩) map.seed
      rw [SimMap.evaluation, h1, h2, typeOf_of_find hit, hst i.node it hn hit, hsec]
  rcases hr.reported ht hid with ⟨_, hm⟩ | ⟨hl, hv⟩
  · exact evaluations_eq hf hd.ok hσ id _ hm
  · obtain ⟨it, hit, hi⟩ := wiring_leaf hl
    rw [hv, outOf_leaf hf hl, typeOf_of_find hit, hst id it hid hit]
    rcases it.first.isInput_iff.mp hi with h | h <;> simp [h, truth]

/-- A loop through a `NOR` that its other input forces. -/
def forcedNor : SimMap := .ofGates
  [(.highState, 1, 0, 0), (.nor, 2, 3, 1), (.and, 3, 2, 5), (.output, 4, 2, 0),
    (.lowState, 5, 0, 0)]

theorem sim_stable_forcedNor : forcedNor.Fresh ∧ ¬ forcedNor.Acyclic ∧
    ∃ s, Returns (fun fuel => SimState.run fuel (.start forcedNor)) s ∧
      ∀ id, forcedNor.ReadByOutput id → s.sim.getValue id = ofBool (id = 1) := by
  refine ⟨by decide, ?_, sim_stable forcedNor (by decide) (fun id => id = 1) ?_ ?_⟩
  · have h23 : Reads forcedNor.wiring 2 3 := ⟨3, 1, by decide, by decide, by decide⟩
    have h32 : Reads forcedNor.wiring 3 2 := ⟨2, 5, by decide, by decide, by decide⟩
    exact fun h => h 2 (.tail (.single h23) h32)
  · intro id it _ hit
    have h : ∀ it ∈ forcedNor.elems, decide (it.id = 1) = truth it.first.type
        (forcedNor.inputLevel (fun id => id = 1) it.second.1)
        (forcedNor.inputLevel (fun id => id = 1) it.second.2) := by decide
    exact KeySet.key_of_find? hit ▸ h it (KeySet.mem_of_find? hit)
  · intro i hi hc seed _
    have hplan : forcedNor.plan =
        [⟨3, .cut 2, .leaf 5⟩, ⟨2, .value 3 0, .leaf 1⟩, ⟨4, .value 2 0, .absent⟩] := by decide
    rw [hplan] at hi
    simp only [List.mem_cons, List.not_mem_nil, or_false] at hi
    rcases hi with rfl | rfl | rfl
    · show truth .and (seed 2) false = false
      simp [truth]
    · simp at hc
    · simp at hc

/-- An `OR` held high and its negation, which leads back to it. -/
def heldLoop : SimMap := .ofGates
  [(.highState, 1, 0, 0), (.or, 2, 3, 1), (.not, 3, 2, 0), (.output, 4, 2, 0), (.output, 5, 3, 0)]

/-- The only stable assignment has the `NOT` low, but it is evaluated while the
`OR` is still cut to low. -/
theorem heldLoop_misreported : heldLoop.Fresh ∧ ¬ heldLoop.Acyclic ∧
    ∃ σ : Id → Bool, heldLoop.Stable σ ∧
      (∀ τ, heldLoop.Stable τ → ∀ id, heldLoop.ReadByOutput id → τ id = σ id) ∧
      ∃ s, Returns (fun fuel => SimState.run fuel (.start heldLoop)) s ∧
        ∃ id, heldLoop.ReadByOutput id ∧ s.sim.getValue id ≠ ofBool (σ id) := by
  have h23 : Reads heldLoop.wiring 2 3 := ⟨3, 1, by decide, by decide, by decide⟩
  have h32 : Reads heldLoop.wiring 3 2 := ⟨2, 0, by decide, by decide, by decide⟩
  have r4 : heldLoop.ReadByOutput 4 := ⟨4, by decide, .refl⟩
  have r5 : heldLoop.ReadByOutput 5 := ⟨5, by decide, .refl⟩
  have r2 : heldLoop.ReadByOutput 2 :=
    ⟨4, by decide, .single ⟨2, 0, by decide, by decide, by decide⟩⟩
  have r3 : heldLoop.ReadByOutput 3 :=
    ⟨5, by decide, .single ⟨3, 0, by decide, by decide, by decide⟩⟩
  have r1 : heldLoop.ReadByOutput 1 :=
    ⟨5, by decide, .tail (.tail (.single ⟨3, 0, by decide, by decide, by decide⟩) h32)
      ⟨3, 1, by decide, by decide, by decide⟩⟩
  have hid : ∀ id, heldLoop.ReadByOutput id → id = 1 ∨ id = 2 ∨ id = 3 ∨ id = 4 ∨ id = 5 := by
    intro id h
    obtain ⟨it, hit⟩ := ReadByOutput.find h
    have hall : ∀ it ∈ heldLoop.elems,
        it.id = 1 ∨ it.id = 2 ∨ it.id = 3 ∨ it.id = 4 ∨ it.id = 5 := by decide
    exact KeySet.key_of_find? hit ▸ hall it (KeySet.mem_of_find? hit)
  refine ⟨by decide, fun h => h 2 (.tail (.single h23) h32),
    fun id => id ≠ 3 ∧ id ≠ 5, ?_, ?_, ?_⟩
  · intro id it _ hit
    have h : ∀ it ∈ heldLoop.elems, decide (it.id ≠ 3 ∧ it.id ≠ 5) = truth it.first.type
        (heldLoop.inputLevel (fun id => id ≠ 3 ∧ id ≠ 5) it.second.1)
        (heldLoop.inputLevel (fun id => id ≠ 3 ∧ id ≠ 5) it.second.2) := by decide
    exact KeySet.key_of_find? hit ▸ h it (KeySet.mem_of_find? hit)
  · intro τ hτ id h
    have t1 : τ 1 = true := hτ 1 _ r1 rfl
    have t2 : τ 2 = (τ 3 || τ 1) := hτ 2 _ r2 rfl
    have t3 : τ 3 = !τ 2 := hτ 3 _ r3 rfl
    have t4 : τ 4 = τ 2 := hτ 4 _ r4 rfl
    have t5 : τ 5 = τ 3 := hτ 5 _ r5 rfl
    rw [t1, Bool.or_true] at t2
    rw [t2] at t3 t4
    rw [t3] at t5
    rcases hid id h with rfl | rfl | rfl | rfl | rfl <;> simp_all
  · obtain ⟨s, hs, hv⟩ := SimState.exists_returns (n := 5) (s := .start heldLoop)
      (P := fun s => s.sim.getValue 3 = .high) (by decide)
    exact ⟨s, hs, 3, r3, by rw [hv]; decide⟩

end SimGate

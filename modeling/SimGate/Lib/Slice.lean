import SimGate.Lib.Demand

/-!
# Slices of a program and of a traversal

A slice keeps the instructions on a set `U` of nodes; what they read from other
nodes becomes a leaf.

* `run_slice`: if those leaves are given the values read, the slice computes the
  same histories on `U`;
* `visitAll_slice`: when no node outside `U` reads one inside, the slice of a
  traversal depends on the roots in `U` and their order only.
-/

set_option linter.unusedSectionVars false

open Relation

variable {N V : Type*} [DecidableEq N]

namespace StraightLine

/-- An operand naming a node outside `U` becomes a leaf. -/
def Operand.erase (U : N → Prop) [DecidablePred U] : Operand N → Operand N
  | .absent => .absent
  | .leaf n => .leaf n
  | .cut n => if U n then .cut n else .leaf n
  | .value n j => if U n then .value n j else .leaf n

def Instr.erase (U : N → Prop) [DecidablePred U] (i : Instr N) : Instr N :=
  ⟨i.node, i.arg1.erase U, i.arg2.erase U⟩

def slice (U : N → Prop) [DecidablePred U] (p : List (Instr N)) : List (Instr N) :=
  (p.filter (fun i => U i.node)).map (Instr.erase U)

section

variable (U : N → Prop) [DecidablePred U]

theorem slice_append (p q : List (Instr N)) : slice U (p ++ q) = slice U p ++ slice U q := by
  simp [slice]

theorem slice_snoc (p : List (Instr N)) (i : Instr N) :
    slice U (p ++ [i]) = if U i.node then slice U p ++ [i.erase U] else slice U p := by
  by_cases h : U i.node <;> simp [slice, h]

theorem slice_eq_nil {p : List (Instr N)} (h : ∀ i ∈ p, ¬ U i.node) : slice U p = [] := by
  simpa [slice, List.filter_eq_nil_iff] using h

theorem occ_slice {n : N} (hn : U n) (p : List (Instr N)) : occ n (slice U p) = occ n p := by
  simp only [occ, slice, List.countP_map, List.countP_filter]
  apply List.countP_congr
  intro i _
  show (decide (i.node = n) && decide (U i.node)) = true ↔ decide (i.node = n) = true
  have hnode : i.node = n → U i.node := fun e => e ▸ hn
  simpa using hnode

/-- Slicing a slice further. -/
theorem slice_slice (W : N → Prop) [DecidablePred W] (hW : ∀ n, W n → U n)
    (p : List (Instr N)) : slice W (slice U p) = slice W p := by
  have herase : ∀ o : Operand N, (o.erase U).erase W = o.erase W := by
    intro o
    cases o with
    | absent => rfl
    | leaf n => rfl
    | cut n =>
      by_cases hU : U n
      · simp [Operand.erase, hU]
      · have hWn : ¬ W n := fun h => hU (hW n h)
        simp [Operand.erase, hU, hWn]
    | value n j =>
      by_cases hU : U n
      · simp [Operand.erase, hU]
      · have hWn : ¬ W n := fun h => hU (hW n h)
        simp [Operand.erase, hU, hWn]
  have hinstr : Instr.erase W ∘ Instr.erase U = Instr.erase W := by
    funext i
    simp [Instr.erase, herase]
  have hnode : (fun i : Instr N => decide (W i.node)) ∘ Instr.erase U =
      fun i => decide (W i.node) := rfl
  simp only [slice, List.filter_map, List.map_map, hinstr, hnode, List.filter_filter]
  congr 1
  apply List.filter_congr
  intro i _
  by_cases h : W i.node
  · simp [h, hW _ h]
  · simp [h]

/-- An operand of a kept instruction: what it reads outside `U` is `g`. -/
def Operand.Outside (I : Interp N V) (g : N → V) (p : List (Instr N)) : Operand N → Prop
  | .absent => True
  | .leaf n => g n = I.leaf n
  | .cut n => U n
  | .value n _ => U n ∨ ∀ v ∈ run I p n, v = g n

/-- **Slices.**  With leaves that carry what is read outside `U`, the slice
computes the histories of the nodes in `U`. -/
theorem run_slice {I : Interp N V} (g : N → V) {p : List (Instr N)} (hp : Valid p)
    (h : ∀ i ∈ p, U i.node → i.arg1.Outside U I g p ∧ i.arg2.Outside U I g p) :
    ∀ n, U n → run { I with leaf := g } (slice U p) n = run I p n := by
  induction hp with
  | nil => intro n _; rfl
  | @snoc p i _ h1 h2 ih =>
    have mono : ∀ {o : Operand N}, o.Outside U I g (p ++ [i]) → o.Outside U I g p := by
      intro o ho
      cases o with
      | value n j => exact ho.imp_right fun hv v hm => hv v ((run_grows I p [i] n).subset hm)
      | _ => exact ho
    have ih := ih fun j hj hU =>
      (h j (List.mem_append_left _ hj) hU).imp mono mono
    have hread : ∀ o : Operand N, o.Valid p → o.Outside U I g p →
        (o.erase U).read { I with leaf := g } (run { I with leaf := g } (slice U p)) =
          o.read I (run I p) := by
      intro o hv ho
      cases o with
      | absent => rfl
      | leaf n => exact ho
      | cut n =>
        have hn : U n := ho
        simp [Operand.erase, hn, Operand.read]
      | value n j =>
        by_cases hn : U n
        · simp [Operand.erase, hn, Operand.read, ih n hn]
        · have hj : j < (run I p n).length := by rw [occ_run]; exact hv
          have hg := ho.resolve_left hn ((run I p n)[j]) (List.getElem_mem hj)
          simp [Operand.erase, hn, Operand.read, List.getD_eq_getElem?_getD,
            List.getElem?_eq_getElem hj, hg]
    intro n hn
    rw [slice_snoc]
    by_cases hU : U i.node
    · obtain ⟨ho1, ho2⟩ := h i (by simp) hU
      have hres : (i.erase U).result { I with leaf := g } (run { I with leaf := g } (slice U p)) =
          i.result I (run I p) := by
        have e1 := hread i.arg1 h1 (mono ho1)
        have e2 := hread i.arg2 h2 (mono ho2)
        simp only [Instr.result, Instr.erase, e1, e2]
      rw [if_pos hU, run_snoc, run_snoc, hres, record_apply, record_apply]
      by_cases hni : n = i.node
      · subst hni
        simp [Instr.erase, ih i.node hn]
      · simp [Instr.erase, hni, ih n hn]
    · have hne : n ≠ i.node := fun e => hU (e ▸ hn)
      rw [if_neg hU, run_snoc, record_apply, if_neg hne]
      exact ih n hn

end

end StraightLine

namespace Demand

open StraightLine

section

variable (U : N → Prop) [DecidablePred U]

def State.slice (s : State N) : State N := ⟨s.used.filter U, StraightLine.slice U s.prog⟩

theorem slice_mark_of_mem {n : N} (hn : U n) {s t : State N} (h : s.slice U = t.slice U) :
    (s.mark n).slice U = (t.mark n).slice U := by
  simp only [State.slice, State.mk.injEq] at h ⊢
  simp only [mark_used, mark_prog, Finset.filter_insert, if_pos hn]
  exact ⟨by rw [h.1], h.2⟩

variable {U}

/-- A node in `U` is found, or not, by looking at the slice. -/
theorem lookup_slice {G : Graph N} {s t : State N} (h : s.slice U = t.slice U) {n : N}
    (hn : U n) : lookup G s n = lookup G t n := by
  simp only [State.slice, State.mk.injEq] at h
  have ho : occ n s.prog = occ n t.prog := by
    rw [← occ_slice U hn, h.2, occ_slice U hn]
  have hu : n ∈ s.used ↔ n ∈ t.used := by
    have := congrArg (fun u => n ∈ u) h.1
    simpa [hn] using this
  unfold lookup State.last
  simp only [ho, hu]

/-- An input outside `U`, however it was found. -/
theorem erase_outside {G : Graph N} {n c : N} (hc : ¬ U c) {x : Operand N}
    (hx : OperandOf G n c x) : x.erase U = if G c = none then .absent else .leaf c := by
  cases x with
  | absent =>
    have hG : G c = none := hx
    rw [if_pos hG]
    rfl
  | leaf m =>
    obtain ⟨rfl, hl⟩ := hx
    simp [Operand.erase, hl]
  | cut m =>
    obtain ⟨rfl, ⟨a, b, hG⟩, _⟩ := hx
    simp [Operand.erase, hc, hG]
  | value m j =>
    obtain ⟨rfl, a, b, hG⟩ := hx
    simp [Operand.erase, hc, hG]

section

variable {G : Graph N} (hU : ∀ n m, ¬ U n → Reads G n m → ¬ U m)

include hU

theorem not_mem_of_reach {n m : N} (hn : ¬ U n) (h : Reach G n m) : ¬ U m := by
  induction h with
  | refl => exact hn
  | tail _ hr ih => exact hU _ _ ih hr

/-- A visit outside `U` leaves the slice alone. -/
theorem visit_outside {fuel : Nat} {n : N} {s s' : State N} (hk : Ok G s) (hp : Pending G s n)
    (hn : ¬ U n) (hv : visit G fuel n s = some s') : s'.slice U = s.slice U := by
  obtain ⟨hk', he⟩ := visit_spec hk hp hv
  obtain ⟨q, hq, hqn⟩ := he.grows
  have hfresh : ∀ m ∈ s'.used, m ∉ s.used → ¬ U m := fun m hm hms =>
    not_mem_of_reach hU hn (he.fresh m hm hms).2.1
  have hnil : slice U q = [] := by
    refine slice_eq_nil U fun i hi => ?_
    rcases hqn i hi with e | hne
    · rw [e]; exact hn
    · have hocc : 0 < occ i.node s'.prog := by
        rw [hq]
        exact occ_pos.mpr ⟨i, List.mem_append_right _ hi, rfl⟩
      exact hfresh _ (hk'.done _ hocc) hne
  have hused : s'.used.filter U = s.used.filter U := by
    ext m
    simp only [Finset.mem_filter]
    constructor
    · rintro ⟨hm, hmU⟩
      exact ⟨by_contra fun hms => hfresh m hm hms hmU, hmU⟩
    · exact fun h => ⟨he.used h.1, h.2⟩
  simp only [State.slice, State.mk.injEq]
  exact ⟨hused, by rw [hq, slice_append, hnil, List.append_nil]⟩

/-- One input of a node in `U`, looked up and evaluated in two states with the
same slice. -/
theorem demand_slice {fuel fuel' : Nat} {n c : N} {s₀ s₁ s₂ t₀ t₁ t₂ : State N} {x y : Operand N}
    (ih : ∀ s s' t t', Ok G s → Pending G s c → Ok G t → Pending G t c → U c →
      s.slice U = t.slice U → visit G fuel c s = some s' → visit G fuel' c t = some t' →
      s'.slice U = t'.slice U)
    (hs : Ok G s₁ ∧ (lookup G s₀ c = none → Pending G s₁ c))
    (ht : Ok G t₁ ∧ (lookup G t₀ c = none → Pending G t₁ c))
    (h₀ : s₀.slice U = t₀.slice U) (h₁ : s₁.slice U = t₁.slice U)
    (hx : OperandOf G n c x) (hy : OperandOf G n c y)
    (hd : demand (visit G fuel) (lookup G s₀ c) c s₁ = some (x, s₂))
    (hd' : demand (visit G fuel') (lookup G t₀ c) c t₁ = some (y, t₂)) :
    s₂.slice U = t₂.slice U ∧ x.erase U = y.erase U := by
  by_cases hc : U c
  · rw [← lookup_slice h₀ hc] at hd'
    rcases demand_eq_some hd with ⟨hl, rfl⟩ | ⟨hl, hv, rfl⟩
    · rw [hl] at hd'
      simp only [demand, Option.some.injEq, Prod.mk.injEq] at hd'
      obtain ⟨rfl, rfl⟩ := hd'
      exact ⟨h₁, rfl⟩
    · rcases demand_eq_some hd' with ⟨hl', _⟩ | ⟨_, hv', rfl⟩
      · rw [hl] at hl'
        cases hl'
      · have h₂ := ih s₁ s₂ t₁ t₂ hs.1 (hs.2 hl) ht.1
          (ht.2 (lookup_slice h₀ hc ▸ hl)) hc h₁ hv hv'
        have hp := congrArg State.prog h₂
        have ho : occ c s₂.prog = occ c t₂.prog := by
          rw [← occ_slice U hc, show slice U s₂.prog = slice U t₂.prog from hp, occ_slice U hc]
        exact ⟨h₂, by rw [State.last, State.last, ho]⟩
  · have h₂ : s₂.slice U = s₁.slice U := by
      rcases demand_eq_some hd with ⟨_, rfl⟩ | ⟨hl, hv, _⟩
      · rfl
      · exact visit_outside hU hs.1 (hs.2 hl) hc hv
    have h₂' : t₂.slice U = t₁.slice U := by
      rcases demand_eq_some hd' with ⟨_, rfl⟩ | ⟨hl, hv, _⟩
      · rfl
      · exact visit_outside hU ht.1 (ht.2 hl) hc hv
    exact ⟨h₂.trans (h₁.trans h₂'.symm), by rw [erase_outside hc hx, erase_outside hc hy]⟩

/-- **One visit.**  Visiting a node of `U` in two states with the same slice
leaves the same slice. -/
theorem visit_slice {fuel fuel' : Nat} {n : N} {s s' t t' : State N} (hks : Ok G s)
    (hps : Pending G s n) (hkt : Ok G t) (hpt : Pending G t n) (hn : U n)
    (h : s.slice U = t.slice U) (hs : visit G fuel n s = some s')
    (ht : visit G fuel' n t = some t') : s'.slice U = t'.slice U := by
  induction fuel generalizing fuel' n s s' t t' with
  | zero => simp [visit] at hs
  | succ fuel ih =>
    cases fuel' with
    | zero => simp [visit] at ht
    | succ fuel' =>
    have hos := (visit_spec hks hps hs).1.operands
    have hot := (visit_spec hkt hpt ht).1.operands
    obtain ⟨a, b, x, y, s₁, s₂, hG, h1, h2, rfl, hk₀, hk₁, hp₀, he₁, _⟩ := visit_inv hks hps hs
    obtain ⟨a', b', x', y', t₁, t₂, hG', h1', h2', rfl, hk₀', hk₁', hp₀', he₁', _⟩ :=
      visit_inv hkt hpt ht
    rw [hG] at hG'
    cases hG'
    obtain ⟨_, _, hGx, hx, hy⟩ := hos ⟨n, x, y⟩ (by simp)
    obtain ⟨_, _, hGx', hx', hy'⟩ := hot ⟨n, x', y'⟩ (by simp)
    rw [show G n = _ from hG] at hGx hGx'
    cases hGx
    cases hGx'
    have hm := slice_mark_of_mem U hn h
    obtain ⟨h₁, ex⟩ := demand_slice hU (fun s s' t t' => ih)
      ⟨hk₀, fun hl => hp₀.reads (reads_left hG (lookup_eq_none.mp hl).1)⟩
      ⟨hk₀', fun hl => hp₀'.reads (reads_left hG (lookup_eq_none.mp hl).1)⟩ hm hm hx hx' h1 h1'
    obtain ⟨h₂, ey⟩ := demand_slice hU (fun s s' t t' => ih)
      ⟨hk₁, fun hl => he₁.pending (hp₀.reads (reads_right hG (lookup_eq_none.mp hl).1))⟩
      ⟨hk₁', fun hl => he₁'.pending (hp₀'.reads (reads_right hG (lookup_eq_none.mp hl).1))⟩
      hm h₁ hy hy' h2 h2'
    simp only [State.slice, State.mk.injEq] at h₂ ⊢
    simp only [emit_used, emit_prog, slice_snoc, hn, if_true, Instr.erase, ex, ey, h₂.1, h₂.2,
      and_self]

/-- **Roots.**  Roots outside `U` do not matter to the slice. -/
theorem visitAll_slice {fuel fuel' : Nat} {ns : List N} {s s' t t' : State N} (hs : Done G s)
    (ht : Done G t) (h : s.slice U = t.slice U) (hv : visitAll G fuel ns s = some s')
    (hv' : visitAll G fuel' (ns.filter U) t = some t') : s'.slice U = t'.slice U := by
  induction ns generalizing s t with
  | nil =>
    simp only [visitAll, List.filter_nil, Option.some.injEq] at hv hv'
    exact hv ▸ hv' ▸ h
  | cons n ns ih =>
    simp only [visitAll, Option.bind_eq_some_iff] at hv
    obtain ⟨s₁, h1, h2⟩ := hv
    have hd := (hs.visit h1).1
    by_cases hn : U n
    · simp only [List.filter_cons, hn, decide_true, if_true, visitAll,
        Option.bind_eq_some_iff] at hv'
      obtain ⟨t₁, h1', h2'⟩ := hv'
      exact ih hd (ht.visit h1').1
        (visit_slice hU hs.ok (hs.pending n) ht.ok (ht.pending n) hn h h1 h1') h2 h2'
    · simp only [List.filter_cons, hn, decide_false, Bool.false_eq_true, if_false] at hv'
      exact ih hd ht ((visit_outside hU hs.ok (hs.pending n) hn h1).trans h) h2 hv'

end

end

end Demand

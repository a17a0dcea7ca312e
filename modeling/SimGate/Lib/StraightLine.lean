import Mathlib.Data.List.Basic
import Mathlib.Data.List.Forall2
import Mathlib.Data.List.Induction
import Mathlib.Logic.Function.Basic
import Mathlib.Tactic.Common

/-!
# Straight-line programs over named nodes

A program is a list of instructions; each computes a new value of one node from
two operands.  A node may be computed several times, so an operand names the
occurrence it reads (`value n j` is the `j`-th value of `n`), and executing a
program keeps, for every node, the list of the values it took.

* `occ_run`: the history of a node has one value per instruction on it;
* `run_invariant`: a property of the values that every instruction preserves
  holds of every value of a run;
* `run_related`: two interpretations of one program, the second under an
  injective renaming of the nodes, stay related.
-/

namespace StraightLine

/-- Where an instruction takes an argument from. -/
inductive Operand (N : Type*)
  | absent
  | leaf (n : N)
  | cut (n : N)
  | value (n : N) (j : Nat)
  deriving DecidableEq, Repr

structure Instr (N : Type*) where
  node : N
  arg1 : Operand N
  arg2 : Operand N
  deriving DecidableEq, Repr

/-- The values of the operands that are not computed, and the operation. -/
structure Interp (N V : Type*) where
  absent : V
  leaf : N → V
  cut : N → V
  apply : N → V → V → V

variable {N N' V V' : Type*} [DecidableEq N] [DecidableEq N']

/-- How often a program computes `n`. -/
def occ (n : N) (p : List (Instr N)) : Nat := p.countP (fun i => i.node = n)

abbrev History (N V : Type*) := N → List V

def Operand.read (I : Interp N V) (h : History N V) : Operand N → V
  | .absent => I.absent
  | .leaf n => I.leaf n
  | .cut n => I.cut n
  | .value n j => (h n).getD j I.absent

def Instr.result (I : Interp N V) (h : History N V) (i : Instr N) : V :=
  I.apply i.node (i.arg1.read I h) (i.arg2.read I h)

/-- Append `v` to the history of `n`. -/
def record (h : History N V) (n : N) (v : V) : History N V :=
  Function.update h n (h n ++ [v])

def exec (I : Interp N V) : List (Instr N) → History N V → History N V
  | [], h => h
  | i :: p, h => exec I p (record h i.node (i.result I h))

def run (I : Interp N V) (p : List (Instr N)) : History N V := exec I p (fun _ => [])

/-! ## Histories grow -/

@[simp] theorem occ_nil (n : N) : occ n [] = 0 := rfl

theorem occ_append (n : N) (p q : List (Instr N)) : occ n (p ++ q) = occ n p + occ n q :=
  List.countP_append

@[simp] theorem occ_snoc (n : N) (p : List (Instr N)) (i : Instr N) :
    occ n (p ++ [i]) = occ n p + if i.node = n then 1 else 0 := by
  rw [occ_append]
  by_cases h : i.node = n <;> simp [occ, h]

theorem occ_pos {n : N} {p : List (Instr N)} : 0 < occ n p ↔ ∃ i ∈ p, i.node = n := by
  simp [occ, List.countP_pos_iff]

theorem record_apply (h : History N V) (n m : N) (v : V) :
    record h n v m = if m = n then h n ++ [v] else h m := by
  by_cases hm : m = n
  · subst hm; simp [record]
  · simp [record, hm]

theorem exec_append (I : Interp N V) (p q : List (Instr N)) (h : History N V) :
    exec I (p ++ q) h = exec I q (exec I p h) := by
  induction p generalizing h with
  | nil => rfl
  | cons i p ih => simp [exec, ih]

@[simp] theorem run_nil (I : Interp N V) (n : N) : run I [] n = [] := rfl

theorem run_snoc (I : Interp N V) (p : List (Instr N)) (i : Instr N) :
    run I (p ++ [i]) = record (run I p) i.node (i.result I (run I p)) := by
  simp [run, exec_append, exec]

theorem occ_run (I : Interp N V) (p : List (Instr N)) (n : N) :
    (run I p n).length = occ n p := by
  induction p using List.reverseRecOn with
  | nil => rfl
  | append_singleton p i ih =>
    rw [run_snoc, record_apply, occ_snoc]
    by_cases h : n = i.node
    · subst h; simp [ih]
    · simp [h, ih, Ne.symm h]

theorem run_grows (I : Interp N V) (p q : List (Instr N)) (n : N) :
    run I p n <+: run I (p ++ q) n := by
  induction q using List.reverseRecOn with
  | nil => simp
  | append_singleton q i ih =>
    rw [← List.append_assoc, run_snoc, record_apply]
    by_cases h : n = i.node
    · subst h; simpa using ih.trans (List.prefix_append _ _)
    · simpa [h] using ih

/-! ## Calls: the operation and its two arguments, in order -/

def calls (I : Interp N V) : List (Instr N) → History N V → List (N × V × V)
  | [], _ => []
  | i :: p, h =>
    (i.node, i.arg1.read I h, i.arg2.read I h) :: calls I p (record h i.node (i.result I h))

theorem calls_append (I : Interp N V) (p q : List (Instr N)) (h : History N V) :
    calls I (p ++ q) h = calls I p h ++ calls I q (exec I p h) := by
  induction p generalizing h with
  | nil => rfl
  | cons i p ih => simp [calls, exec, ih]

theorem calls_snoc (I : Interp N V) (p : List (Instr N)) (i : Instr N) :
    calls I (p ++ [i]) (fun _ => []) = calls I p (fun _ => []) ++
      [(i.node, i.arg1.read I (run I p), i.arg2.read I (run I p))] :=
  calls_append I p [i] _

/-- A call in the middle of a run is the one of the instruction at that place. -/
theorem calls_eq_append_cons {I : Interp N V} {p : List (Instr N)} {h : History N V}
    {l₁ l₂ : List (N × V × V)} {c : N × V × V} (hc : calls I p h = l₁ ++ c :: l₂) :
    ∃ p₁ i p₂, p = p₁ ++ i :: p₂ ∧ l₁ = calls I p₁ h ∧
      c = (i.node, i.arg1.read I (exec I p₁ h), i.arg2.read I (exec I p₁ h)) := by
  induction l₁ generalizing p h with
  | nil =>
    cases p with
    | nil => simp [calls] at hc
    | cons i p =>
      simp only [calls, List.nil_append, List.cons.injEq] at hc
      exact ⟨[], i, p, rfl, rfl, hc.1.symm⟩
  | cons d l₁ ih =>
    cases p with
    | nil => simp [calls] at hc
    | cons k p =>
      simp only [calls, List.cons_append, List.cons.injEq] at hc
      obtain ⟨p₁, i, p₂, rfl, rfl, hi⟩ := ih hc.2
      exact ⟨k :: p₁, i, p₂, rfl, by rw [calls, hc.1], hi⟩

theorem occ_pos_iff_calls (I : Interp N V) (n : N) (p : List (Instr N)) (h : History N V) :
    0 < occ n p ↔ ∃ a b, (n, a, b) ∈ calls I p h := by
  induction p generalizing h with
  | nil => simp [calls]
  | cons i p ih =>
    rw [show i :: p = [i] ++ p from rfl, occ_append, calls_append]
    by_cases hn : i.node = n
    · have h1 : occ n [i] = 1 := by simp [occ, hn]
      simp only [h1, calls, hn, List.mem_append, List.mem_singleton, Prod.mk.injEq, true_and]
      exact ⟨fun _ => ⟨_, _, Or.inl ⟨rfl, rfl⟩⟩, fun _ => by omega⟩
    · have h0 : occ n [i] = 0 := by simp [occ, hn]
      simp [h0, calls, Ne.symm hn, ih (exec I [i] h)]

/-- The value an instruction computes stands at its place in the history. -/
theorem run_getElem (I : Interp N V) (p₁ : List (Instr N)) (i : Instr N) (p₂ : List (Instr N)) :
    (run I (p₁ ++ i :: p₂) i.node)[occ i.node p₁]? = some (i.result I (run I p₁)) := by
  obtain ⟨l, hl⟩ := run_grows I (p₁ ++ [i]) p₂ i.node
  rw [List.append_assoc, List.singleton_append] at hl
  rw [← hl, run_snoc, record_apply, if_pos rfl, ← occ_run I p₁ i.node]
  simp

/-- The history of a node is made of the results of the calls on it. -/
theorem mem_run_iff_calls (I : Interp N V) (p : List (Instr N)) (n : N) (v : V) :
    v ∈ run I p n ↔ ∃ a b, (n, a, b) ∈ calls I p (fun _ => []) ∧ v = I.apply n a b := by
  induction p using List.reverseRecOn with
  | nil => simp [calls]
  | append_singleton p i ih =>
    rw [run_snoc, record_apply, calls_snoc]
    by_cases hn : n = i.node
    · subst hn
      simp only [if_true, List.mem_append, List.mem_singleton, ih, Instr.result, Prod.mk.injEq,
        true_and]
      constructor
      · rintro (⟨a, b, hc, hv⟩ | hv)
        · exact ⟨a, b, Or.inl hc, hv⟩
        · exact ⟨_, _, Or.inr ⟨rfl, rfl⟩, hv⟩
      · rintro ⟨a, b, hc | ⟨rfl, rfl⟩, hv⟩
        · exact Or.inl ⟨a, b, hc, hv⟩
        · exact Or.inr hv
    · simp [hn, ih]

/-! ## Programs that refer only to computed values -/

/-- The occurrence an operand names is computed in `p`. -/
def Operand.Valid (p : List (Instr N)) : Operand N → Prop
  | .value n j => j < occ n p
  | _ => True

/-- Every instruction refers to occurrences computed before it. -/
inductive Valid : List (Instr N) → Prop
  | nil : Valid []
  | snoc {p : List (Instr N)} {i : Instr N} :
      Valid p → i.arg1.Valid p → i.arg2.Valid p → Valid (p ++ [i])

theorem Valid.operands {p p₁ p₂ : List (Instr N)} {i : Instr N} (hp : Valid p)
    (h : p = p₁ ++ i :: p₂) : i.arg1.Valid p₁ ∧ i.arg2.Valid p₁ := by
  induction hp generalizing p₂ with
  | nil => simp at h
  | @snoc p k _ h1 h2 ih =>
    rcases List.eq_nil_or_concat p₂ with rfl | ⟨q, l, rfl⟩
    · obtain ⟨rfl, hk⟩ := List.append_inj' h rfl
      cases hk
      exact ⟨h1, h2⟩
    · rw [List.concat_eq_append, ← List.cons_append, ← List.append_assoc] at h
      exact ih (List.append_inj' h rfl).1

/-- An operand reads a value satisfying `P`. -/
def Operand.Sat (I : Interp N V) (P : N → V → Prop) : Operand N → V → Prop
  | .absent, v => v = I.absent
  | .leaf n, v => v = I.leaf n
  | .cut n, v => v = I.cut n
  | .value n _, v => P n v

theorem Operand.sat_read {I : Interp N V} {P : N → V → Prop} {p : List (Instr N)}
    (hP : ∀ n, ∀ v ∈ run I p n, P n v) {o : Operand N} (ho : o.Valid p) :
    o.Sat I P (o.read I (run I p)) := by
  cases o with
  | absent => rfl
  | leaf n => rfl
  | cut n => rfl
  | value n j =>
    have hj : j < (run I p n).length := by rw [occ_run]; exact ho
    apply hP n
    simp [Operand.read, List.getD_eq_getElem?_getD, List.getElem?_eq_getElem hj]

/-- A computed value does not change when the program grows. -/
theorem Operand.read_append (I : Interp N V) {p : List (Instr N)} (q : List (Instr N))
    {o : Operand N} (ho : o.Valid p) : o.read I (run I (p ++ q)) = o.read I (run I p) := by
  cases o with
  | absent => rfl
  | leaf n => rfl
  | cut n => rfl
  | value n j =>
    have hj : j < (run I p n).length := by rw [occ_run]; exact ho
    obtain ⟨t, ht⟩ := run_grows I p q n
    simp only [Operand.read, ← ht, List.getD_eq_getElem?_getD, List.getElem?_append_left hj]

/-- **Invariant rule.**  If every instruction yields a value satisfying `P`
when its computed operands do, every value of the run satisfies `P`. -/
theorem run_invariant {I : Interp N V} {P : N → V → Prop} {p : List (Instr N)} (hp : Valid p)
    (h : ∀ i ∈ p, ∀ a b, i.arg1.Sat I P a → i.arg2.Sat I P b → P i.node (I.apply i.node a b)) :
    ∀ n, ∀ v ∈ run I p n, P n v := by
  induction hp with
  | nil => simp
  | @snoc p i _ h1 h2 ih =>
    have ih := ih (fun j hj => h j (List.mem_append_left _ hj))
    intro n v hv
    rw [run_snoc, record_apply] at hv
    by_cases hn : n = i.node
    · simp only [hn, if_true, List.mem_append, List.mem_singleton] at hv
      rcases hv with hv | rfl
      · exact hn ▸ ih _ v hv
      · rw [hn]
        exact h i (by simp) _ _ (Operand.sat_read ih h1) (Operand.sat_read ih h2)
    · simp only [hn, if_false] at hv
      exact ih n v hv

/-- Every call of the run is made by an instruction on operands it reads. -/
theorem calls_invariant {I : Interp N V} {P : N → V → Prop} {p : List (Instr N)} (hp : Valid p)
    (hP : ∀ n, ∀ v ∈ run I p n, P n v) {n : N} {a b : V}
    (hc : (n, a, b) ∈ calls I p (fun _ => [])) :
    ∃ i ∈ p, i.node = n ∧ i.arg1.Sat I P a ∧ i.arg2.Sat I P b := by
  induction hp with
  | nil => simp [calls] at hc
  | @snoc p i _ h1 h2 ih =>
    have hP' : ∀ n, ∀ v ∈ run I p n, P n v :=
      fun n v hv => hP n v ((run_grows I p [i] n).subset hv)
    rw [calls_snoc] at hc
    rcases List.mem_append.mp hc with hc | hc
    · obtain ⟨j, hj, hjn⟩ := ih hP' hc
      exact ⟨j, List.mem_append_left _ hj, hjn⟩
    · simp only [List.mem_singleton, Prod.mk.injEq] at hc
      obtain ⟨rfl, rfl, rfl⟩ := hc
      exact ⟨i, by simp, rfl, Operand.sat_read hP' h1, Operand.sat_read hP' h2⟩

/-! ## Two interpretations of one program -/

def Operand.rename (f : N → N') : Operand N → Operand N'
  | .absent => .absent
  | .leaf n => .leaf (f n)
  | .cut n => .cut (f n)
  | .value n j => .value (f n) j

def Instr.rename (f : N → N') (i : Instr N) : Instr N' :=
  ⟨f i.node, i.arg1.rename f, i.arg2.rename f⟩

/-- Two operand readings related by `R` on computed values. -/
def Operand.Related (I : Interp N V) (I' : Interp N' V') (f : N → N') (R : N → V → V' → Prop) :
    Operand N → V → V' → Prop
  | .absent, v, v' => v = I.absent ∧ v' = I'.absent
  | .leaf n, v, v' => v = I.leaf n ∧ v' = I'.leaf (f n)
  | .cut n, v, v' => v = I.cut n ∧ v' = I'.cut (f n)
  | .value n _, v, v' => R n v v'

theorem Operand.related_read {I : Interp N V} {I' : Interp N' V'} {f : N → N'}
    {R : N → V → V' → Prop} {p : List (Instr N)} {p' : List (Instr N')}
    (hR : ∀ n, List.Forall₂ (R n) (run I p n) (run I' p' (f n)))
    {o : Operand N} (ho : o.Valid p) :
    o.Related I I' f R (o.read I (run I p)) ((o.rename f).read I' (run I' p')) := by
  cases o with
  | absent => exact ⟨rfl, rfl⟩
  | leaf n => exact ⟨rfl, rfl⟩
  | cut n => exact ⟨rfl, rfl⟩
  | value n j =>
    have hj : j < (run I p n).length := by rw [occ_run]; exact ho
    have hj' : j < (run I' p' (f n)).length := by rw [← (hR n).length_eq]; exact hj
    have := (List.forall₂_iff_get.mp (hR n)).2 j hj hj'
    simpa [Operand.Related, Operand.read, Operand.rename, List.getD_eq_getElem?_getD,
      List.getElem?_eq_getElem hj, List.getElem?_eq_getElem hj'] using this

/-- **Relational rule.**  Run one program under two interpretations, the second
with its nodes renamed: if every instruction takes related arguments to related
results, the two histories are related value by value. -/
theorem run_related {I : Interp N V} {J : Interp N' V'} {f : N → N'}
    (hf : Function.Injective f) {R : N → V → V' → Prop} {p : List (Instr N)} (hp : Valid p)
    (h : ∀ i ∈ p, ∀ a a' b b', i.arg1.Related I J f R a a' → i.arg2.Related I J f R b b' →
      R i.node (I.apply i.node a b) (J.apply (f i.node) a' b')) :
    ∀ n, List.Forall₂ (R n) (run I p n) (run J (p.map (Instr.rename f)) (f n)) := by
  induction hp with
  | nil => intro n; exact List.Forall₂.nil
  | @snoc p i _ h1 h2 ih =>
    have ih := ih (fun j hj => h j (List.mem_append_left _ hj))
    intro n
    rw [List.map_append, List.map_singleton, run_snoc, run_snoc, record_apply, record_apply]
    have hn : f n = (i.rename f).node ↔ n = i.node := hf.eq_iff
    by_cases hni : n = i.node
    · have hr := h i (by simp) _ _ _ _ (Operand.related_read ih h1) (Operand.related_read ih h2)
      rw [if_pos hni, if_pos (hn.mpr hni)]
      subst hni
      exact List.rel_append (ih i.node) (List.Forall₂.cons hr List.Forall₂.nil)
    · rw [if_neg hni, if_neg (mt hn.mp hni)]
      exact ih n

end StraightLine

import Mathlib.Data.Finset.Card
import Mathlib.Data.Finset.Image
import Mathlib.Logic.Relation
import SimGate.Lib.StraightLine

/-!
# Demand-driven traversal of a graph with two inputs per node

`visit` is the control skeleton of an evaluator that computes a node by first
looking up both of its inputs, then evaluating those that have no value yet,
and that cuts a cycle by a default when it meets a node it is already
evaluating.  It handles no values: it returns the straight-line program that
the evaluation executes.

* `visit_spec`: what one visit does (`Effect`) and the invariant it keeps (`Ok`);
* `visit_total`: fuel above the number of unused nodes suffices;
* `visitAll_used`: visiting a list of roots uses exactly the nodes they reach;
* `visitAll_rename`: traversal commutes with injective renaming.
-/

set_option linter.unusedSectionVars false

namespace Demand

open StraightLine Relation

/-- A node is a leaf or has two inputs. -/
inductive Kind (N : Type*)
  | leaf
  | inner (a b : N)
  deriving DecidableEq, Repr

/-- The nodes that are present, each with its kind. -/
abbrev Graph (N : Type*) := N → Option (Kind N)

variable {N N' : Type*} [DecidableEq N] [DecidableEq N']

def Inner (G : Graph N) (n : N) : Prop := ∃ a b, G n = some (.inner a b)

/-- `m` is one of the inputs of `n`, and present. -/
def Reads (G : Graph N) (n m : N) : Prop :=
  ∃ a b, G n = some (.inner a b) ∧ (m = a ∨ m = b) ∧ G m ≠ none

def Reach (G : Graph N) : N → N → Prop := ReflTransGen (Reads G)

/-- The nodes entered so far and the program emitted so far. -/
structure State (N : Type*) where
  used : Finset N
  prog : List (Instr N)

def State.start : State N := ⟨∅, []⟩

def State.mark (s : State N) (n : N) : State N := { s with used := insert n s.used }

def State.emit (s : State N) (i : Instr N) : State N := { s with prog := s.prog ++ [i] }

/-- The latest value of `n`. -/
def State.last (s : State N) (n : N) : Operand N := .value n (occ n s.prog - 1)

/-- What an input contributes without evaluating it; `none` asks for a visit. -/
def lookup (G : Graph N) (s : State N) (n : N) : Option (Operand N) :=
  match G n with
  | none => some .absent
  | some .leaf => some (.leaf n)
  | some (.inner _ _) =>
    if occ n s.prog ≠ 0 then some (s.last n)
    else if n ∈ s.used then some (.cut n)
    else none

/-- Use the operand found, or evaluate the node and read its latest value. -/
def demand (rec : N → State N → Option (State N)) (o : Option (Operand N)) (n : N)
    (s : State N) : Option (Operand N × State N) :=
  match o with
  | some x => some (x, s)
  | none => (rec n s).map fun s' => (s'.last n, s')

/-- Both inputs are looked up before either of them is evaluated. -/
def visit (G : Graph N) : Nat → N → State N → Option (State N)
  | 0, _, _ => none
  | fuel + 1, n, s =>
    match G n with
    | some (.inner a b) =>
      match demand (visit G fuel) (lookup G (s.mark n) a) a (s.mark n) with
      | none => none
      | some (x, s₁) =>
        match demand (visit G fuel) (lookup G (s.mark n) b) b s₁ with
        | none => none
        | some (y, s₂) => some (s₂.emit ⟨n, x, y⟩)
    | _ => none

def visitAll (G : Graph N) (fuel : Nat) : List N → State N → Option (State N)
  | [], s => some s
  | n :: ns, s => (visit G fuel n s).bind (visitAll G fuel ns)

/-! ## Reading the definitions -/

@[simp] theorem mark_prog (s : State N) (n : N) : (s.mark n).prog = s.prog := rfl
@[simp] theorem mark_used (s : State N) (n : N) : (s.mark n).used = insert n s.used := rfl
@[simp] theorem emit_prog (s : State N) (i : Instr N) : (s.emit i).prog = s.prog ++ [i] := rfl
@[simp] theorem emit_used (s : State N) (i : Instr N) : (s.emit i).used = s.used := rfl

theorem lookup_eq_none {G : Graph N} {s : State N} {n : N} :
    lookup G s n = none ↔ Inner G n ∧ occ n s.prog = 0 ∧ n ∉ s.used := by
  unfold lookup Inner
  split
  · simp_all
  · simp_all
  · split
    · simp_all
    · split <;> simp_all

theorem demand_eq_some {rec : N → State N → Option (State N)} {o : Option (Operand N)} {n : N}
    {s s' : State N} {x : Operand N} (h : demand rec o n s = some (x, s')) :
    (o = some x ∧ s' = s) ∨ (o = none ∧ rec n s = some s' ∧ x = s'.last n) := by
  cases o with
  | some y =>
    simp only [demand, Option.some.injEq, Prod.mk.injEq] at h
    exact Or.inl ⟨by rw [h.1], h.2.symm⟩
  | none =>
    simp only [demand, Option.map_eq_some_iff, Prod.mk.injEq] at h
    obtain ⟨t, ht, hx, rfl⟩ := h
    exact Or.inr ⟨rfl, ht, hx.symm⟩

theorem visit_eq_some {G : Graph N} {fuel : Nat} {n : N} {s s' : State N}
    (h : visit G (fuel + 1) n s = some s') :
    ∃ a b x y s₁ s₂, G n = some (.inner a b) ∧
      demand (visit G fuel) (lookup G (s.mark n) a) a (s.mark n) = some (x, s₁) ∧
      demand (visit G fuel) (lookup G (s.mark n) b) b s₁ = some (y, s₂) ∧
      s' = s₂.emit ⟨n, x, y⟩ := by
  simp only [visit] at h
  split at h
  · next a b hG =>
    split at h
    · simp at h
    · next x s₁ h1 =>
      split at h
      · simp at h
      · next y s₂ h2 =>
        exact ⟨a, b, x, y, s₁, s₂, hG, h1, h2, by simpa using h.symm⟩
  · simp at h

/-! ## The invariant and the effect of a visit -/

/-- How the operand of node `n` for its input `c` may look: a cut input is one
that leads back to `n`. -/
def OperandOf (G : Graph N) (n c : N) : Operand N → Prop
  | .absent => G c = none
  | .leaf m => m = c ∧ G c = some .leaf
  | .cut m => m = c ∧ Inner G c ∧ Reach G c n
  | .value m _ => m = c ∧ Inner G c

structure Ok (G : Graph N) (s : State N) : Prop where
  inner : ∀ n ∈ s.used, Inner G n
  done : ∀ n, 0 < occ n s.prog → n ∈ s.used
  valid : Valid s.prog
  operands : ∀ i ∈ s.prog, ∃ a b, G i.node = some (.inner a b) ∧
    OperandOf G i.node a i.arg1 ∧ OperandOf G i.node b i.arg2

/-- Every inner input of `n` is used. -/
def Closed (G : Graph N) (used : Finset N) (n : N) : Prop :=
  ∀ m, Reads G n m → Inner G m → m ∈ used

/-- The nodes being evaluated lead to `n`. -/
def Pending (G : Graph N) (s : State N) (n : N) : Prop :=
  ∀ m ∈ s.used, occ m s.prog = 0 → Reach G m n

/-- What happened between two states while evaluating below `n`: nodes newly
entered are reached from `n`, finished and closed, and only new nodes computed. -/
structure Extends (G : Graph N) (n : N) (s s' : State N) : Prop where
  used : s.used ⊆ s'.used
  grows : ∃ q, s'.prog = s.prog ++ q ∧ ∀ i ∈ q, i.node ∉ s.used
  fresh : ∀ m ∈ s'.used, m ∉ s.used →
    0 < occ m s'.prog ∧ Reach G n m ∧ Closed G s'.used m

/-- What one visit of `n` does. -/
structure Effect (G : Graph N) (n : N) (s s' : State N) : Prop where
  used : s.used ⊆ s'.used
  grows : ∃ q, s'.prog = s.prog ++ q ∧ ∀ i ∈ q, i.node = n ∨ i.node ∉ s.used
  self : n ∈ s'.used ∧ 0 < occ n s'.prog ∧ Closed G s'.used n
  fresh : ∀ m ∈ s'.used, m ∉ s.used →
    0 < occ m s'.prog ∧ Reach G n m ∧ Closed G s'.used m

theorem Pending.reads {G : Graph N} {s : State N} {n c : N} (hp : Pending G s n)
    (h : Reads G n c) : Pending G s c := fun m hm h0 => (hp m hm h0).tail h

theorem Closed.mono {G : Graph N} {u v : Finset N} {n : N} (h : Closed G u n) (huv : u ⊆ v) :
    Closed G v n := fun m hm hi => huv (h m hm hi)

theorem Extends.refl (G : Graph N) (n : N) (s : State N) : Extends G n s s :=
  ⟨fun _ h => h, ⟨[], by simp, by simp⟩, fun _ h h' => absurd h h'⟩

theorem occ_mono_of_append {p p' q : List (Instr N)} (h : p' = p ++ q) (n : N) :
    occ n p ≤ occ n p' := by
  rw [h, occ_append]; omega

/-- A visit made below `n`, from a state that extends `s` and on a node unused
in `s`, extends `s` as well. -/
theorem Extends.visit {G : Graph N} {n c : N} {s s₁ s₂ : State N} (h : Extends G n s s₁)
    (hv : Effect G c s₁ s₂) (hc : c ∉ s.used) (hr : Reads G n c) : Extends G n s s₂ := by
  obtain ⟨q, hq, hqn⟩ := h.grows
  obtain ⟨r, hr', hrn⟩ := hv.grows
  refine ⟨h.used.trans hv.used, ⟨q ++ r, by rw [hr', hq, List.append_assoc], ?_⟩, ?_⟩
  · intro i hi
    rcases List.mem_append.mp hi with hi | hi
    · exact hqn i hi
    · rcases hrn i hi with e | hne
      · rw [e]; exact hc
      · exact fun hu => hne (h.used hu)
  · intro m hm hms
    by_cases hm1 : m ∈ s₁.used
    · obtain ⟨ho, hre, hcl⟩ := h.fresh m hm1 hms
      exact ⟨ho.trans_le (occ_mono_of_append hr' m), hre, hcl.mono hv.used⟩
    · obtain ⟨ho, hre, hcl⟩ := hv.fresh m hm hm1
      exact ⟨ho, ReflTransGen.head hr hre, hcl⟩

/-- The nodes still pending after an extension were pending before. -/
theorem Extends.pending {G : Graph N} {n c : N} {s s₁ : State N} (h : Extends G n s s₁)
    (hp : Pending G s c) : Pending G s₁ c := by
  intro m hm h0
  by_cases hms : m ∈ s.used
  · obtain ⟨q, hq, _⟩ := h.grows
    have := occ_mono_of_append hq m
    exact hp m hms (by omega)
  · exact absurd (h.fresh m hm hms).1 (by omega)

theorem Operand.Valid.mono {o : Operand N} {p p' : List (Instr N)} (h : o.Valid p)
    (hle : ∀ n, occ n p ≤ occ n p') : o.Valid p' := by
  cases o with
  | value n j => exact Nat.lt_of_lt_of_le h (hle n)
  | _ => trivial

/-- Facts about an operand found by a lookup in the marked state. -/
theorem lookup_operand {G : Graph N} {n c : N} {s : State N} {x : Operand N}
    (h : lookup G s c = some x) (hp : Pending G s n) :
    OperandOf G n c x ∧ x.Valid s.prog ∧ ((∃ m, x = .cut m) → c ∈ s.used ∧ occ c s.prog = 0) ∧
      (Inner G c → c ∈ s.used ∨ 0 < occ c s.prog) := by
  unfold lookup at h
  split at h
  · next hG => cases h; exact ⟨hG, trivial, by simp, by simp [Inner, hG]⟩
  · next hG => cases h; exact ⟨⟨rfl, hG⟩, trivial, by simp, by simp [Inner, hG]⟩
  · next a b hG =>
    split at h
    · next ho =>
      cases h
      refine ⟨⟨rfl, a, b, hG⟩, ?_, by simp [State.last], fun _ => Or.inr (by omega)⟩
      show occ c s.prog - 1 < occ c s.prog
      omega
    · next ho =>
      split at h
      · next hu =>
        cases h
        have h0 : occ c s.prog = 0 := by omega
        exact ⟨⟨rfl, ⟨a, b, hG⟩, hp c hu h0⟩, trivial, fun _ => ⟨hu, h0⟩, fun _ => Or.inl hu⟩
      · simp at h

/-- One input of `n`: from the state at the lookup, through what the first
input did, to the state with the operand at hand. -/
theorem demand_spec {G : Graph N} {n c : N} {s s₁ s₂ : State N} {x : Operand N}
    {rec : N → State N → Option (State N)}
    (ih : ∀ t t', Ok G t → Pending G t c → rec c t = some t' → Ok G t' ∧ Effect G c t t')
    (hp : Pending G s n) (hk : Ok G s) (hk₁ : Ok G s₁) (he : Extends G n s s₁)
    (hr : Inner G c → Reads G n c)
    (hd : demand rec (lookup G s c) c s₁ = some (x, s₂)) :
    Ok G s₂ ∧ Extends G n s s₂ ∧ OperandOf G n c x ∧ x.Valid s₂.prog ∧
      (Inner G c → c ∈ s₂.used) ∧ (∃ q, s₂.prog = s₁.prog ++ q) := by
  rcases demand_eq_some hd with ⟨hx, rfl⟩ | ⟨hn, hv, rfl⟩
  · obtain ⟨hof, hval, _, hin⟩ := lookup_operand hx hp
    obtain ⟨q, hq, _⟩ := he.grows
    refine ⟨hk₁, he, hof, Operand.Valid.mono hval (occ_mono_of_append hq), ?_, [], by simp⟩
    intro hc
    rcases hin hc with hu | ho
    · exact he.used hu
    · exact he.used (hk.done c ho)
  · obtain ⟨hc, _, hcu⟩ := lookup_eq_none.mp hn
    have hrc := hr hc
    have hpc : Pending G s₁ c :=
      he.pending (hp.reads hrc)
    obtain ⟨hk₂, hv₂⟩ := ih s₁ s₂ hk₁ hpc hv
    obtain ⟨q, hq, _⟩ := hv₂.grows
    have ho := hv₂.self.2.1
    refine ⟨hk₂, he.visit hv₂ hcu hrc, ⟨rfl, hc⟩, ?_, fun _ => hv₂.self.1, q, hq⟩
    show occ c s₂.prog - 1 < occ c s₂.prog
    omega

theorem mark_ok {G : Graph N} {s : State N} {n : N} (hk : Ok G s) (hn : Inner G n) :
    Ok G (s.mark n) := by
  refine ⟨?_, fun m hm => Finset.mem_insert_of_mem (hk.done m hm), hk.valid, hk.operands⟩
  intro m hm
  rcases Finset.mem_insert.mp hm with rfl | hm
  · exact hn
  · exact hk.inner m hm

theorem mark_pending {G : Graph N} {s : State N} {n : N} (hp : Pending G s n) :
    Pending G (s.mark n) n := by
  intro m hm h0
  rcases Finset.mem_insert.mp hm with rfl | hm
  · exact ReflTransGen.refl
  · exact hp m hm h0

theorem reads_left {G : Graph N} {n a b : N} (h : G n = some (.inner a b)) (ha : Inner G a) :
    Reads G n a := by
  obtain ⟨c, d, hc⟩ := ha
  exact ⟨a, b, h, Or.inl rfl, by simp [hc]⟩

theorem reads_right {G : Graph N} {n a b : N} (h : G n = some (.inner a b)) (hb : Inner G b) :
    Reads G n b := by
  obtain ⟨c, d, hc⟩ := hb
  exact ⟨a, b, h, Or.inr rfl, by simp [hc]⟩

/-- **One visit.**  The invariant is kept and the effect is as described. -/
theorem visit_spec {G : Graph N} {fuel : Nat} {n : N} {s s' : State N} (hk : Ok G s)
    (hp : Pending G s n) (h : visit G fuel n s = some s') : Ok G s' ∧ Effect G n s s' := by
  induction fuel generalizing n s s' with
  | zero => simp [visit] at h
  | succ fuel ih =>
    obtain ⟨a, b, x, y, s₁, s₂, hG, h1, h2, rfl⟩ := visit_eq_some h
    have hk₀ := mark_ok hk ⟨a, b, hG⟩
    have hp₀ := mark_pending hp
    obtain ⟨hk₁, he₁, hx, hxv, hau, _⟩ := demand_spec (fun t t' => ih (n := a))
      hp₀ hk₀ hk₀ (Extends.refl G n _) (reads_left hG) h1
    obtain ⟨hk₂, he₂, hy, hyv, hbu, q₂, hq₂⟩ := demand_spec (fun t t' => ih (n := b))
      hp₀ hk₀ hk₁ he₁ (reads_right hG) h2
    obtain ⟨q, hq, hqn⟩ := he₂.grows
    have hnu : n ∈ s₂.used := he₂.used (Finset.mem_insert_self _ _)
    have hau₂ : Inner G a → a ∈ s₂.used := by
      intro ha
      rcases demand_eq_some h2 with ⟨_, rfl⟩ | ⟨hn, hv, rfl⟩
      · exact hau ha
      · have hpb : Pending G s₁ b :=
          he₁.pending (hp₀.reads (reads_right hG (lookup_eq_none.mp hn).1))
        exact (ih hk₁ hpb hv).2.used (hau ha)
    have hcl : Closed G s₂.used n := by
      rintro m ⟨a', b', hG', hm, _⟩ hin
      rw [hG] at hG'
      cases hG'
      rcases hm with rfl | rfl
      · exact hau₂ hin
      · exact hbu hin
    have hocc : ∀ m, occ m s₂.prog ≤ occ m (s₂.emit ⟨n, x, y⟩).prog :=
      occ_mono_of_append rfl
    refine ⟨⟨hk₂.inner, ?_, ?_, ?_⟩, ⟨?_, ⟨q ++ [⟨n, x, y⟩], ?_, ?_⟩, ⟨hnu, ?_, hcl⟩, ?_⟩⟩
    · intro m hm
      rw [emit_prog, occ_snoc] at hm
      by_cases hmn : n = m
      · exact hmn ▸ hnu
      · exact hk₂.done m (by simpa [hmn] using hm)
    · exact Valid.snoc hk₂.valid (Operand.Valid.mono hxv (occ_mono_of_append hq₂)) hyv
    · intro i hi
      rcases List.mem_append.mp hi with hi | hi
      · exact hk₂.operands i hi
      · rw [List.mem_singleton.mp hi]
        exact ⟨a, b, hG, hx, hy⟩
    · exact fun m hm => he₂.used (Finset.mem_insert_of_mem hm)
    · rw [emit_prog, hq, List.append_assoc]; rfl
    · intro i hi
      rcases List.mem_append.mp hi with hi | hi
      · exact Or.inr (fun hu => hqn i hi (Finset.mem_insert_of_mem hu))
      · rw [List.mem_singleton.mp hi]
        exact Or.inl rfl
    · simp
    · intro m hm hms
      by_cases hmn : m = n
      · subst hmn
        exact ⟨by simp, ReflTransGen.refl, hcl⟩
      · obtain ⟨ho, hre, hc⟩ := he₂.fresh m hm (by simp [hmn, hms])
        exact ⟨ho.trans_le (hocc m), hre, hc⟩

/-- A successful visit, with what holds before each of its two demands. -/
theorem visit_inv {G : Graph N} {fuel : Nat} {n : N} {s s' : State N} (hk : Ok G s)
    (hp : Pending G s n) (h : visit G (fuel + 1) n s = some s') :
    ∃ a b x y s₁ s₂, G n = some (.inner a b) ∧
      demand (visit G fuel) (lookup G (s.mark n) a) a (s.mark n) = some (x, s₁) ∧
      demand (visit G fuel) (lookup G (s.mark n) b) b s₁ = some (y, s₂) ∧
      s' = s₂.emit ⟨n, x, y⟩ ∧ Ok G (s.mark n) ∧ Ok G s₁ ∧ Pending G (s.mark n) n ∧
      Extends G n (s.mark n) s₁ ∧ Extends G n (s.mark n) s₂ ∧ x.Valid s₁.prog ∧
      y.Valid s₂.prog ∧ ∃ q, s₂.prog = s₁.prog ++ q := by
  obtain ⟨a, b, x, y, s₁, s₂, hG, h1, h2, hs'⟩ := visit_eq_some h
  have hk₀ := mark_ok hk ⟨a, b, hG⟩
  have hp₀ := mark_pending hp
  obtain ⟨hk₁, he₁, _, hxv, _⟩ := demand_spec (fun t t' hk hp hv => visit_spec hk hp hv)
    hp₀ hk₀ hk₀ (Extends.refl G n _) (reads_left hG) h1
  obtain ⟨_, he₂, _, hyv, _, hq⟩ := demand_spec (fun t t' hk hp hv => visit_spec hk hp hv)
    hp₀ hk₀ hk₁ he₁ (reads_right hG) h2
  exact ⟨a, b, x, y, s₁, s₂, hG, h1, h2, hs', hk₀, hk₁, hp₀, he₁, he₂, hxv, hyv, hq⟩

/-! ## Enough fuel -/

/-- **Termination.**  More fuel than unused nodes suffices for an unused node;
for a used one whose inputs are used, any fuel does: it makes no further visit. -/
theorem visit_total {G : Graph N} {nodes : Finset N} (hnodes : ∀ n, Inner G n → n ∈ nodes)
    {fuel : Nat} {n : N} {s : State N} (hk : Ok G s) (hp : Pending G s n) (hn : Inner G n)
    (hf : (nodes \ s.used).card < fuel) (hc : n ∉ s.used ∨ Closed G s.used n) :
    ∃ s', visit G fuel n s = some s' := by
  induction fuel generalizing n s with
  | zero => omega
  | succ fuel ih =>
    obtain ⟨a, b, hG⟩ := hn
    have hk₀ := mark_ok hk ⟨a, b, hG⟩
    have hp₀ := mark_pending hp
    -- an unused input is met only when `n` itself is new, and then the fuel drops
    have hless : ∀ c, Reads G n c → lookup G (s.mark n) c = none →
        (nodes \ (s.mark n).used).card < fuel := by
      intro c hr hl
      obtain ⟨hci, _, hcu⟩ := lookup_eq_none.mp hl
      have hcs : c ∉ s.used := fun h => hcu (Finset.mem_insert_of_mem h)
      have hnu : n ∉ s.used := hc.resolve_right (fun h => hcs (h c hr hci))
      have hss : nodes \ (s.mark n).used ⊂ nodes \ s.used := by
        refine ⟨Finset.sdiff_subset_sdiff (Finset.Subset.refl _) (Finset.subset_insert _ _), ?_⟩
        intro h
        have := h (Finset.mem_sdiff.mpr ⟨hnodes n ⟨a, b, hG⟩, hnu⟩)
        simp at this
      have := Finset.card_lt_card hss
      omega
    have h1 : ∃ x s₁, demand (visit G fuel) (lookup G (s.mark n) a) a (s.mark n) =
        some (x, s₁) := by
      cases hl : lookup G (s.mark n) a with
      | some x => exact ⟨x, _, rfl⟩
      | none =>
        obtain ⟨hai, _, hau⟩ := lookup_eq_none.mp hl
        have hra := reads_left hG hai
        obtain ⟨s₁, hs₁⟩ := ih hk₀ (hp₀.reads hra) hai
          (hless a hra hl) (Or.inl hau)
        exact ⟨_, s₁, by simp [demand, hs₁]; rfl⟩
    obtain ⟨x, s₁, h1⟩ := h1
    obtain ⟨hk₁, he₁, _⟩ := demand_spec (fun t t' hk hp hv => visit_spec hk hp hv)
      hp₀ hk₀ hk₀ (Extends.refl G n _) (reads_left hG) h1
    have h2 : ∃ y s₂, demand (visit G fuel) (lookup G (s.mark n) b) b s₁ = some (y, s₂) := by
      cases hl : lookup G (s.mark n) b with
      | some y => exact ⟨y, _, rfl⟩
      | none =>
        obtain ⟨hbi, _, hbu⟩ := lookup_eq_none.mp hl
        have hrb := reads_right hG hbi
        have hle : (nodes \ s₁.used).card ≤ (nodes \ (s.mark n).used).card :=
          Finset.card_le_card (Finset.sdiff_subset_sdiff (Finset.Subset.refl _) he₁.used)
        have hpb : Pending G s₁ b := he₁.pending (hp₀.reads hrb)
        -- the visit of the first input may have finished this one: then it is closed
        have hcb : b ∉ s₁.used ∨ Closed G s₁.used b := by
          by_cases hb : b ∈ s₁.used
          · exact Or.inr (he₁.fresh b hb hbu).2.2
          · exact Or.inl hb
        obtain ⟨s₂, hs₂⟩ := ih hk₁ hpb hbi (by have := hless b hrb hl; omega) hcb
        exact ⟨_, s₂, by simp [demand, hs₂]; rfl⟩
    obtain ⟨y, s₂, h2⟩ := h2
    exact ⟨s₂.emit ⟨n, x, y⟩, by simp only [visit, hG, h1, h2]⟩

/-! ## A list of roots -/

/-- Between the roots nothing is pending. -/
structure Done (G : Graph N) (s : State N) : Prop where
  ok : Ok G s
  all : ∀ m ∈ s.used, 0 < occ m s.prog ∧ Closed G s.used m

theorem Done.start (G : Graph N) : Done G (State.start : State N) :=
  ⟨⟨by simp [State.start], by simp [State.start], Valid.nil, by simp [State.start]⟩,
    by simp [State.start]⟩

theorem Done.pending {G : Graph N} {s : State N} (h : Done G s) (n : N) : Pending G s n :=
  fun m hm h0 => absurd (h.all m hm).1 (by omega)

theorem Done.visit {G : Graph N} {fuel : Nat} {n : N} {s s' : State N} (h : Done G s)
    (hv : visit G fuel n s = some s') : Done G s' ∧ Effect G n s s' := by
  obtain ⟨hk, he⟩ := visit_spec h.ok (h.pending n) hv
  refine ⟨⟨hk, ?_⟩, he⟩
  intro m hm
  by_cases hms : m ∈ s.used
  · obtain ⟨q, hq, _⟩ := he.grows
    obtain ⟨ho, hc⟩ := h.all m hms
    exact ⟨ho.trans_le (occ_mono_of_append hq m), hc.mono he.used⟩
  · exact ⟨(he.fresh m hm hms).1, (he.fresh m hm hms).2.2⟩

theorem visitAll_total {G : Graph N} {nodes : Finset N} (hnodes : ∀ n, Inner G n → n ∈ nodes)
    {fuel : Nat} (hf : nodes.card < fuel) {ns : List N} (hns : ∀ n ∈ ns, Inner G n)
    {s : State N} (h : Done G s) : ∃ s', visitAll G fuel ns s = some s' := by
  induction ns generalizing s with
  | nil => exact ⟨s, rfl⟩
  | cons n ns ih =>
    have hle : (nodes \ s.used).card ≤ nodes.card := Finset.card_le_card Finset.sdiff_subset
    have hc : n ∉ s.used ∨ Closed G s.used n := by
      by_cases hn : n ∈ s.used
      · exact Or.inr (h.all n hn).2
      · exact Or.inl hn
    have hlt : (nodes \ s.used).card < fuel := by omega
    obtain ⟨s₁, h1⟩ := visit_total hnodes h.ok (h.pending n) (hns n (List.mem_cons_self ..)) hlt hc
    obtain ⟨s', h2⟩ := ih (fun m hm => hns m (List.mem_cons_of_mem _ hm)) (h.visit h1).1
    exact ⟨s', by simp [visitAll, h1, h2]⟩

theorem visitAll_spec {G : Graph N} {fuel : Nat} {ns : List N} {s s' : State N} (h : Done G s)
    (hv : visitAll G fuel ns s = some s') :
    Done G s' ∧ s.used ⊆ s'.used ∧ (∀ n ∈ ns, n ∈ s'.used) ∧
      ∀ m ∈ s'.used, m ∈ s.used ∨ ∃ n ∈ ns, Reach G n m := by
  induction ns generalizing s with
  | nil =>
    simp only [visitAll, Option.some.injEq] at hv
    subst hv
    exact ⟨h, fun _ h => h, by simp, fun m hm => Or.inl hm⟩
  | cons n ns ih =>
    simp only [visitAll, Option.bind_eq_some_iff] at hv
    obtain ⟨s₁, h1, h2⟩ := hv
    obtain ⟨hd, he⟩ := h.visit h1
    obtain ⟨hd', hu, hns, hr⟩ := ih hd h2
    refine ⟨hd', he.used.trans hu, ?_, ?_⟩
    · intro m hm
      rcases List.mem_cons.mp hm with rfl | hm
      · exact hu he.self.1
      · exact hns m hm
    · intro m hm
      rcases hr m hm with hm | ⟨k, hk, hr⟩
      · by_cases hms : m ∈ s.used
        · exact Or.inl hms
        · exact Or.inr ⟨n, List.mem_cons_self .., (he.fresh m hm hms).2.1⟩
      · exact Or.inr ⟨k, List.mem_cons_of_mem _ hk, hr⟩

theorem Done.reach {G : Graph N} {s : State N} (h : Done G s) {n m : N} (hn : n ∈ s.used)
    (hr : Reach G n m) (hm : Inner G m) : m ∈ s.used := by
  induction hr with
  | refl => exact hn
  | tail _ hkm ih =>
    have hk := hkm
    obtain ⟨a, b, hG, _⟩ := hkm
    exact (h.all _ (ih ⟨a, b, hG⟩)).2 _ hk hm

/-- **Reachability.**  The nodes used are exactly the inner nodes that some
root reaches. -/
theorem visitAll_used {G : Graph N} {fuel : Nat} {ns : List N} {s : State N}
    (hv : visitAll G fuel ns State.start = some s) (m : N) :
    m ∈ s.used ↔ Inner G m ∧ ∃ n ∈ ns, Reach G n m := by
  obtain ⟨hd, _, hns, hr⟩ := visitAll_spec (Done.start G) hv
  constructor
  · intro hm
    refine ⟨hd.ok.inner m hm, ?_⟩
    rcases hr m hm with h | h
    · simp [State.start] at h
    · exact h
  · rintro ⟨hm, n, hn, hr⟩
    exact hd.reach (hns n hn) hr hm

/-! ## Cuts and uses of occurrences -/

/-- An input that an instruction cuts has no value yet. -/
def CutsOpen (p : List (Instr N)) : Prop :=
  ∀ p₁ i p₂, p = p₁ ++ i :: p₂ → ∀ m, i.arg1 = .cut m ∨ i.arg2 = .cut m → occ m p₁ = 0

theorem CutsOpen.snoc {p : List (Instr N)} {i : Instr N} (h : CutsOpen p)
    (hi : ∀ m, i.arg1 = .cut m ∨ i.arg2 = .cut m → occ m p = 0) : CutsOpen (p ++ [i]) := by
  intro p₁ k p₂ hp m hm
  rcases List.eq_nil_or_concat p₂ with rfl | ⟨q, l, rfl⟩
  · obtain ⟨rfl, hk⟩ := List.append_inj' hp rfl
    cases hk
    exact hi m hm
  · rw [List.concat_eq_append, ← List.cons_append, ← List.append_assoc] at hp
    exact h p₁ k q (List.append_inj' hp rfl).1 m hm

/-- A node that is used and has no value keeps having none while others are
evaluated. -/
theorem Extends.occ_eq {G : Graph N} {n m : N} {s s' : State N} (h : Extends G n s s')
    (hm : m ∈ s.used) : occ m s'.prog = occ m s.prog := by
  obtain ⟨q, hq, hqn⟩ := h.grows
  have h0 : ¬ 0 < occ m q := by
    intro h0
    obtain ⟨i, hi, rfl⟩ := occ_pos.mp h0
    exact hqn i hi hm
  rw [hq, occ_append]
  omega

theorem demand_cut {G : Graph N} {n c m : N} {s s₁ s₂ : State N} {x : Operand N}
    {rec : N → State N → Option (State N)} (hp : Pending G s n)
    (hd : demand rec (lookup G s c) c s₁ = some (x, s₂)) (hx : x = .cut m) :
    m ∈ s.used ∧ occ m s.prog = 0 := by
  rcases demand_eq_some hd with ⟨hl, rfl⟩ | ⟨_, _, hl⟩
  · obtain ⟨hof, _, hcut, _⟩ := lookup_operand hl hp
    rw [hx] at hof
    rw [hof.1]
    exact hcut ⟨m, hx⟩
  · rw [hx] at hl
    simp [State.last] at hl

theorem demand_cutsOpen {c : N} {o : Option (Operand N)} {s₁ s₂ : State N}
    {x : Operand N} {rec : N → State N → Option (State N)}
    (ih : o = none → ∀ t, rec c s₁ = some t → CutsOpen t.prog) (h : CutsOpen s₁.prog)
    (hd : demand rec o c s₁ = some (x, s₂)) : CutsOpen s₂.prog := by
  rcases demand_eq_some hd with ⟨_, rfl⟩ | ⟨hn, hv, _⟩
  · exact h
  · exact ih hn s₂ hv

theorem visit_cutsOpen {G : Graph N} {fuel : Nat} {n : N} {s s' : State N} (hk : Ok G s)
    (hp : Pending G s n) (h : CutsOpen s.prog) (hv : visit G fuel n s = some s') :
    CutsOpen s'.prog := by
  induction fuel generalizing n s s' with
  | zero => simp [visit] at hv
  | succ fuel ih =>
    obtain ⟨a, b, x, y, s₁, s₂, hG, h1, h2, rfl, hk₀, hk₁, hp₀, he₁, he₂, _⟩ := visit_inv hk hp hv
    have c₁ : CutsOpen s₁.prog := demand_cutsOpen (fun hn t ht =>
      ih hk₀ (hp₀.reads (reads_left hG (lookup_eq_none.mp hn).1)) h ht)
      h h1
    have c₂ : CutsOpen s₂.prog := demand_cutsOpen (fun hn t ht =>
      ih hk₁ (he₁.pending (hp₀.reads (reads_right hG (lookup_eq_none.mp hn).1))) c₁ ht) c₁ h2
    refine c₂.snoc fun m hm => ?_
    have hm₀ : m ∈ (s.mark n).used ∧ occ m (s.mark n).prog = 0 := by
      rcases hm with hm | hm
      · exact demand_cut hp₀ h1 hm
      · exact demand_cut hp₀ h2 hm
    rw [he₂.occ_eq hm₀.1]
    exact hm₀.2

/-- Some instruction reads the `j`-th value of `m`. -/
def Consumed (p : List (Instr N)) (m : N) (j : Nat) : Prop :=
  ∃ i ∈ p, i.arg1 = .value m j ∨ i.arg2 = .value m j

theorem Consumed.mono {p p' q : List (Instr N)} {m : N} {j : Nat} (h : Consumed p m j)
    (hp : p' = p ++ q) : Consumed p' m j := by
  obtain ⟨i, hi, hr⟩ := h
  exact ⟨i, by rw [hp]; exact List.mem_append_left _ hi, hr⟩

/-- Every value computed in between is read there, the last one of `n` aside. -/
def UsesAll (n : N) (s s' : State N) : Prop :=
  ∀ m j, occ m s.prog ≤ j → j < occ m s'.prog →
    (m = n ∧ j + 1 = occ n s'.prog) ∨ Consumed s'.prog m j

theorem demand_usesAll {c : N} {o : Option (Operand N)} {s₁ s₂ : State N} {x : Operand N}
    {rec : N → State N → Option (State N)}
    (ih : o = none → ∀ t, rec c s₁ = some t → UsesAll c s₁ t)
    (hd : demand rec o c s₁ = some (x, s₂)) {m : N} {j : Nat} (hj : occ m s₁.prog ≤ j)
    (hj' : j < occ m s₂.prog) : x = .value m j ∨ Consumed s₂.prog m j := by
  rcases demand_eq_some hd with ⟨_, rfl⟩ | ⟨hn, hv, rfl⟩
  · omega
  · rcases ih hn s₂ hv m j hj hj' with ⟨rfl, hl⟩ | hc
    · left
      show Operand.value m (occ m s₂.prog - 1) = .value m j
      rw [← hl, Nat.add_sub_cancel]
    · exact Or.inr hc

theorem visit_usesAll {G : Graph N} {fuel : Nat} {n : N} {s s' : State N} (hk : Ok G s)
    (hp : Pending G s n) (hv : visit G fuel n s = some s') : UsesAll n s s' := by
  induction fuel generalizing n s s' with
  | zero => simp [visit] at hv
  | succ fuel ih =>
    obtain ⟨a, b, x, y, s₁, s₂, hG, h1, h2, rfl, hk₀, hk₁, hp₀, he₁, _, _, _, q, hq⟩ :=
      visit_inv hk hp hv
    have u₁ := fun m j => demand_usesAll (m := m) (j := j) (fun hn t ht =>
      ih hk₀ (hp₀.reads (reads_left hG (lookup_eq_none.mp hn).1)) ht) h1
    have u₂ := fun m j => demand_usesAll (m := m) (j := j) (fun hn t ht =>
      ih hk₁ (he₁.pending (hp₀.reads (reads_right hG (lookup_eq_none.mp hn).1))) ht) h2
    have hnew : (⟨n, x, y⟩ : Instr N) ∈ (s₂.emit ⟨n, x, y⟩).prog := by simp
    intro m j hj hj'
    rw [emit_prog, occ_snoc] at hj'
    rcases Nat.lt_or_ge j (occ m s₁.prog) with hj₁ | hj₁
    · rcases u₁ m j hj hj₁ with h | h
      · exact Or.inr ⟨_, hnew, Or.inl h⟩
      · exact Or.inr (h.mono (q := q ++ [⟨n, x, y⟩]) (by rw [emit_prog, hq, List.append_assoc]))
    · rcases Nat.lt_or_ge j (occ m s₂.prog) with hj₂ | hj₂
      · rcases u₂ m j hj₁ hj₂ with h | h
        · exact Or.inr ⟨_, hnew, Or.inr h⟩
        · exact Or.inr (h.mono rfl)
      · split at hj'
        · next hnm =>
          have hnm : n = m := hnm
          subst hnm
          refine Or.inl ⟨rfl, ?_⟩
          rw [emit_prog, occ_snoc, if_pos rfl]
          omega
        · omega

theorem visitAll_cutsOpen {G : Graph N} {fuel : Nat} {ns : List N} {s s' : State N}
    (h : Done G s) (hc : CutsOpen s.prog) (hv : visitAll G fuel ns s = some s') :
    CutsOpen s'.prog := by
  induction ns generalizing s with
  | nil =>
    simp only [visitAll, Option.some.injEq] at hv
    exact hv ▸ hc
  | cons n ns ih =>
    simp only [visitAll, Option.bind_eq_some_iff] at hv
    obtain ⟨s₁, h1, h2⟩ := hv
    exact ih (h.visit h1).1 (visit_cutsOpen h.ok (h.pending n) hc h1) h2

/-- **Uses.**  Visiting distinct roots, every value but the last of its node is
read by some instruction. -/
theorem visitAll_uses {G : Graph N} {fuel : Nat} {ns : List N} (hns : ns.Nodup) {s s' : State N}
    (h : Done G s) (hu : ∀ m j, j < occ m s.prog →
      (m ∉ ns ∧ j + 1 = occ m s.prog) ∨ Consumed s.prog m j)
    (hv : visitAll G fuel ns s = some s') {m : N} {j : Nat} (hj : j < occ m s'.prog) :
    j + 1 = occ m s'.prog ∨ Consumed s'.prog m j := by
  induction ns generalizing s with
  | nil =>
    simp only [visitAll, Option.some.injEq] at hv
    subst hv
    exact (hu m j hj).imp_left And.right
  | cons n ns ih =>
    simp only [visitAll, Option.bind_eq_some_iff] at hv
    obtain ⟨s₁, h1, h2⟩ := hv
    obtain ⟨hd, he⟩ := h.visit h1
    obtain ⟨hn, hns⟩ := List.nodup_cons.mp hns
    refine ih hns hd (fun k l hl => ?_) h2
    obtain ⟨q, hq, hqn⟩ := he.grows
    rcases Nat.lt_or_ge l (occ k s.prog) with hl₀ | hl₀
    · rcases hu k l hl₀ with ⟨hk, hlast⟩ | hc
      · -- a root visited earlier: this visit computes it no more
        have hkn : k ≠ n := fun e => hk (e ▸ List.mem_cons_self ..)
        have hku : k ∈ s.used := h.ok.done k (by omega)
        have h0 : ¬ 0 < occ k q := by
          intro h0
          obtain ⟨i, hi, rfl⟩ := occ_pos.mp h0
          exact (hqn i hi).elim hkn (fun hne => hne hku)
        refine Or.inl ⟨fun hm => hk (List.mem_cons_of_mem _ hm), ?_⟩
        rw [hq, occ_append]
        omega
      · exact Or.inr (hc.mono hq)
    · rcases visit_usesAll h.ok (h.pending n) h1 k l hl₀ hl with ⟨rfl, hlast⟩ | hc
      · exact Or.inl ⟨hn, hlast⟩
      · exact Or.inr hc

/-! ## Renaming -/

def Kind.rename (f : N → N') : Kind N → Kind N'
  | .leaf => .leaf
  | .inner a b => .inner (f a) (f b)

def State.rename (f : N → N') (s : State N) : State N' :=
  ⟨s.used.image f, s.prog.map (Instr.rename f)⟩

/-- `G'` is `G` with its nodes renamed by `f`. -/
def Renamed (f : N → N') (G : Graph N) (G' : Graph N') : Prop :=
  ∀ n, G' (f n) = (G n).map (Kind.rename f)

theorem occ_rename {f : N → N'} (hf : Function.Injective f) (n : N) (p : List (Instr N)) :
    occ (f n) (p.map (Instr.rename f)) = occ n p := by
  simp only [occ, List.countP_map]
  congr 1
  funext i
  simp [Instr.rename, hf.eq_iff]

theorem State.last_rename {f : N → N'} (hf : Function.Injective f) (s : State N) (n : N) :
    (s.rename f).last (f n) = (s.last n).rename f := by
  simp [State.last, State.rename, occ_rename hf, Operand.rename]

theorem State.mark_rename (f : N → N') (s : State N) (n : N) :
    (s.rename f).mark (f n) = (s.mark n).rename f := by
  simp [State.mark, State.rename, Finset.image_insert]

theorem lookup_rename {f : N → N'} (hf : Function.Injective f) {G : Graph N} {G' : Graph N'}
    (hG : Renamed f G G') (s : State N) (n : N) :
    lookup G' (s.rename f) (f n) = (lookup G s n).map (Operand.rename f) := by
  have hu : f n ∈ (s.rename f).used ↔ n ∈ s.used := by
    simp [State.rename, hf.eq_iff]
  have ho : occ (f n) (s.rename f).prog = occ n s.prog := occ_rename hf n s.prog
  unfold lookup
  rw [hG n]
  cases h : G n with
  | none => rfl
  | some k =>
    cases k with
    | leaf => rfl
    | inner a b =>
      simp only [Option.map_some, Kind.rename, hu, ho]
      split
      · rw [State.last_rename hf]; rfl
      · split <;> rfl

theorem demand_rename {f : N → N'} (hf : Function.Injective f)
    {rec : N → State N → Option (State N)} {rec' : N' → State N' → Option (State N')}
    (hrec : ∀ n s, rec' (f n) (s.rename f) = (rec n s).map (State.rename f))
    (o : Option (Operand N)) (n : N) (s : State N) :
    demand rec' (o.map (Operand.rename f)) (f n) (s.rename f) =
      (demand rec o n s).map (Prod.map (Operand.rename f) (State.rename f)) := by
  cases o with
  | some x => rfl
  | none =>
    simp only [demand, Option.map_none, hrec, Option.map_map]
    congr 1
    funext t
    simp [State.last_rename hf]

theorem visit_rename {f : N → N'} (hf : Function.Injective f) {G : Graph N} {G' : Graph N'}
    (hG : Renamed f G G') (fuel : Nat) (n : N) (s : State N) :
    visit G' fuel (f n) (s.rename f) = (visit G fuel n s).map (State.rename f) := by
  induction fuel generalizing n s with
  | zero => rfl
  | succ fuel ih =>
    simp only [visit]
    rw [hG n]
    cases h : G n with
    | none => rfl
    | some k =>
      cases k with
      | leaf => rfl
      | inner a b =>
        simp only [Option.map_some, Kind.rename, State.mark_rename, lookup_rename hf hG,
          demand_rename hf ih]
        cases demand (visit G fuel) (lookup G (s.mark n) a) a (s.mark n) with
        | none => rfl
        | some r =>
          obtain ⟨x, s₁⟩ := r
          simp only [Option.map_some, Prod.map_apply, demand_rename hf ih]
          cases demand (visit G fuel) (lookup G (s.mark n) b) b s₁ with
          | none => rfl
          | some r => simp [State.emit, State.rename, Instr.rename]

theorem visitAll_rename {f : N → N'} (hf : Function.Injective f) {G : Graph N} {G' : Graph N'}
    (hG : Renamed f G G') (fuel : Nat) (ns : List N) (s : State N) :
    visitAll G' fuel (ns.map f) (s.rename f) =
      (visitAll G fuel ns s).map (State.rename f) := by
  induction ns generalizing s with
  | nil => rfl
  | cons n ns ih =>
    simp only [visitAll, List.map_cons, visit_rename hf hG]
    cases visit G fuel n s with
    | none => rfl
    | some t => simp [ih]

/-! ## Reachability along a map -/

/-- `f` carries the steps of `r` from `I` to steps of `s`, and every step of `s` from
there is carried over. -/
structure Tracks {M K : Type*} (I : M → Prop) (f : M → K) (r : M → M → Prop) (s : K → K → Prop) :
    Prop where
  closed : ∀ a b, I a → r a b → I b
  forth : ∀ a b, I a → r a b → s (f a) (f b)
  back : ∀ a k, I a → s (f a) k → ∃ b, r a b ∧ f b = k

namespace Tracks

variable {M K : Type*} {I : M → Prop} {f : M → K} {r : M → M → Prop} {s : K → K → Prop}
  (h : Tracks I f r s)

include h

theorem reach_closed {a b : M} (ha : I a) (hr : ReflTransGen r a b) : I b := by
  induction hr with
  | refl => exact ha
  | tail _ hstep ih => exact h.closed _ _ ih hstep

theorem reach_iff {a : M} (ha : I a) {k : K} :
    ReflTransGen s (f a) k ↔ ∃ b, ReflTransGen r a b ∧ f b = k := by
  constructor
  · intro hk
    induction hk with
    | refl => exact ⟨a, .refl, rfl⟩
    | tail _ hstep ih =>
      obtain ⟨b, hb, rfl⟩ := ih
      obtain ⟨c, hc, rfl⟩ := h.back b _ (h.reach_closed ha hb) hstep
      exact ⟨c, hb.tail hc, rfl⟩
  · rintro ⟨b, hb, rfl⟩
    induction hb with
    | refl => exact .refl
    | tail hb hstep ih => exact ih.tail (h.forth _ _ (h.reach_closed ha hb) hstep)

theorem trans_iff {a : M} (ha : I a) {k : K} :
    TransGen s (f a) k ↔ ∃ b, TransGen r a b ∧ f b = k := by
  constructor
  · intro hk
    obtain ⟨j, hj, hk⟩ := TransGen.head'_iff.mp hk
    obtain ⟨b, hb, rfl⟩ := h.back a j ha hj
    obtain ⟨c, hc, rfl⟩ := (h.reach_iff (h.closed a b ha hb)).mp hk
    exact ⟨c, TransGen.head' hb hc, rfl⟩
  · rintro ⟨c, hc, rfl⟩
    obtain ⟨b, hb, hc⟩ := TransGen.head'_iff.mp hc
    exact TransGen.head' (h.forth a b ha hb) ((h.reach_iff (h.closed a b ha hb)).mpr ⟨c, hc, rfl⟩)

end Tracks

end Demand

import Mathlib.Data.List.Basic
import Mathlib.Tactic.Common

/-!
# Fuelled computations and runs of a transition function

* `Returns f a`: the fuelled computation `f` returns `a` with every large
  enough fuel; the result is unique (`Returns.unique`) and computations compose
  (`Returns.bind`);
* `runs step as s`: a list of actions carried out from `s`; an invariant that
  every permitted action keeps holds after every run (`runs_invariant`), and so
  does one that every turn of a loop keeps (`foldlM_invariant`);
* `Along step C as s`: a condition on the steps of a run, exact when it is exact
  for one step (`runs_iff_along`);
* `Lockstep R x y`: two computations fail alike or end in related results
  (`Lockstep.bind`);
* `Simulated R x y`: `x` fails exactly where the abstract machine `y` is stuck, and
  else they end in related results; from one step to runs (`Simulated.runs`) and
  from abstract runs back (`Simulated.realize`);
* `Corresponds R Q s s'`: the abstract states of `s` and `s'` correspond; then so do the
  runs with corresponding labels (`Corresponds.runs`), and there are such runs
  (`Corresponds.follow`).
-/

namespace Execution

/-! ## Enough fuel -/

universe u

variable {ε : Type*} {α β : Type u}

def Returns (f : Nat → Except ε α) (a : α) : Prop := ∃ n, ∀ m, n ≤ m → f m = .ok a

theorem Returns.unique {f : Nat → Except ε α} {a b : α} (ha : Returns f a) (hb : Returns f b) :
    a = b := by
  obtain ⟨n, hn⟩ := ha
  obtain ⟨m, hm⟩ := hb
  have h := (hn (max n m) (Nat.le_max_left n m)).symm.trans (hm (max n m) (Nat.le_max_right n m))
  simpa using h

theorem Returns.pure (a : α) : Returns (fun _ => (.ok a : Except ε α)) a := ⟨0, fun _ _ => rfl⟩

theorem Returns.bind {f : Nat → Except ε α} {g : Nat → α → Except ε β} {a : α} {b : β}
    (hf : Returns f a) (hg : Returns (fun n => g n a) b) :
    Returns (fun n => f n >>= g n) b := by
  obtain ⟨n, hn⟩ := hf
  obtain ⟨m, hm⟩ := hg
  refine ⟨max n m, fun k hk => ?_⟩
  have hfk := hn k (Nat.le_trans (Nat.le_max_left n m) hk)
  have hgk := hm k (Nat.le_trans (Nat.le_max_right n m) hk)
  simp only [hfk, hgk, Bind.bind, Except.bind]

/-! ## Runs -/

variable {A : Type*} {S : Type u}

/-- Carry out a list of actions; a failing action ends the run. -/
def runs (step : A → S → Except ε S) : List A → S → Except ε S
  | [], s => .ok s
  | a :: as, s => step a s >>= runs step as

theorem bind_eq_ok {x : Except ε α} {f : α → Except ε β} {b : β} (h : x >>= f = .ok b) :
    ∃ a, x = .ok a ∧ f a = .ok b := by
  cases x with
  | error e => cases h
  | ok a => exact ⟨a, rfl, h⟩

/-- The computation fails in no other way. -/
def FailsOnly (kind : ε) (x : Except ε α) : Prop := ∀ e, x = .error e → e = kind

theorem FailsOnly.ok (kind : ε) (a : α) : FailsOnly kind (.ok a) := fun e h => by cases h

theorem FailsOnly.error (kind : ε) : FailsOnly kind (.error kind : Except ε α) := fun e h => by
  cases h
  rfl

theorem FailsOnly.bind {kind : ε} {x : Except ε α} {f : α → Except ε β} (hx : FailsOnly kind x)
    (hf : ∀ a, FailsOnly kind (f a)) : FailsOnly kind (x >>= f) := by
  cases x with
  | error e =>
    rw [hx e rfl]
    exact .error kind
  | ok a => exact hf a

theorem runs_append (step : A → S → Except ε S) (as bs : List A) (s : S) :
    runs step (as ++ bs) s = runs step as s >>= runs step bs := by
  induction as generalizing s with
  | nil => rfl
  | cons a as ih =>
    rw [List.cons_append, runs, runs]
    cases step a s with
    | error e => rfl
    | ok t => exact ih t

/-- **Invariant rule.**  What every permitted action keeps, every run of
permitted actions keeps. -/
theorem runs_invariant {step : A → S → Except ε S} {P : A → Prop} {I : S → Prop}
    (hstep : ∀ a s s', P a → I s → step a s = .ok s' → I s') {as : List A} {s s' : S}
    (has : ∀ a ∈ as, P a) (hs : I s) (h : runs step as s = .ok s') : I s' := by
  induction as generalizing s with
  | nil =>
    cases h
    exact hs
  | cons a as ih =>
    obtain ⟨t, ht, h⟩ := bind_eq_ok h
    exact ih (fun b hb => has b (List.mem_cons_of_mem _ hb))
      (hstep a s t (has a (List.mem_cons_self ..)) hs ht) h

/-- `C` holds before every action of the run that succeeds. -/
def Along (step : A → S → Except ε S) (C : A → S → Prop) : List A → S → Prop
  | [], _ => True
  | a :: as, s => ∀ s', step a s = .ok s' → C a s ∧ Along step C as s'

theorem Along.cons {step : A → S → Except ε S} {C : A → S → Prop} {a : A} {as : List A}
    {s t : S} (h : step a s = .ok t) (hC : C a s) (hrest : Along step C as t) :
    Along step C (a :: as) s := by
  intro s' hs'
  rw [h] at hs'
  cases hs'
  exact ⟨hC, hrest⟩

/-- **Conditional invariant rule.**  What a step keeps under `C` holds in every state
of a run along which `C` holds. -/
theorem runs_along {step : A → S → Except ε S} {C : A → S → Prop} {I : S → Prop}
    (hstep : ∀ a s s', I s → C a s → step a s = .ok s' → I s') {as : List A} {s : S}
    (h : Along step C as s) (hs : I s) :
    ∀ pre s', pre <+: as → runs step pre s = .ok s' → I s' := by
  induction as generalizing s with
  | nil =>
    intro pre s' hpre h'
    rw [List.prefix_nil.mp hpre] at h'
    cases h'
    exact hs
  | cons a as ih =>
    intro pre s' hpre h'
    cases pre with
    | nil =>
      cases h'
      exact hs
    | cons b pre =>
      obtain ⟨rfl, hrest⟩ := List.cons_prefix_cons.mp hpre
      obtain ⟨t, ht, h'⟩ := bind_eq_ok h'
      obtain ⟨hC, h⟩ := h t ht
      exact ih h (hstep b s t hs hC ht) pre s' hrest h'

/-- **Exact invariant rule.**  If a step keeps `I` exactly when `C` holds before
it, then `I` holds in every state of a run exactly when `C` holds along it. -/
theorem runs_iff_along {step : A → S → Except ε S} {C : A → S → Prop} {J I : S → Prop}
    (hJ : ∀ a s s', J s → step a s = .ok s' → J s')
    (hstep : ∀ a s s', J s → I s → step a s = .ok s' → (I s' ↔ C a s)) {as : List A} {s : S}
    (hj : J s) (hi : I s) :
    (∀ pre s', pre <+: as → runs step pre s = .ok s' → I s') ↔ Along step C as s := by
  constructor
  · intro h
    induction as generalizing s with
    | nil => trivial
    | cons a as ih =>
      intro t ht
      have hrun : ∀ pre, runs step (a :: pre) s = runs step pre t := by
        intro pre
        rw [runs, ht]
        rfl
      have hi' : I t := h [a] t ⟨as, rfl⟩ (hrun [])
      refine ⟨(hstep a s t hj hi ht).mp hi', ih (hJ a s t hj ht) hi' fun pre s' hpre h' => ?_⟩
      exact h (a :: pre) s' ((List.prefix_cons_inj a).mpr hpre) ((hrun pre).trans h')
  · intro h pre s' hpre h'
    refine (runs_along (I := fun s => J s ∧ I s) ?_ h ⟨hj, hi⟩ pre s' hpre h').2
    rintro a s t ⟨hj, hi⟩ hC ht
    exact ⟨hJ a s t hj ht, (hstep a s t hj hi ht).mpr hC⟩

/-- **Fault rule.**  A run fails where one of its actions does. -/
theorem runs_eq_error {step : A → S → Except ε S} {as : List A} {s : S} {e : ε} :
    runs step as s = .error e ↔
      ∃ pre a post t, as = pre ++ a :: post ∧ runs step pre s = .ok t ∧ step a t = .error e := by
  constructor
  · intro h
    induction as generalizing s with
    | nil => cases h
    | cons a as ih =>
      rw [runs] at h
      cases ht : step a s with
      | error e' =>
        rw [ht] at h
        cases h
        exact ⟨[], a, as, s, rfl, rfl, ht⟩
      | ok t =>
        rw [ht] at h
        obtain ⟨pre, b, post, u, rfl, hpre, hb⟩ := ih h
        refine ⟨a :: pre, b, post, u, rfl, ?_, hb⟩
        rw [runs, ht]
        exact hpre
  · rintro ⟨pre, a, post, t, rfl, hpre, ht⟩
    rw [runs_append, hpre]
    show step a t >>= _ = _
    rw [ht]
    rfl

theorem foldlM_eq_runs (f : S → A → Except ε S) (as : List A) (s : S) :
    as.foldlM f s = runs (fun a s => f s a) as s := by
  induction as generalizing s with
  | nil => rfl
  | cons a as ih =>
    rw [List.foldlM_cons, runs]
    congr 1
    funext t
    exact ih t

/-- **Loop rule.**  What every turn keeps, the loop keeps. -/
theorem foldlM_invariant {f : S → A → Except ε S} {I : S → Prop} {as : List A}
    (hstep : ∀ a ∈ as, ∀ s s', I s → f s a = .ok s' → I s') {s s' : S} (hs : I s)
    (h : as.foldlM f s = .ok s') : I s' := by
  rw [foldlM_eq_runs] at h
  exact runs_invariant (P := fun a => a ∈ as) (fun a s s' ha => hstep a ha s s')
    (fun _ ha => ha) hs h

/-- **Loop rule.**  What the turn for an element establishes and the others keep holds
for every element after the loop. -/
theorem foldlM_establishes {f : S → A → Except ε S} {I : S → Prop} {P : A → S → Prop} {as : List A}
    (hI : ∀ a ∈ as, ∀ s s', I s → f s a = .ok s' → I s')
    (hset : ∀ a ∈ as, ∀ s s', I s → f s a = .ok s' → P a s')
    (hkeep : ∀ a ∈ as, ∀ b ∈ as, ∀ s s', I s → P a s → f s b = .ok s' → P a s') {s s' : S}
    (hs : I s) (h : as.foldlM f s = .ok s') : ∀ a ∈ as, P a s' := by
  induction as generalizing s with
  | nil => simp
  | cons a as ih =>
    obtain ⟨t, ht, h⟩ := bind_eq_ok h
    have hmem : ∀ {b}, b ∈ as → b ∈ a :: as := List.mem_cons_of_mem a
    have hhead : a ∈ a :: as := List.mem_cons_self ..
    have hIt := hI a hhead s t hs ht
    refine List.forall_mem_cons.mpr ⟨?_, ih (fun b hb => hI b (hmem hb))
      (fun b hb => hset b (hmem hb)) (fun b hb c hc => hkeep b (hmem hb) c (hmem hc)) hIt h⟩
    refine (foldlM_invariant (I := fun s => I s ∧ P a s) (fun b hb u v hu hv => ?_)
      ⟨hIt, hset a hhead s t hs ht⟩ h).2
    exact ⟨hI b (hmem hb) u v hu.1 hv, hkeep a hhead b (hmem hb) u v hu.1 hu.2 hv⟩

/-- **Loop rule.**  A loop whose turns succeed under an invariant succeeds. -/
theorem foldlM_total {f : S → A → Except ε S} {I : S → Prop} {as : List A}
    (hstep : ∀ a ∈ as, ∀ s, I s → ∃ s', f s a = .ok s' ∧ I s') {s : S} (hs : I s) :
    ∃ s', as.foldlM f s = .ok s' ∧ I s' := by
  induction as generalizing s with
  | nil => exact ⟨s, rfl, hs⟩
  | cons a as ih =>
    obtain ⟨ha, has⟩ := List.forall_mem_cons.mp hstep
    obtain ⟨t, ht, hIt⟩ := ha s hs
    obtain ⟨s', hs', hIs'⟩ := ih has hIt
    exact ⟨s', by rw [List.foldlM_cons, ht]; exact hs', hIs'⟩

theorem foldlM_turns {f : S → A → Except ε S} {as : List A} {s s' : S}
    (h : as.foldlM f s = .ok s') : ∀ a ∈ as, ∃ t t', f t a = .ok t' := by
  induction as generalizing s with
  | nil => simp
  | cons a as ih =>
    obtain ⟨t, ht, h⟩ := bind_eq_ok h
    exact List.forall_mem_cons.mpr ⟨⟨s, t, ht⟩, ih h⟩

/-- A loop fails as one of its turns does. -/
theorem foldlM_error {f : S → A → Except ε S} {P : ε → Prop} {as : List A}
    (h : ∀ a ∈ as, ∀ s e, f s a = .error e → P e) {s : S} {e : ε}
    (he : as.foldlM f s = .error e) : P e := by
  induction as generalizing s with
  | nil => cases he
  | cons a as ih =>
    obtain ⟨ha, has⟩ := List.forall_mem_cons.mp h
    rw [List.foldlM_cons] at he
    cases ht : f s a with
    | error e' =>
      rw [ht] at he
      cases he
      exact ha s e ht
    | ok t =>
      rw [ht] at he
      exact ih has he

theorem foldlM_eq_ok {f : S → A → Except ε S} {g : S → A → S} {as : List A}
    (h : ∀ a ∈ as, ∀ s, f s a = .ok (g s a)) (s : S) : as.foldlM f s = .ok (as.foldl g s) := by
  induction as generalizing s with
  | nil => rfl
  | cons a as ih =>
    obtain ⟨ha, has⟩ := List.forall_mem_cons.mp h
    rw [List.foldlM_cons, ha s]
    exact ih has (g s a)

theorem mapM_turns {f : A → Except ε S} {as : List A} {l : List S} (h : as.mapM f = .ok l) :
    ∀ a ∈ as, ∃ b, f a = .ok b := by
  induction as generalizing l with
  | nil => simp
  | cons a as ih =>
    rw [List.mapM_cons] at h
    obtain ⟨b, hb, h⟩ := bind_eq_ok h
    obtain ⟨l', hl', _⟩ := bind_eq_ok h
    exact List.forall_mem_cons.mpr ⟨⟨b, hb⟩, ih hl'⟩

theorem mapM_mem {f : A → Except ε S} {as : List A} {l : List S} (h : as.mapM f = .ok l) :
    ∀ b ∈ l, ∃ a ∈ as, f a = .ok b := by
  induction as generalizing l with
  | nil =>
    cases h
    simp
  | cons a as ih =>
    rw [List.mapM_cons] at h
    obtain ⟨b, hb, h⟩ := bind_eq_ok h
    obtain ⟨l', hl', h⟩ := bind_eq_ok h
    cases h
    refine List.forall_mem_cons.mpr ⟨⟨a, List.mem_cons_self .., hb⟩, fun c hc => ?_⟩
    obtain ⟨a', ha', hc⟩ := ih hl' c hc
    exact ⟨a', List.mem_cons_of_mem a ha', hc⟩

theorem mapM_error {f : A → Except ε S} {P : ε → Prop} {as : List A}
    (h : ∀ a ∈ as, ∀ e, f a = .error e → P e) {e : ε} (he : as.mapM f = .error e) : P e := by
  induction as with
  | nil => cases he
  | cons a as ih =>
    obtain ⟨ha, has⟩ := List.forall_mem_cons.mp h
    rw [List.mapM_cons] at he
    cases ht : f a with
    | error e' =>
      rw [ht] at he
      cases he
      exact ha e ht
    | ok b =>
      cases hr : as.mapM f with
      | error e' =>
        rw [ht, hr] at he
        cases he
        exact ih has hr
      | ok l =>
        rw [ht, hr] at he
        cases he

theorem mapM_eq_ok {f : A → Except ε S} {g : A → S} {as : List A}
    (h : ∀ a ∈ as, f a = .ok (g a)) : as.mapM f = .ok (as.map g) := by
  induction as with
  | nil => rfl
  | cons a as ih =>
    obtain ⟨ha, has⟩ := List.forall_mem_cons.mp h
    rw [List.mapM_cons, ha, ih has]
    rfl

/-! ## Two computations -/

/-- Both fail in the same way, or both succeed with related results. -/
inductive Lockstep {α' β' : Type*} (R : α' → β' → Prop) : Except ε α' → Except ε β' → Prop
  | ok {a : α'} {b : β'} : R a b → Lockstep R (.ok a) (.ok b)
  | error (e : ε) : Lockstep R (.error e) (.error e)

theorem Lockstep.bind {γ δ : Type u} {R : α → β → Prop} {S : γ → δ → Prop} {x : Except ε α}
    {y : Except ε β} {f : α → Except ε γ} {g : β → Except ε δ} (h : Lockstep R x y)
    (hf : ∀ a b, R a b → Lockstep S (f a) (g b)) : Lockstep S (x >>= f) (y >>= g) := by
  cases h with
  | ok hab => exact hf _ _ hab
  | error e => exact .error e

theorem Lockstep.foldlM {S' : Type u} {R : S → S' → Prop} {f : S → A → Except ε S}
    {g : S' → A → Except ε S'} {as : List A}
    (h : ∀ a ∈ as, ∀ s s', R s s' → Lockstep R (f s a) (g s' a)) {s : S} {s' : S'} (hs : R s s') :
    Lockstep R (as.foldlM f s) (as.foldlM g s') := by
  induction as generalizing s s' with
  | nil => exact .ok hs
  | cons a as ih =>
    obtain ⟨ha, has⟩ := List.forall_mem_cons.mp h
    rw [List.foldlM_cons, List.foldlM_cons]
    exact (ha s s' hs).bind fun t t' ht => ih has ht

/-! ## An abstract machine -/

universe v

variable {γ δ T : Type v} {B : Type*}

/-- The computation fails where the abstract machine is stuck, and else the two end in
related results. -/
inductive Simulated (R : α → γ → Prop) : Except ε α → Option γ → Prop
  | step {a : α} {c : γ} : R a c → Simulated R (.ok a) (some c)
  | stuck (e : ε) : Simulated R (.error e) none

namespace Simulated

variable {R : α → γ → Prop} {x : Except ε α} {y : Option γ}

theorem of_ok (h : Simulated R x y) {a : α} (hx : x = .ok a) : ∃ c, y = some c ∧ R a c := by
  cases h with
  | step hr =>
    cases hx
    exact ⟨_, rfl, hr⟩
  | stuck e => cases hx

theorem of_some (h : Simulated R x y) {c : γ} (hy : y = some c) : ∃ a, x = .ok a ∧ R a c := by
  cases h with
  | step hr =>
    cases hy
    exact ⟨_, rfl, hr⟩
  | stuck e => cases hy

theorem of_error (h : Simulated R x y) {e : ε} (hx : x = .error e) : y = none := by
  cases h with
  | step => cases hx
  | stuck => rfl

theorem error_iff (h : Simulated R x y) {kind e : ε} (hkind : FailsOnly kind x) :
    x = .error e ↔ e = kind ∧ y = none := by
  cases h with
  | step => simp
  | stuck e' =>
    rw [hkind e' rfl]
    simp [eq_comm]

theorem mono {R' : α → γ → Prop} (h : Simulated R x y) (hr : ∀ a c, x = .ok a → R a c → R' a c) :
    Simulated R' x y := by
  cases h with
  | step hac => exact .step (hr _ _ rfl hac)
  | stuck e => exact .stuck e

theorem bind {S : β → δ → Prop} {f : α → Except ε β} {g : γ → Option δ} (h : Simulated R x y)
    (hf : ∀ a c, R a c → Simulated S (f a) (g c)) : Simulated S (x >>= f) (y >>= g) := by
  cases h with
  | step hac => exact hf _ _ hac
  | stuck e => exact .stuck e

theorem foldlM {R : S → T → Prop} {f : S → A → Except ε S} {g : T → A → Option T} {as : List A}
    (h : ∀ a ∈ as, ∀ s t, R s t → Simulated R (f s a) (g t a)) {s : S} {t : T} (hr : R s t) :
    Simulated R (as.foldlM f s) (as.foldlM g t) := by
  induction as generalizing s t with
  | nil => exact .step hr
  | cons a as ih =>
    obtain ⟨ha, has⟩ := List.forall_mem_cons.mp h
    rw [List.foldlM_cons, List.foldlM_cons]
    exact (ha s t hr).bind fun _ _ hr' => ih has hr'

end Simulated

/-- The abstract actions of a run, read off the states it passes; a run that fails has
no actions after the one that fails. -/
def labels (step : A → S → Except ε S) (label : A → S → B) : List A → S → List B
  | [], _ => []
  | a :: as, s =>
    label a s :: match step a s with
      | .ok s' => labels step label as s'
      | .error _ => []

theorem labels_ok {step : A → S → Except ε S} {label : A → S → B} {a : A} {s s' : S}
    (h : step a s = .ok s') (as : List A) :
    labels step label (a :: as) s = label a s :: labels step label as s' := by
  rw [labels, h]

theorem labels_error {step : A → S → Except ε S} {label : A → S → B} {a : A} {s : S} {e : ε}
    (h : step a s = .error e) (as : List A) : labels step label (a :: as) s = [label a s] := by
  rw [labels, h]

/-- **From steps to runs.**  If every step is simulated under its label, every run is
simulated under its labels. -/
theorem Simulated.runs {step : A → S → Except ε S} {astep : T → B → Option T} {R : S → T → Prop}
    {label : A → S → B} (h : ∀ a s t, R s t → Simulated R (step a s) (astep t (label a s)))
    (as : List A) {s : S} {t : T} (hr : R s t) :
    Simulated R (runs step as s) ((labels step label as s).foldlM astep t) := by
  induction as generalizing s t with
  | nil => exact .step hr
  | cons a as ih =>
    have hstep := h a s t hr
    rw [Execution.runs, labels, List.foldlM_cons]
    cases hs : step a s with
    | error e =>
      rw [hstep.of_error hs]
      exact .stuck e
    | ok s' =>
      obtain ⟨t', ht', hr'⟩ := hstep.of_ok hs
      rw [ht']
      exact ih hr'

/-- **From abstract runs back.**  If every abstract step is the one of some action of
its kind, every abstract run is the one of a run with actions of these kinds. -/
theorem Simulated.realize {step : A → S → Except ε S} {astep : T → B → Option T}
    {R : S → T → Prop} {K : B → A → Prop}
    (h : ∀ b s t, R s t → ∃ a, K b a ∧ Simulated R (step a s) (astep t b))
    (bs : List B) {s : S} {t : T} (hr : R s t) :
    ∃ as, (∀ a ∈ as, ∃ b ∈ bs, K b a) ∧
      Simulated R (Execution.runs step as s) (bs.foldlM astep t) := by
  induction bs generalizing s t with
  | nil => exact ⟨[], by simp, .step hr⟩
  | cons b bs ih =>
    obtain ⟨a, hkind, ha⟩ := h b s t hr
    have hhead : ∃ b' ∈ b :: bs, K b' a := ⟨b, List.mem_cons_self .., hkind⟩
    rw [List.foldlM_cons]
    cases hs : step a s with
    | error e =>
      refine ⟨[a], List.forall_mem_singleton.mpr hhead, ?_⟩
      rw [Execution.runs, hs, ha.of_error hs]
      exact .stuck e
    | ok s' =>
      obtain ⟨t', ht', hr'⟩ := ha.of_ok hs
      obtain ⟨as, hkinds, has⟩ := ih hr'
      refine ⟨a :: as, List.forall_mem_cons.mpr ⟨hhead, fun a' ha' => ?_⟩, ?_⟩
      · obtain ⟨b', hb', hk⟩ := hkinds a' ha'
        exact ⟨b', List.mem_cons_of_mem _ hb', hk⟩
      · rw [Execution.runs, hs, ht']
        exact has

/-- **Abstract loop rule.**  What every turn keeps, the loop keeps. -/
theorem foldlM_some {f : T → B → Option T} {I : T → Prop}
    (hstep : ∀ b t t', I t → f t b = some t' → I t') {bs : List B} {t t' : T} (hi : I t)
    (h : bs.foldlM f t = some t') : I t' := by
  induction bs generalizing t with
  | nil =>
    cases h
    exact hi
  | cons b bs ih =>
    rw [List.foldlM_cons] at h
    obtain ⟨u, hu, h⟩ := Option.bind_eq_some_iff.mp h
    exact ih (hstep b t u hi hu) h

/-! ## Two states that correspond -/

/-- Both fail, or both succeed with related results. -/
inductive EndAlike {α' β' : Type*} (R : α' → β' → Prop) : Except ε α' → Except ε β' → Prop
  | ok {a : α'} {b : β'} : R a b → EndAlike R (.ok a) (.ok b)
  | error (e e' : ε) : EndAlike R (.error e) (.error e')

theorem EndAlike.mono {R R' : α → β → Prop} {x : Except ε α} {y : Except ε β}
    (h : EndAlike R x y) (hr : ∀ a b, R a b → R' a b) : EndAlike R' x y := by
  cases h with
  | ok hab => exact .ok (hr _ _ hab)
  | error e e' => exact .error e e'

theorem rel_some {Q : γ → δ → Prop} {c : γ} {y : Option δ} (h : Option.Rel Q (some c) y) :
    ∃ d, y = some d ∧ Q c d := by
  cases h with
  | some hq => exact ⟨_, rfl, hq⟩

theorem rel_none {Q : γ → δ → Prop} {y : Option δ} (h : Option.Rel Q none y) : y = none := by
  cases h
  rfl

theorem rel_bind {γ' δ' : Type v} {Q : γ → γ' → Prop} {P : δ → δ' → Prop} {x : Option γ}
    {y : Option γ'} {f : γ → Option δ} {g : γ' → Option δ'} (h : Option.Rel Q x y)
    (hf : ∀ a b, Q a b → Option.Rel P (f a) (g b)) : Option.Rel P (x >>= f) (y >>= g) := by
  cases h with
  | some hab => exact hf _ _ hab
  | none => exact .none

theorem rel_foldlM {Q : T → T → Prop} {f : T → B → Option T} {ρ : B → B}
    (h : ∀ b t t', Q t t' → Option.Rel Q (f t b) (f t' (ρ b))) (bs : List B) {t t' : T}
    (hq : Q t t') : Option.Rel Q (bs.foldlM f t) ((bs.map ρ).foldlM f t') := by
  induction bs generalizing t t' with
  | nil => exact .some hq
  | cons b bs ih =>
    rw [List.map_cons, List.foldlM_cons, List.foldlM_cons]
    exact rel_bind (h b t t' hq) fun _ _ hq' => ih hq'

/-- The abstract states of `s` and `s'` correspond. -/
def Corresponds (R : S → T → Prop) (Q : T → T → Prop) (s s' : S) : Prop :=
  ∃ t t', R s t ∧ R s' t' ∧ Q t t'

section

variable {step : A → S → Except ε S} {astep : T → B → Option T} {R : S → T → Prop}
  {label : A → S → B} {Q : T → T → Prop} {ρ : B → B}
  (hsim : ∀ a s t, R s t → Simulated R (step a s) (astep t (label a s)))
  (hrel : ∀ b t t', Q t t' → Option.Rel Q (astep t b) (astep t' (ρ b)))

include hsim hrel

/-- Runs with corresponding labels end alike. -/
theorem Corresponds.runs {as as' : List A} {s s' : S} (hc : Corresponds R Q s s')
    (hlabels : labels step label as' s' = (labels step label as s).map ρ) :
    EndAlike (Corresponds R Q) (Execution.runs step as s) (Execution.runs step as' s') := by
  obtain ⟨t, t', hr, hr', hq⟩ := hc
  have h := Simulated.runs hsim as hr
  have h' := Simulated.runs hsim as' hr'
  have hend := rel_foldlM hrel (labels step label as s) hq
  rw [hlabels] at h'
  cases hx : Execution.runs step as s with
  | error e =>
    rw [h.of_error hx] at hend
    rw [rel_none hend] at h'
    cases hx' : Execution.runs step as' s' with
    | error e' => exact .error e e'
    | ok u' =>
      rw [hx'] at h'
      cases h'
  | ok u =>
    obtain ⟨c, hc, hu⟩ := h.of_ok hx
    rw [hc] at hend
    obtain ⟨c', hc', hq'⟩ := rel_some hend
    obtain ⟨u', hx', hu'⟩ := h'.of_some hc'
    rw [hx']
    exact .ok ⟨c, c', hu, hu', hq'⟩

/-- **From one action to runs.**  If every action of a state has its counterpart in every
corresponding state, every run has. -/
theorem Corresponds.follow
    (hact : ∀ a s s', Corresponds R Q s s' → ∃ a', label a' s' = ρ (label a s)) (as : List A)
    {s s' : S} (hc : Corresponds R Q s s') :
    ∃ as', labels step label as' s' = (labels step label as s).map ρ := by
  induction as generalizing s s' with
  | nil => exact ⟨[], rfl⟩
  | cons a as ih =>
    obtain ⟨a', ha'⟩ := hact a s s' hc
    obtain ⟨t, t', hr, hr', hq⟩ := hc
    have h := hsim a s t hr
    have h' := hsim a' s' t' hr'
    have hend := hrel (label a s) t t' hq
    rw [ha'] at h'
    cases hx : step a s with
    | error e =>
      rw [h.of_error hx] at hend
      rw [rel_none hend] at h'
      cases hx' : step a' s' with
      | error e' => exact ⟨[a'], by rw [labels_error hx, labels_error hx', ha']; rfl⟩
      | ok u' =>
        rw [hx'] at h'
        cases h'
    | ok u =>
      obtain ⟨c, hc, hu⟩ := h.of_ok hx
      rw [hc] at hend
      obtain ⟨c', hc', hq'⟩ := rel_some hend
      obtain ⟨u', hx', hu'⟩ := h'.of_some hc'
      obtain ⟨as', has'⟩ := ih ⟨c, c', hu, hu', hq'⟩
      refine ⟨a' :: as', ?_⟩
      rw [labels_ok hx, labels_ok hx', ha', has', List.map_cons]

end

end Execution

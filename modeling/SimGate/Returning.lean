import SimGate.Schedule

/-!
# Every run returns

`run_returns`: a run ends on any map, whatever outputs its gates carry, and
neither throws nor fails an assertion.  A call recurses only into inputs whose
value is `Missing`; the number of missing gates falls with every level of the
recursion, except when a gate is evaluated again, and then nothing is missing
at its inputs (`Settled`).
-/

namespace SimGate

open Execution

namespace SimState

/-- A gate with neither a value nor a default in its stead. -/
def Missing (s : SimState) (id : Id) : Prop :=
  ∃ it, s.map.find? id = some it ∧ it.first.out = .unknown ∧ id ∉ s.sim.usedGates

/-- The ids wired to the two inputs, if the gate is there. -/
def inputsOf (s : SimState) (id : Id) : Option InputPair := (s.map.find? id).map Entry.second

/-- Nothing is missing at the inputs of a gate. -/
def Settled (s : SimState) (id : Id) : Prop :=
  ∀ a b, s.inputsOf id = some (a, b) → ¬ s.Missing a ∧ ¬ s.Missing b

/-- The wiring stays and no gate goes missing. -/
structure Grows (s s' : SimState) : Prop where
  inputs : ∀ id, s'.inputsOf id = s.inputsOf id
  missing : ∀ id, s'.Missing id → s.Missing id

theorem Grows.refl (s : SimState) : Grows s s := ⟨fun _ => rfl, fun _ h => h⟩

theorem Grows.trans {s t u : SimState} (h : Grows s t) (h' : Grows t u) : Grows s u :=
  ⟨fun id => (h'.inputs id).trans (h.inputs id), fun id hm => h.missing id (h'.missing id hm)⟩

theorem Settled.mono {s s' : SimState} {id : Id} (h : s.Settled id) (hg : Grows s s') :
    s'.Settled id := by
  intro a b hab
  rw [hg.inputs] at hab
  obtain ⟨ha, hb⟩ := h a b hab
  exact ⟨fun hm => ha (hg.missing a hm), fun hm => hb (hg.missing b hm)⟩

theorem inputsOf_eq_some {s : SimState} {id : Id} {it : Entry} (h : s.map.find? id = some it) :
    s.inputsOf id = some it.second := by simp [inputsOf, h]

/-! ## The parts of a call -/

/-- An input is looked up in vain exactly when it is missing; nothing but the
recorded levels changes. -/
theorem getValue_spec (s : SimState) (c : Id) :
    ((s.getValue c).1 = none ↔ s.Missing c) ∧ (s.getValue c).2.map = s.map ∧
      (s.getValue c).2.sim.usedGates = s.sim.usedGates ∧ (s.getValue c).2.trace = s.trace := by
  unfold getValue Missing
  cases hc : s.map.find? c with
  | none => simp
  | some it =>
    by_cases ho : it.first.out = .unknown
    · by_cases hu : c ∈ s.sim.usedGates <;> simp [ho, hu]
    · simp only [ho, ne_eq, not_false_eq_true, if_true]
      refine ⟨by simp [ho], ?_, ?_, ?_⟩ <;> split <;> rfl

theorem missing_of_eq {s s' : SimState} (hm : s'.map = s.map)
    (hu : s'.sim.usedGates = s.sim.usedGates) {id : Id} : s'.Missing id ↔ s.Missing id := by
  simp only [Missing, hm, hu]

theorem missing_enter {s : SimState} {id c : Id} :
    (s.enter id).Missing c ↔ s.Missing c ∧ c ≠ id := by
  simp only [Missing, enter, Finset.mem_insert, not_or]
  constructor
  · rintro ⟨it, hit, ho, hne, hu⟩
    exact ⟨⟨it, hit, ho, hu⟩, hne⟩
  · rintro ⟨⟨it, hit, ho, hu⟩, hne⟩
    exact ⟨it, hit, ho, hne, hu⟩

theorem inputsOf_finish {s : SimState} {id c : Id} {a b out : CommonValueOutput} :
    (s.finish id a b out).inputsOf c = s.inputsOf c := by
  simp only [inputsOf, finish, KeySet.find?_modify]
  split
  · cases s.map.find? c <;> rfl
  · rfl

theorem missing_finish {s : SimState} {id c : Id} {a b out : CommonValueOutput}
    (hout : out ≠ .unknown) : (s.finish id a b out).Missing c ↔ s.Missing c ∧ c ≠ id := by
  simp only [Missing, finish, KeySet.find?_modify]
  by_cases hc : c = id
  · subst hc
    cases s.map.find? c <;> simp [hout]
  · simp [hc]

theorem grows_finish {s : SimState} {id : Id} {a b out : CommonValueOutput}
    (hout : out ≠ .unknown) : Grows s (s.finish id a b out) :=
  ⟨fun _ => inputsOf_finish, fun _ hc => ((missing_finish hout).mp hc).1⟩

/-- What one call does: the gate is no longer missing, and every gate that went
is settled. -/
structure Returned (id : Id) (s s' : SimState) : Prop extends Grows s s' where
  self : ¬ s'.Missing id
  settled : ∀ n, s.Missing n → ¬ s'.Missing n → s'.Settled n

theorem force_returned {rec : Id → SimState → Except SimFault SimState}
    (ih : ∀ id s s', rec id s = .ok s' → Returned id s s') {v : Option CommonValueOutput} {c : Id}
    {s s' : SimState} {r : Option CommonValueOutput} (hv : s.Missing c → v = none)
    (h : force rec v c s = .ok (r, s')) : Returned c s s' := by
  rcases force_eq_ok h with ⟨hne, rfl⟩ | ⟨_, hrec⟩
  · exact ⟨.refl s', fun hm => hne (hv hm), fun n hn hn' => absurd hn hn'⟩
  · exact ih c s s' hrec

/-- The state in which both inputs have been looked up. -/
theorem lookedUp {s s₁ s₂ : SimState} {id a b : Id} {v₁ v₂ : Option CommonValueOutput}
    (h₁ : (s.enter id).getValue a = (v₁, s₁)) (h₂ : s₁.getValue b = (v₂, s₂)) :
    Grows s s₂ ∧ (∀ c, s₂.Missing c ↔ s.Missing c ∧ c ≠ id) ∧
      (v₁ = none ↔ s₂.Missing a) ∧ (v₂ = none ↔ s₂.Missing b) := by
  obtain ⟨hv₁, hm₁, hu₁, _⟩ := getValue_spec (s.enter id) a
  obtain ⟨hv₂, hm₂, hu₂, _⟩ := getValue_spec s₁ b
  rw [h₁] at hv₁ hm₁ hu₁
  rw [h₂] at hv₂ hm₂ hu₂
  have hmap : s₂.map = (s.enter id).map := hm₂.trans hm₁
  have hused : s₂.sim.usedGates = (s.enter id).sim.usedGates := hu₂.trans hu₁
  have hmiss : ∀ c, s₂.Missing c ↔ s.Missing c ∧ c ≠ id :=
    fun c => (missing_of_eq hmap hused).trans missing_enter
  refine ⟨⟨fun c => by rw [inputsOf, hmap]; rfl, fun c hc => ((hmiss c).mp hc).1⟩, hmiss, ?_, ?_⟩
  · exact hv₁.trans (missing_of_eq hmap hused).symm
  · exact hv₂.trans (missing_of_eq hm₂ hu₂).symm

theorem simulate_returned {fuel : Nat} {id : Id} {s s' : SimState}
    (h : simulate fuel id s = .ok s') : Returned id s s' := by
  induction fuel generalizing id s s' with
  | zero => cases h
  | succ fuel ih =>
    obtain ⟨it, v₁, s₁, v₂, s₂, x, s₃, y, s₄, hit, h₁, h₂, f₁, f₂, rfl⟩ := simulate_eq_ok.mp h
    obtain ⟨hg, hmiss, hv₁, hv₂⟩ := lookedUp h₁ h₂
    have r₁ := force_returned (fun _ _ _ => ih) hv₁.mpr f₁
    have r₂ := force_returned (fun _ _ _ => ih) (fun hm => hv₂.mpr (r₁.missing _ hm)) f₂
    have hout := levelOf_ne_unknown (getCallback it.first.type x y)
    have hmiss' : ∀ c, (s₄.finish id x y _).Missing c ↔ s₄.Missing c ∧ c ≠ id :=
      fun c => missing_finish hout
    have hfin : Grows s₄ (s₄.finish id x y _) := grows_finish hout
    have hend := r₂.toGrows.trans hfin
    refine ⟨(hg.trans r₁.toGrows).trans hend, fun hm => ((hmiss' id).mp hm).2 rfl,
      fun n hn hn' => ?_⟩
    by_cases hne : n = id
    · subst hne
      intro a b hab
      rw [hend.inputs, r₁.inputs, hg.inputs, inputsOf_eq_some hit] at hab
      obtain ⟨rfl, rfl⟩ := Prod.mk.inj (Option.some.inj hab)
      exact ⟨fun hm => r₁.self (hend.missing _ hm), fun hm => r₂.self (hfin.missing _ hm)⟩
    · -- the gate went while one of the inputs was evaluated
      by_cases h₃ : s₃.Missing n
      · exact (r₂.settled n h₃ fun hm => hn' ((hmiss' n).mpr ⟨hm, hne⟩)).mono hfin
      · exact (r₁.settled n ((hmiss n).mpr ⟨hn, hne⟩) h₃).mono hend

/-! ## Enough fuel -/

/-- The gates that are missing. -/
def missing (s : SimState) : Finset Id :=
  ((s.map.elems.filter fun it => it.first.out = .unknown ∧ it.id ∉ s.sim.usedGates).map
    Entry.id).toFinset

theorem mem_missing {s : SimState} {c : Id} : c ∈ s.missing ↔ s.Missing c := by
  simp only [missing, List.mem_toFinset, List.mem_map, List.mem_filter, decide_eq_true_eq]
  constructor
  · rintro ⟨it, ⟨hit, ho, hu⟩, rfl⟩
    exact ⟨it, KeySet.find?_of_mem hit, ho, hu⟩
  · rintro ⟨it, hit, ho, hu⟩
    have hid : it.id = c := KeySet.key_of_find? hit
    exact ⟨it, ⟨KeySet.mem_of_find? hit, ho, hid ▸ hu⟩, hid⟩

theorem Grows.missing_subset {s s' : SimState} (h : Grows s s') : s'.missing ⊆ s.missing :=
  fun _ hc => mem_missing.mpr (h.missing _ (mem_missing.mp hc))

theorem Missing.find {s : SimState} {c : Id} (h : s.Missing c) : ∃ it, s.map.find? c = some it :=
  ⟨h.choose, h.choose_spec.1⟩

/-- No gate leaves the map. -/
theorem Grows.find {s s' : SimState} (h : Grows s s') {c : Id}
    (hc : ∃ it, s.map.find? c = some it) : ∃ it, s'.map.find? c = some it := by
  obtain ⟨it, hit⟩ := hc
  have hin := h.inputs c
  rw [inputsOf_eq_some hit, inputsOf, Option.map_eq_some_iff] at hin
  obtain ⟨it', hit', _⟩ := hin
  exact ⟨it', hit'⟩

/-- An input that is missing is evaluated, if a call on it returns. -/
theorem force_total (rec : Id → SimState → Except SimFault SimState) {v : Option CommonValueOutput}
    {c : Id} {s : SimState} (hc : v = none → ∃ it, s.map.find? c = some it)
    (hrec : v = none → ∃ s', rec c s = .ok s' ∧ Returned c s s') :
    ∃ x s', force rec v c s = .ok (some x, s') := by
  cases v with
  | some v => exact ⟨v, s, rfl⟩
  | none =>
    obtain ⟨it, hit⟩ := hc rfl
    obtain ⟨s', hs', hr⟩ := hrec rfl
    obtain ⟨it', hit'⟩ := hr.find ⟨it, hit⟩
    exact ⟨it'.first.out, s', by simp [force, hit, hs', getOutput, hit', bind, Except.bind]⟩

/-- A settled gate is evaluated without recursion. -/
theorem simulate_settled (fuel : Nat) {id : Id} {s : SimState} {it : Entry}
    (hit : s.map.find? id = some it) (h : s.Settled id) :
    ∃ s', simulate (fuel + 1) id s = .ok s' := by
  obtain ⟨⟨v₁, s₁⟩, h₁⟩ : ∃ r, (s.enter id).getValue it.second.1 = r := ⟨_, rfl⟩
  obtain ⟨⟨v₂, s₂⟩, h₂⟩ : ∃ r, s₁.getValue it.second.2 = r := ⟨_, rfl⟩
  obtain ⟨_, hmiss, hv₁, hv₂⟩ := lookedUp h₁ h₂
  obtain ⟨hna, hnb⟩ := h _ _ (inputsOf_eq_some hit)
  obtain ⟨x, rfl⟩ := Option.ne_none_iff_exists'.mp fun hn => hna ((hmiss _).mp (hv₁.mp hn)).1
  obtain ⟨y, rfl⟩ := Option.ne_none_iff_exists'.mp fun hn => hnb ((hmiss _).mp (hv₂.mp hn)).1
  exact ⟨_, simulate_eq_ok.mpr ⟨it, _, s₁, _, s₂, x, s₂, y, s₂, hit, h₁, h₂, rfl, rfl, rfl⟩⟩

/-- **One call.**  Fuel above the number of other missing gates is enough. -/
theorem simulate_total {fuel : Nat} {id : Id} {s : SimState} {it : Entry}
    (hit : s.map.find? id = some it) (hf : (s.missing.erase id).card < fuel) :
    ∃ s', simulate fuel id s = .ok s' := by
  induction fuel generalizing id s it with
  | zero => exact absurd hf (Nat.not_lt_zero _)
  | succ fuel ih =>
    obtain ⟨⟨v₁, s₁⟩, h₁⟩ : ∃ r, (s.enter id).getValue it.second.1 = r := ⟨_, rfl⟩
    obtain ⟨⟨v₂, s₂⟩, h₂⟩ : ∃ r, s₁.getValue it.second.2 = r := ⟨_, rfl⟩
    obtain ⟨hg, hmiss, hv₁, hv₂⟩ := lookedUp h₁ h₂
    have hset : s₂.missing = s.missing.erase id := by
      ext c
      simp only [mem_missing, Finset.mem_erase, hmiss, and_comm]
    have hle : s₂.missing.card ≤ fuel := by rw [hset]; omega
    -- a missing input leaves one gate less to be missing
    have hcall : ∀ {t c}, Grows s₂ t → t.Missing c →
        ∃ t', simulate fuel c t = .ok t' ∧ Returned c t t' := by
      intro t c hgt hc
      obtain ⟨itc, hitc⟩ := hc.find
      have hlt := Finset.card_erase_lt_of_mem (mem_missing.mpr hc)
      have hsub := Finset.card_le_card hgt.missing_subset
      obtain ⟨t', ht'⟩ := ih hitc (by omega)
      exact ⟨t', ht', simulate_returned ht'⟩
    obtain ⟨x, s₃, f₁⟩ := force_total (simulate fuel) (v := v₁) (c := it.second.1) (s := s₂)
      (fun hn => (hv₁.mp hn).find) (fun hn => hcall (.refl s₂) (hv₁.mp hn))
    have r₁ := force_returned (fun _ _ _ => simulate_returned) hv₁.mpr f₁
    have hfind : v₂ = none → ∃ e, s₃.map.find? it.second.2 = some e :=
      fun hn => r₁.find (hv₂.mp hn).find
    obtain ⟨y, s₄, f₂⟩ := force_total (simulate fuel) (v := v₂) (c := it.second.2) (s := s₃)
      hfind fun hn => by
        by_cases hm : s₃.Missing it.second.2
        · exact hcall r₁.toGrows hm
        · -- the first input has evaluated the second one, which is settled now
          obtain ⟨e, he⟩ := hfind hn
          have hpos := Finset.card_pos.mpr ⟨_, mem_missing.mpr (hv₂.mp hn)⟩
          obtain ⟨k, rfl⟩ : ∃ k, fuel = k + 1 := ⟨fuel - 1, by omega⟩
          obtain ⟨t, ht⟩ := simulate_settled k he (r₁.settled _ (hv₂.mp hn) hm)
          exact ⟨t, ht, simulate_returned ht⟩
    exact ⟨_, simulate_eq_ok.mpr ⟨it, v₁, s₁, v₂, s₂, x, s₃, y, s₄, hit, h₁, h₂, f₁, f₂, rfl⟩⟩

theorem simLoop_total {fuel : Nat} {l : List Entry} {s : SimState}
    (hl : ∀ it ∈ l, ∃ e, s.map.find? it.id = some e) (hf : s.missing.card < fuel) :
    ∃ s', simLoop fuel l s = .ok s' := by
  have hturn : ∀ id ∈ (l.filter fun it => it.first.type = .output).map Entry.id,
      ∀ t, Grows s t → ∃ t', simulate fuel id t = .ok t' ∧ Grows s t' := by
    intro id hid t ht
    obtain ⟨it, hit, rfl⟩ := List.mem_map.mp hid
    obtain ⟨e, he⟩ := ht.find (hl it (List.mem_filter.mp hit).1)
    have hsub := Finset.card_le_card ht.missing_subset
    have hcard := Finset.card_le_card (Finset.erase_subset it.id t.missing)
    obtain ⟨t', ht'⟩ := simulate_total he (by omega : (t.missing.erase it.id).card < fuel)
    exact ⟨t', ht', ht.trans (simulate_returned ht').toGrows⟩
  obtain ⟨s', hs', _⟩ := foldlM_total hturn (.refl s)
  exact ⟨s', by rw [simLoop_eq_foldlM]; exact hs'⟩

end SimState

/-- **Every run returns**, whatever outputs the gates carry. -/
theorem run_returns (map : SimMap) :
    ∃ s, Returns (fun fuel => SimState.run fuel (.start map)) s := by
  obtain ⟨s, hs⟩ := SimState.simLoop_total (l := map.elems) (s := .start map)
    (fun it hit => ⟨it, KeySet.find?_of_mem hit⟩) (Nat.lt_succ_self _)
  exact ⟨s, SimState.run_returns hs⟩

end SimGate

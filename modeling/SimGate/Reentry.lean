import SimGate.Feedback
import SimGate.Returning

/-!
# Calls on used gates

Both inputs of a gate are looked up before either of them is evaluated, so `simulate`
is called on gates that it has marked before.  `Called` describes the calls of a run
by the state each starts in and by the gates that are being evaluated then.

* `Called.entering`: a gate in `m_usedGates` is either being evaluated or has been;
* `sim_expands_once`: a call on a used gate comes after the return of an earlier one
  and returns at once.
-/

namespace SimGate

open Execution

/-- The calls of `simulate` in a run on `map`: the gates that are being evaluated, the
innermost first, the gate that is called and the state it is called in. -/
inductive Called (map : SimMap) : List Id → Id → SimState → Prop
  | loop {fuel : Nat} {l rest : List Entry} {it : Entry} {s : SimState} :
      map.elems = l ++ it :: rest → it.first.type = .output →
      simLoop fuel l (.start map) = .ok s → Called map [] it.id s
  | input1 {stack : List Id} {id : Id} {s s₁ s₂ : SimState} {it : Entry}
      {val2 : Option CommonValueOutput} :
      Called map stack id s → s.map.find? id = some it →
      (s.enter id).getValue it.second.1 = (none, s₁) →
      s₁.getValue it.second.2 = (val2, s₂) → Called map (id :: stack) it.second.1 s₂
  | input2 {stack : List Id} {id : Id} {s s₁ s₂ s₃ : SimState} {it : Entry}
      {val1 val1' : Option CommonValueOutput} {fuel : Nat} :
      Called map stack id s → s.map.find? id = some it →
      (s.enter id).getValue it.second.1 = (val1, s₁) →
      s₁.getValue it.second.2 = (none, s₂) →
      force (simulate fuel) val1 it.second.1 s₂ = .ok (val1', s₃) →
      Called map (id :: stack) it.second.2 s₃

theorem Evaluated.mono {l l' : List Event} {n : Id} (h : Evaluated l n) (hp : l <+: l') :
    Evaluated l' n := by
  obtain ⟨a, b, hm⟩ := h
  exact ⟨a, b, hp.subset hm⟩

namespace SimState

/-! ## What a call marks -/

/-- Every gate that was marked in between has been evaluated, and nothing is missing
at its inputs. -/
structure Marked (s s' : SimState) : Prop extends Grows s s' where
  used : s.sim.usedGates ⊆ s'.sim.usedGates
  trace : s.trace <+: s'.trace
  called : ∀ n, .call n ∈ s'.trace → .call n ∈ s.trace ∨ n ∈ s'.sim.usedGates
  fresh : ∀ n ∈ s'.sim.usedGates, n ∉ s.sim.usedGates → Evaluated s'.trace n ∧ s'.Settled n

theorem Marked.refl (s : SimState) : Marked s s :=
  ⟨.refl s, fun _ h => h, List.prefix_refl _, fun _ h => Or.inl h, fun _ h h' => absurd h h'⟩

theorem Marked.trans {s t u : SimState} (h : Marked s t) (h' : Marked t u) : Marked s u where
  toGrows := h.toGrows.trans h'.toGrows
  used := h.used.trans h'.used
  trace := h.trace.trans h'.trace
  called n hn := by
    rcases h'.called n hn with hn | hn
    · exact (h.called n hn).imp_right fun hu => h'.used hu
    · exact Or.inr hn
  fresh n hn hs := by
    by_cases ht : n ∈ t.sim.usedGates
    · obtain ⟨he, hset⟩ := h.fresh n ht hs
      exact ⟨he.mono h'.trace, hset.mono h'.toGrows⟩
    · exact h'.fresh n hn ht

/-- Entering a gate marks it; the lookups of its inputs record nothing. -/
theorem lookedUp_trace {s s₁ s₂ : SimState} {id a b : Id} {v₁ v₂ : Option CommonValueOutput}
    (h₁ : (s.enter id).getValue a = (v₁, s₁)) (h₂ : s₁.getValue b = (v₂, s₂)) :
    s₂.sim.usedGates = insert id s.sim.usedGates ∧ s₂.trace = s.trace ++ [.call id] := by
  obtain ⟨_, _, hu₁, ht₁⟩ := getValue_spec (s.enter id) a
  obtain ⟨_, _, hu₂, ht₂⟩ := getValue_spec s₁ b
  rw [h₁] at hu₁ ht₁
  rw [h₂] at hu₂ ht₂
  exact ⟨hu₂.trans hu₁, ht₂.trans ht₁⟩

theorem force_marked {rec : Id → SimState → Except SimFault SimState}
    (ih : ∀ id s s', rec id s = .ok s' → Marked s s') {v : Option CommonValueOutput} {c : Id}
    {s s' : SimState} {r : Option CommonValueOutput} (h : force rec v c s = .ok (r, s')) :
    Marked s s' := by
  rcases force_eq_ok h with ⟨_, rfl⟩ | ⟨_, hrec⟩
  · exact .refl s'
  · exact ih c s s' hrec

theorem simulate_marked {fuel : Nat} {id : Id} {s s' : SimState}
    (h : simulate fuel id s = .ok s') : Marked s s' := by
  induction fuel generalizing id s s' with
  | zero => cases h
  | succ fuel ih =>
    obtain ⟨it, v₁, s₁, v₂, s₂, x, s₃, y, s₄, hit, h₁, h₂, f₁, f₂, rfl⟩ := simulate_eq_ok.mp h
    obtain ⟨hg, hmiss, hv₁, hv₂⟩ := lookedUp h₁ h₂
    obtain ⟨hused, htrace⟩ := lookedUp_trace h₁ h₂
    have r₁ := force_returned (fun _ _ _ => simulate_returned) hv₁.mpr f₁
    have r₂ := force_returned (fun _ _ _ => simulate_returned)
      (fun hm => hv₂.mpr (r₁.missing _ hm)) f₂
    have m : Marked s₂ s₄ := (force_marked (fun _ _ _ => ih) f₁).trans
      (force_marked (fun _ _ _ => ih) f₂)
    have hfin : Grows s₄ (s₄.finish id x y _) :=
      grows_finish (levelOf_ne_unknown (getCallback it.first.type x y))
    have hend : s₄.trace <+: s₄.trace ++ [.done id x y] := List.prefix_append ..
    refine ⟨(hg.trans m.toGrows).trans hfin, fun n hn => m.used ?_, ?_, fun n hn => ?_,
      fun n hn hns => ?_⟩
    · rw [hused]
      exact Finset.mem_insert_of_mem hn
    · exact ((List.prefix_append ..).trans (htrace ▸ m.trace)).trans hend
    · have hn' : .call n ∈ s₄.trace := by simpa [finish] using hn
      rcases m.called n hn' with hc | hu
      · rw [htrace, List.mem_append, List.mem_singleton] at hc
        refine hc.imp_right fun he => m.used ?_
        cases he
        rw [hused]
        exact Finset.mem_insert_self ..
      · exact Or.inr hu
    · by_cases hne : n = id
      · subst hne
        refine ⟨⟨x, y, by simp [finish]⟩, fun a b hab => ?_⟩
        rw [hfin.inputs, m.inputs, hg.inputs, inputsOf_eq_some hit] at hab
        obtain ⟨rfl, rfl⟩ := Prod.mk.inj (Option.some.inj hab)
        exact ⟨fun hm => r₁.self (r₂.missing _ (hfin.missing _ hm)),
          fun hm => r₂.self (hfin.missing _ hm)⟩
      · -- the gate was marked while one of the inputs was evaluated
        have hns₂ : n ∉ s₂.sim.usedGates := by
          rw [hused, Finset.mem_insert, not_or]
          exact ⟨hne, hns⟩
        obtain ⟨he, hset⟩ := m.fresh n hn hns₂
        exact ⟨he.mono hend, hset.mono hfin⟩

theorem simLoop_marked {fuel : Nat} {l : List Entry} {s s' : SimState}
    (h : simLoop fuel l s = .ok s') : Marked s s' :=
  simLoop_invariant (I := Marked s) (fun _ _ _ hm ht => hm.trans (simulate_marked ht)) (.refl s) h

/-! ## Where a call is made -/

/-- What holds when `simulate` is called on `id` below the calls on `stack`: a used
gate is being evaluated or has been, and `id` is not being evaluated. -/
structure Entering (stack : List Id) (id : Id) (s : SimState) : Prop where
  find : ∃ it, s.map.find? id = some it
  called : ∀ n, .call n ∈ s.trace → n ∈ s.sim.usedGates
  used : ∀ n ∈ s.sim.usedGates, n ∈ stack ∨ Evaluated s.trace n ∧ s.Settled n
  active : ∀ n ∈ stack, n ∈ s.sim.usedGates
  outside : id ∈ s.sim.usedGates → id ∉ stack

/-- A used gate that is called has been evaluated. -/
theorem Entering.evaluated {stack : List Id} {id : Id} {s : SimState} (h : Entering stack id s)
    (hu : id ∈ s.sim.usedGates) : Evaluated s.trace id ∧ s.Settled id :=
  (h.used id hu).resolve_left (h.outside hu)

/-- Between the gates of the loop nothing is being evaluated. -/
theorem Marked.entering {map : SimMap} {s : SimState} (h : Marked (.start map) s) {id : Id}
    (hfind : ∃ it, map.find? id = some it) : Entering [] id s where
  find := h.find hfind
  called n hn := (h.called n hn).resolve_left List.not_mem_nil
  used n hn := Or.inr (h.fresh n hn (Finset.notMem_empty n))
  active _ hn := absurd hn List.not_mem_nil
  outside _ := List.not_mem_nil

/-- Once both inputs have been looked up, a missing one may be evaluated. -/
theorem Entering.input {stack : List Id} {id a b : Id} {s s₁ s₂ : SimState}
    {v₁ v₂ : Option CommonValueOutput} (h : Entering stack id s)
    (h₁ : (s.enter id).getValue a = (v₁, s₁)) (h₂ : s₁.getValue b = (v₂, s₂)) {c : Id}
    (hc : s₂.Missing c) : Entering (id :: stack) c s₂ := by
  obtain ⟨hg, _⟩ := lookedUp h₁ h₂
  obtain ⟨hused, htrace⟩ := lookedUp_trace h₁ h₂
  have hcu : c ∉ s₂.sim.usedGates := hc.choose_spec.2.2
  refine ⟨hc.find, fun n hn => ?_, fun n hn => ?_, fun n hn => ?_, fun hu => absurd hu hcu⟩
  · rw [htrace, List.mem_append, List.mem_singleton] at hn
    rw [hused, Finset.mem_insert]
    rcases hn with hn | hn
    · exact Or.inr (h.called n hn)
    · cases hn
      exact Or.inl rfl
  · rw [hused, Finset.mem_insert] at hn
    rcases hn with rfl | hn
    · exact Or.inl (List.mem_cons_self ..)
    · refine (h.used n hn).imp (List.mem_cons_of_mem id) fun hd => ⟨?_, hd.2.mono hg⟩
      exact hd.1.mono (htrace ▸ List.prefix_append ..)
  · rw [hused, Finset.mem_insert]
    exact (List.mem_cons.mp hn).imp_right (h.active n)

/-- While the first input is evaluated, other gates are marked and evaluated. -/
theorem Entering.marked {stack : List Id} {id : Id} {s s' : SimState} (h : Entering stack id s)
    (hid : id ∉ s.sim.usedGates) (hm : Marked s s') : Entering stack id s' where
  find := hm.find h.find
  called n hn := (hm.called n hn).elim (fun hc => hm.used (h.called n hc)) fun hu => hu
  used n hn := by
    by_cases hs : n ∈ s.sim.usedGates
    · exact (h.used n hs).imp_right fun hd =>
        ⟨hd.1.mono hm.trace, hd.2.mono hm.toGrows⟩
    · exact Or.inr (hm.fresh n hn hs)
  active n hn := hm.used (h.active n hn)
  outside _ hs := hid (h.active id hs)

end SimState

open SimState

theorem Called.entering {map : SimMap} {stack : List Id} {id : Id} {s : SimState}
    (h : Called map stack id s) : Entering stack id s := by
  induction h with
  | @loop fuel l rest it s hl _ hrun =>
    have hit : it ∈ map.elems := by simp [hl]
    exact (simLoop_marked hrun).entering ⟨it, KeySet.find?_of_mem hit⟩
  | input1 _ _ h₁ h₂ ih =>
    obtain ⟨_, _, hv₁, _⟩ := lookedUp h₁ h₂
    exact ih.input h₁ h₂ (hv₁.mp rfl)
  | input2 _ _ h₁ h₂ hf ih =>
    -- the second input was not used when it was looked up
    obtain ⟨_, _, _, hv₂⟩ := lookedUp h₁ h₂
    have hmiss := hv₂.mp rfl
    exact (ih.input h₁ h₂ hmiss).marked hmiss.choose_spec.2.2
      (force_marked (fun _ _ _ => simulate_marked) hf)

/-! ## The calls behind a trace -/

/-- A call on a settled gate returns at once. -/
theorem SimState.Settled.trace {fuel : Nat} {id : Id} {s s' : SimState} (hset : s.Settled id)
    (h : simulate fuel id s = .ok s') : ∃ a b, s'.trace = s.trace ++ [.call id, .done id a b] := by
  cases fuel with
  | zero => cases h
  | succ fuel =>
    obtain ⟨it, v₁, s₁, v₂, s₂, x, s₃, y, s₄, hit, h₁, h₂, f₁, f₂, rfl⟩ := simulate_eq_ok.mp h
    obtain ⟨_, hmiss, hv₁, hv₂⟩ := lookedUp h₁ h₂
    obtain ⟨_, htrace⟩ := lookedUp_trace h₁ h₂
    obtain ⟨hna, hnb⟩ := hset _ _ (inputsOf_eq_some hit)
    obtain ⟨x', rfl⟩ := Option.ne_none_iff_exists'.mp fun hn => hna ((hmiss _).mp (hv₁.mp hn)).1
    obtain ⟨y', rfl⟩ := Option.ne_none_iff_exists'.mp fun hn => hnb ((hmiss _).mp (hv₂.mp hn)).1
    cases f₁
    cases f₂
    exact ⟨x, y, by simp [finish, htrace]⟩

/-- Every call recorded between `s` and `s'` is one of the run, made where the trace
is what had been recorded until then, and has returned. -/
def CallsFrom (map : SimMap) (s s' : SimState) : Prop :=
  ∀ n id, s.trace.length ≤ n → s'.trace[n]? = some (.call id) →
    ∃ stack t t' fuel, Called map stack id t ∧ simulate fuel id t = .ok t' ∧
      t.trace = s'.trace.take n ∧ t'.trace <+: s'.trace

namespace CallsFrom

variable {map : SimMap} {s t u : SimState}

protected theorem refl (s : SimState) : CallsFrom map s s := by
  intro n id hn hc
  rw [List.getElem?_eq_none hn] at hc
  cases hc

theorem trans (h : CallsFrom map s t) (h' : CallsFrom map t u) (hp : t.trace <+: u.trace) :
    CallsFrom map s u := by
  intro n id hn hc
  rcases Nat.lt_or_ge n t.trace.length with hlt | hge
  · obtain ⟨q, hq⟩ := hp
    have hget : t.trace[n]? = some (.call id) := by
      rw [← hc, ← hq, List.getElem?_append_left hlt]
    obtain ⟨stack, v, v', fuel, hcalled, hrun, htake, hpre⟩ := h n id hn hget
    refine ⟨stack, v, v', fuel, hcalled, hrun, ?_, hpre.trans ⟨q, hq⟩⟩
    rw [htake, ← hq, List.take_append_of_le_length (Nat.le_of_lt hlt)]
  · exact h' n id hge hc

/-- Finishing a gate is not a call. -/
theorem finish (id : Id) (a b out : CommonValueOutput) : CallsFrom map s (s.finish id a b out) := by
  intro n c hn hc
  have hget : (s.trace ++ [Event.done id a b])[n]? = some (.call c) := hc
  rw [List.getElem?_append_right hn, List.getElem?_singleton] at hget
  split at hget <;> cases hget

theorem force {fuel : Nat} {v r : Option CommonValueOutput} {c : Id}
    (ih : ∀ t, v = none → simulate fuel c s = .ok t → CallsFrom map s t)
    (h : SimGate.force (simulate fuel) v c s = .ok (r, t)) : CallsFrom map s t := by
  rcases force_eq_ok h with ⟨_, rfl⟩ | ⟨hv, hrec⟩
  · exact .refl t
  · exact ih t hv hrec

end CallsFrom

theorem simulate_callsFrom {map : SimMap} {fuel : Nat} {stack : List Id} {id : Id}
    {s s' : SimState} (hc : Called map stack id s) (h : simulate fuel id s = .ok s') :
    CallsFrom map s s' := by
  induction fuel generalizing stack id s s' with
  | zero => cases h
  | succ fuel ih =>
    have hprefix := (simulate_marked h).trace
    intro n c hn hget
    obtain ⟨it, v₁, s₁, v₂, s₂, x, s₃, y, s₄, hit, h₁, h₂, f₁, f₂, hs'⟩ := simulate_eq_ok.mp h
    obtain ⟨_, htrace⟩ := lookedUp_trace h₁ h₂
    have m₁ := force_marked (fun _ _ _ => simulate_marked) f₁
    have m₂ := force_marked (fun _ _ _ => simulate_marked) f₂
    have hend : s₄.trace <+: s'.trace := by
      rw [hs']
      exact List.prefix_append ..
    rcases Nat.eq_or_lt_of_le hn with rfl | hlt
    · -- the call itself
      have hcall : s.trace ++ [.call id] <+: s'.trace :=
        (htrace ▸ (m₁.trans m₂).trace).trans hend
      obtain ⟨q, hq⟩ := hcall
      rw [← hq] at hget
      have hid : id = c := by simpa using hget
      subst hid
      exact ⟨stack, s, s', fuel + 1, hc, h, List.prefix_iff_eq_take.mp hprefix,
        List.prefix_refl _⟩
    · have c₁ : CallsFrom map s₂ s₃ := .force
        (fun t hv ht => ih (.input1 hc hit (hv ▸ h₁) h₂) ht) f₁
      have c₂ : CallsFrom map s₃ s₄ := .force
        (fun t hv ht => ih (.input2 hc hit h₁ (hv ▸ h₂) f₁) ht) f₂
      have c₃ : CallsFrom map s₄ s' := hs' ▸ .finish id x y _
      refine ((c₁.trans c₂ m₂.trace).trans c₃ hend) n c ?_ hget
      rw [htrace, List.length_append, List.length_singleton]
      exact hlt

theorem simLoop_callsFrom {map : SimMap} {fuel : Nat} {l l' : List Entry} {s s' : SimState}
    (hl : map.elems = l ++ l') (hs : simLoop fuel l (.start map) = .ok s)
    (h : simLoop fuel l' s = .ok s') : CallsFrom map s s' := by
  induction l' generalizing l s with
  | nil =>
    cases h
    exact .refl _
  | cons it l' ih =>
    have hl' : map.elems = (l ++ [it]) ++ l' := by rw [hl, List.append_assoc]; rfl
    rw [simLoop] at h
    split at h
    · next ho =>
      obtain ⟨t, ht, h⟩ := bind_eq_ok h
      have hstep : simLoop fuel (l ++ [it]) (.start map) = .ok t := by
        rw [simLoop_append, hs]
        show simLoop fuel [it] s = _
        rw [simLoop, if_pos ho, ht]
        rfl
      exact (simulate_callsFrom (.loop hl ho hs) ht).trans (ih hl' hstep h) (simLoop_marked h).trace
    · next ho =>
      refine ih hl' ?_ h
      rw [simLoop_append, hs]
      show simLoop fuel [it] s = _
      rw [simLoop, if_neg ho]
      rfl

/-! ## Expansion -/

/-- The `n`-th event is a call on `id` that calls `simulate` in turn. -/
def Expands (l : List Event) (n : Nat) (id : Id) : Prop :=
  l[n]? = some (.call id) ∧ ∃ c, l[n + 1]? = some (.call c)

/-- A call on a used gate is made outside the gate's evaluation and after it, and one
unit of fuel is enough for it: it does not call `simulate` in turn. -/
theorem Called.reentry {map : SimMap} {stack : List Id} {id : Id} {s : SimState}
    (h : Called map stack id s) (hu : id ∈ s.sim.usedGates) :
    id ∉ stack ∧ Evaluated s.trace id ∧ ∃ s' a b, simulate 1 id s = .ok s' ∧
      s'.trace = s.trace ++ [.call id, .done id a b] := by
  have he := h.entering
  obtain ⟨hev, hset⟩ := he.evaluated hu
  obtain ⟨it, hit⟩ := he.find
  obtain ⟨s', hs'⟩ := simulate_settled 0 hit hset
  obtain ⟨a, b, htrace⟩ := hset.trace hs'
  exact ⟨he.outside hu, hev, s', a, b, hs', htrace⟩

/-- A gate that has been called before does not call `simulate` again. -/
theorem CallsFrom.expands_le {map : SimMap} {s : SimState} (h : CallsFrom map (.start map) s)
    {n m : Nat} {id : Id} (hn : Expands s.trace n id) (hm : Expands s.trace m id) : m ≤ n := by
  by_contra hnm
  rw [Nat.not_le] at hnm
  obtain ⟨hget, c, hnext⟩ := hm
  obtain ⟨stack, t, t', fuel, hc, hsim, htake, q, hq⟩ := h m id (Nat.zero_le m) hget
  have he := hc.entering
  have hmem : .call id ∈ t.trace := by
    rw [htake]
    exact List.mem_of_getElem? (by rw [List.getElem?_take_of_lt hnm, hn.1])
  obtain ⟨_, hset⟩ := he.evaluated (he.called id hmem)
  obtain ⟨a, b, htrace⟩ := hset.trace hsim
  have hlen : t.trace.length = m := by
    rw [htake, List.length_take]
    exact Nat.min_eq_left (Nat.le_of_lt (List.getElem?_eq_some_iff.mp hget).1)
  rw [← hq, htrace, ← hlen] at hnext
  simp at hnext

/-- **Calls on used gates.**  Whenever a run calls `simulate` on a gate that is in
`m_usedGates`, the gate is not being evaluated, an earlier call on it has returned, and
the new one returns without calling `simulate`; so no gate is expanded twice. -/
theorem sim_expands_once (map : SimMap) :
    (∀ stack id s, Called map stack id s → id ∈ s.sim.usedGates →
      id ∉ stack ∧ Evaluated s.trace id ∧ ∃ s' a b, simulate 1 id s = .ok s' ∧
        s'.trace = s.trace ++ [.call id, .done id a b]) ∧
    ∃ s, Returns (fun fuel => SimState.run fuel (.start map)) s ∧
      (∀ n id, s.trace[n]? = some (.call id) →
        ∃ stack t, Called map stack id t ∧ t.trace = s.trace.take n) ∧
      ∀ n m id, Expands s.trace n id → Expands s.trace m id → n = m := by
  refine ⟨fun _ _ _ h hu => h.reentry hu, ?_⟩
  obtain ⟨s, fuel, hfuel⟩ := run_returns map
  have hrun : simLoop fuel map.elems (.start map) = .ok s := hfuel fuel (Nat.le_refl _)
  have hcalls : CallsFrom map (.start map) s := simLoop_callsFrom (l := []) rfl rfl hrun
  refine ⟨s, ⟨fuel, hfuel⟩, fun n id hget => ?_, fun n m id hn hm => ?_⟩
  · obtain ⟨stack, t, _, _, hc, _, htake, _⟩ := hcalls n id (Nat.zero_le n) hget
    exact ⟨stack, t, hc, htake⟩
  · exact Nat.le_antisymm (hcalls.expands_le hm hn) (hcalls.expands_le hn hm)

end SimGate

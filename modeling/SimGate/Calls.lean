import SimGate.Reentry
import SimGate.TruthTable

/-!
# What a simulation costs

`simulate` recurses, and it is called on gates it has marked before.  Still the gates
that are being evaluated at one time are distinct, and a gate calls `simulate` for its
inputs only once; a call pays with the mark that it leaves.

* `sim_cost`: how deep and how often `simulate` is called for a map;
* `table_cost`: how deep it is called for a table.
-/

namespace SimGate

open Execution SimState

/-! ## The depth of the recursion -/

theorem force_of_ok {rec rec' : Id → SimState → Except SimFault SimState}
    {v : Option CommonValueOutput} {c : Id} {s : SimState}
    {r : Option CommonValueOutput × SimState}
    (h : v = none → ∀ t, rec c s = .ok t → rec' c s = .ok t) (hf : force rec v c s = .ok r) :
    force rec' v c s = .ok r := by
  cases v with
  | some v => exact hf
  | none =>
    simp only [force] at hf ⊢
    split at hf
    · cases hf
    · next hfind =>
      obtain ⟨t, ht, hr⟩ := bind_eq_ok hf
      rw [if_neg hfind, h rfl t ht]
      exact hr

theorem SimState.Grows.mem_keys {map : SimMap} {s : SimState} (h : Grows (.start map) s) {id : Id}
    {it : Entry} (hit : s.map.find? id = some it) : id ∈ map.elems.map Entry.id := by
  have hin := h.inputs id
  rw [inputsOf_eq_some hit] at hin
  obtain ⟨it', hit', _⟩ := Option.map_eq_some_iff.mp hin.symm
  exact List.mem_map.mpr ⟨it', KeySet.mem_of_find? hit', KeySet.key_of_find? hit'⟩

namespace Called

variable {map : SimMap} {stack : List Id} {id : Id} {s : SimState}

theorem grows (h : Called map stack id s) : Grows (.start map) s := by
  induction h with
  | loop _ _ hrun => exact (simLoop_marked hrun).toGrows
  | input1 _ _ h₁ h₂ ih => exact ih.trans (lookedUp h₁ h₂).1
  | input2 _ _ h₁ h₂ hf ih =>
    have hm := force_marked (fun _ _ _ => simulate_marked) hf
    exact (ih.trans (lookedUp h₁ h₂).1).trans hm.toGrows

/-- The gate that is called is none of those that are being evaluated. -/
theorem not_mem_stack (h : Called map stack id s) : id ∉ stack := fun hid =>
  h.entering.outside (h.entering.active id hid) hid

theorem nodup (h : Called map stack id s) : (id :: stack).Nodup := by
  induction h with
  | loop => exact List.nodup_singleton _
  | input1 hc hit h₁ h₂ ih => exact List.nodup_cons.mpr ⟨(input1 hc hit h₁ h₂).not_mem_stack, ih⟩
  | input2 hc hit h₁ h₂ hf ih =>
    exact List.nodup_cons.mpr ⟨(input2 hc hit h₁ h₂ hf).not_mem_stack, ih⟩

theorem mem_keys (h : Called map stack id s) : id ∈ map.elems.map Entry.id := by
  obtain ⟨it, hit⟩ := h.entering.find
  exact h.grows.mem_keys hit

theorem subset_keys (h : Called map stack id s) : id :: stack ⊆ map.elems.map Entry.id := by
  have hcons : ∀ {c : Id} {l : List Id}, c ∈ map.elems.map Entry.id →
      l ⊆ map.elems.map Entry.id → c :: l ⊆ map.elems.map Entry.id := fun hc hl =>
    List.cons_subset.mpr ⟨hc, hl⟩
  induction h with
  | loop hl ho hrun => exact hcons (loop hl ho hrun).mem_keys (List.nil_subset _)
  | input1 hc hit h₁ h₂ ih => exact hcons (input1 hc hit h₁ h₂).mem_keys ih
  | input2 hc hit h₁ h₂ hf ih => exact hcons (input2 hc hit h₁ h₂ hf).mem_keys ih

/-- No more calls are open than the map has gates. -/
theorem depth_le (h : Called map stack id s) : stack.length + 1 ≤ map.elems.length := by
  have hsub := (h.nodup.subperm h.subset_keys).length_le
  rwa [List.length_cons, List.length_map] at hsub

/-- So the call returns with fuel for the gates that are not being evaluated. -/
theorem shallow {fuel fuel' : Nat} {s' : SimState} (hc : Called map stack id s)
    (h : simulate fuel id s = .ok s') (hfuel : map.elems.length ≤ stack.length + fuel') :
    simulate fuel' id s = .ok s' := by
  induction fuel generalizing stack id s s' fuel' with
  | zero => cases h
  | succ fuel ih =>
    have hdepth := hc.depth_le
    obtain ⟨fuel', rfl⟩ : ∃ n, fuel' = n + 1 := ⟨fuel' - 1, by omega⟩
    obtain ⟨it, v₁, s₁, v₂, s₂, x, s₃, y, s₄, hit, h₁, h₂, f₁, f₂, rfl⟩ := simulate_eq_ok.mp h
    have hfuel' : map.elems.length ≤ (id :: stack).length + fuel' := by
      rw [List.length_cons]
      omega
    refine simulate_eq_ok.mpr ⟨it, v₁, s₁, v₂, s₂, x, s₃, y, s₄, hit, h₁, h₂, ?_, ?_, rfl⟩
    · exact force_of_ok (fun hv t ht => ih (.input1 hc hit (hv ▸ h₁) h₂) ht hfuel') f₁
    · exact force_of_ok (fun hv t ht => ih (.input2 hc hit h₁ (hv ▸ h₂) f₁) ht hfuel') f₂

end Called

/-! ## The number of calls -/

def Event.isCall : Event → Bool
  | .call _ => true
  | .done .. => false

namespace SimState

def calls (s : SimState) : Nat := s.trace.countP Event.isCall

/-- Every call is paid for: one by the caller, and two for each gate that was marked. -/
def Paid (paid : Nat) (s s' : SimState) : Prop :=
  s'.calls + 2 * s.sim.usedGates.card ≤ s.calls + paid + 2 * s'.sim.usedGates.card

theorem Paid.trans {m n : Nat} {s t u : SimState} (h : Paid m s t) (h' : Paid n t u) :
    Paid (m + n) s u := by
  unfold Paid at *
  omega

theorem Paid.force {fuel : Nat} {v r : Option CommonValueOutput} {c : Id} {s t : SimState}
    (ih : ∀ t, v = none → simulate fuel c s = .ok t → Paid 1 s t)
    (h : SimGate.force (simulate fuel) v c s = .ok (r, t)) : Paid 1 s t := by
  rcases force_eq_ok h with ⟨_, rfl⟩ | ⟨hv, hrec⟩
  · unfold Paid
    omega
  · exact ih t hv hrec

theorem simulate_paid {map : SimMap} {fuel : Nat} {stack : List Id} {id : Id} {s s' : SimState}
    (hc : Called map stack id s) (h : simulate fuel id s = .ok s') : Paid 1 s s' := by
  induction fuel generalizing stack id s s' with
  | zero => cases h
  | succ fuel ih =>
    by_cases hu : id ∈ s.sim.usedGates
    · -- the gate is settled: the call is the only one
      obtain ⟨_, hset⟩ := hc.entering.evaluated hu
      obtain ⟨a, b, htrace⟩ := hset.trace h
      have hcard := Finset.card_le_card (simulate_marked h).used
      have hcalls : s'.calls = s.calls + 1 := by
        rw [calls, htrace, List.countP_append]
        rfl
      unfold Paid
      omega
    · -- the mark of the gate pays for both of its inputs
      obtain ⟨it, v₁, s₁, v₂, s₂, x, s₃, y, s₄, hit, h₁, h₂, f₁, f₂, rfl⟩ := simulate_eq_ok.mp h
      obtain ⟨hused, htrace⟩ := lookedUp_trace h₁ h₂
      have hcard : s₂.sim.usedGates.card = s.sim.usedGates.card + 1 := by
        rw [hused, Finset.card_insert_of_notMem hu]
      have hcalls : s₂.calls = s.calls + 1 := by
        simp [calls, htrace, Event.isCall]
      have p₁ : Paid 1 s₂ s₃ := .force
        (fun t hv ht => ih (.input1 hc hit (hv ▸ h₁) h₂) ht) f₁
      have p₂ : Paid 1 s₃ s₄ := .force
        (fun t hv ht => ih (.input2 hc hit h₁ (hv ▸ h₂) f₁) ht) f₂
      have hpaid := p₁.trans p₂
      have hfinish : (s₄.finish id x y (levelOf (getCallback it.first.type x y))).calls =
          s₄.calls := by
        simp [calls, finish, Event.isCall]
      unfold Paid at *
      rw [hfinish]
      simp only [finish]
      omega

theorem simLoop_cost {map : SimMap} {fuel fuel' : Nat} {l l' : List Entry} {s s' : SimState}
    (hl : map.elems = l ++ l') (hs : simLoop fuel l (.start map) = .ok s)
    (h : simLoop fuel l' s = .ok s') (hfuel : map.elems.length ≤ fuel') :
    simLoop fuel' l' s = .ok s' ∧
      Paid (l'.countP fun it => it.first.type = .output) s s' := by
  induction l' generalizing l s with
  | nil =>
    cases h
    exact ⟨rfl, by unfold Paid; omega⟩
  | cons it l' ih =>
    have hl' : map.elems = (l ++ [it]) ++ l' := by rw [hl, List.append_assoc]; rfl
    rw [simLoop] at h ⊢
    split at h
    · next ho =>
      obtain ⟨t, ht, h⟩ := bind_eq_ok h
      have hstep : simLoop fuel (l ++ [it]) (.start map) = .ok t := by
        rw [simLoop_append, hs]
        show simLoop fuel [it] s = _
        rw [simLoop, if_pos ho, ht]
        rfl
      have hc : Called map [] it.id s := .loop hl ho hs
      obtain ⟨hrun, hpaid⟩ := ih hl' hstep h
      refine ⟨?_, ?_⟩
      · rw [if_pos ho, hc.shallow ht (by simpa using hfuel)]
        exact hrun
      · rw [List.countP_cons_of_pos (by simpa using ho), Nat.add_comm]
        exact (simulate_paid hc ht).trans hpaid
    · next ho =>
      have hstep : simLoop fuel (l ++ [it]) (.start map) = .ok s := by
        rw [simLoop_append, hs]
        show simLoop fuel [it] s = _
        rw [simLoop, if_neg ho]
        rfl
      rw [if_neg ho, List.countP_cons_of_neg (by simpa using ho)]
      exact ih hl' hstep h

/-- Only gates of the map are marked. -/
def UsedIn (map : SimMap) (s : SimState) : Prop :=
  Grows (.start map) s ∧ ∀ n ∈ s.sim.usedGates, n ∈ map.elems.map Entry.id

theorem simulate_usedIn {map : SimMap} {fuel : Nat} {id : Id} {s s' : SimState}
    (hs : UsedIn map s) (h : simulate fuel id s = .ok s') : UsedIn map s' := by
  induction fuel generalizing id s s' with
  | zero => cases h
  | succ fuel ih =>
    obtain ⟨it, v₁, s₁, v₂, s₂, x, s₃, y, s₄, hit, h₁, h₂, f₁, f₂, rfl⟩ := simulate_eq_ok.mp h
    obtain ⟨hused, _⟩ := lookedUp_trace h₁ h₂
    have hforce : ∀ {v r c t t'}, force (simulate fuel) v c t = .ok (r, t') → UsedIn map t →
        UsedIn map t' := by
      intro v r c t t' hf ht
      rcases force_eq_ok hf with ⟨_, rfl⟩ | ⟨_, hrec⟩
      · exact ht
      · exact ih ht hrec
    have hentered : UsedIn map s₂ := by
      refine ⟨hs.1.trans (lookedUp h₁ h₂).1, fun n hn => ?_⟩
      rw [hused, Finset.mem_insert] at hn
      rcases hn with rfl | hn
      · exact hs.1.mem_keys hit
      · exact hs.2 n hn
    obtain ⟨hg, hkeys⟩ := hforce f₂ (hforce f₁ hentered)
    exact ⟨hg.trans (grows_finish (levelOf_ne_unknown _)), hkeys⟩

theorem UsedIn.card_le {map : SimMap} {s : SimState} (h : UsedIn map s) :
    s.sim.usedGates.card ≤ map.elems.length := by
  have hsub : s.sim.usedGates ⊆ (map.elems.map Entry.id).toFinset := fun n hn =>
    List.mem_toFinset.mpr (h.2 n hn)
  calc s.sim.usedGates.card ≤ (map.elems.map Entry.id).toFinset.card := Finset.card_le_card hsub
    _ ≤ (map.elems.map Entry.id).length := List.toFinset_card_le _
    _ = map.elems.length := List.length_map _

end SimState

/-- A run that returns does so with fuel for every gate, and every call is paid for. -/
theorem run_cost {map : SimMap} {fuel fuel' : Nat} {s : SimState}
    (h : SimState.run fuel (.start map) = .ok s) (hfuel : map.elems.length ≤ fuel') :
    SimState.run fuel' (.start map) = .ok s ∧
      Paid (map.elems.countP fun it => it.first.type = .output) (.start map) s :=
  simLoop_cost (l := []) rfl rfl h hfuel

/-- **The cost of a simulation.**  No more gates are open at one time than the map has,
so that much recursion is enough, and `simulate` is called in all at most as often as there
are `OUTPUT` gates and twice as many gates as the map has, though it may be called more than
twice for one of them. -/
theorem sim_cost (map : SimMap) :
    (∀ stack id s, Called map stack id s → stack.length + 1 ≤ map.elems.length) ∧
    ∃ s, (∀ fuel, map.elems.length ≤ fuel → SimState.run fuel (.start map) = .ok s) ∧
      s.calls ≤ map.outputs.length + 2 * map.elems.length := by
  refine ⟨fun _ _ _ h => h.depth_le, ?_⟩
  obtain ⟨s, N, hN⟩ := run_returns map
  have hrun : SimState.run N (.start map) = .ok s := hN N (Nat.le_refl N)
  refine ⟨s, fun fuel hfuel => (run_cost hrun hfuel).1, ?_⟩
  have hused : UsedIn map s := simLoop_invariant (fun _ _ _ => simulate_usedIn)
    ⟨.refl _, fun n hn => absurd hn (Finset.notMem_empty n)⟩ hrun
  have hpaid := (run_cost hrun (Nat.le_refl _)).2
  have hout : map.elems.countP (fun it => it.first.type = .output) = map.outputs.length := by
    rw [SimMap.outputs, List.length_map, List.countP_eq_length_filter]
  calc s.calls ≤ s.calls + 2 * (SimState.start map).sim.usedGates.card := Nat.le_add_right ..
    _ ≤ 0 + map.outputs.length + 2 * s.sim.usedGates.card := hout ▸ hpaid
    _ ≤ map.outputs.length + 2 * map.elems.length := by
      have hcard := hused.card_le
      omega

/-! ## The depth of a table -/

theorem run_length {map : SimMap} (hf : map.Fresh) {fuel : Nat} {s : SimState}
    (h : SimState.run fuel (.start map) = .ok s) : s.map.elems.length = map.elems.length := by
  obtain ⟨t, _, _, _, _, href, hret⟩ := run_refines hf.ready
  rw [(SimState.run_returns h).unique hret, href.map]
  exact List.length_map _

/-- No run of a table recurses deeper than the gates of the map. -/
theorem combinationLoop_shallow {fuel fuel' : Nat} {is : List Nat} {ret : List RetValMap}
    {s : SimState} {r : List RetValMap × SimState} (h : combinationLoop fuel is ret s = .ok r)
    (hfuel : s.map.elems.length ≤ fuel') : combinationLoop fuel' is ret s = .ok r := by
  induction is generalizing ret s with
  | nil => exact h
  | cons i is ih =>
    simp only [combinationLoop] at h ⊢
    obtain ⟨t, ht, h⟩ := bind_eq_ok h
    have hstart : { s.clean with map := getMap s.clean.map i } = .start (s.map.switched i) := by
      rw [getMap_clean]
      rfl
    have hlen : (s.map.switched i).elems.length = s.map.elems.length := List.length_map _
    rw [hstart] at ht ⊢
    rw [(run_cost ht (hlen ▸ hfuel)).1]
    have ht' := run_length (switched_fresh s.map i) ht
    exact ih h (by omega)

/-- **The cost of a table.**  Whatever the switches, the rows are found with as much
recursion as the map has gates. -/
theorem table_cost (s : SimState) (n : Nat) :
    ∃ r, ∀ fuel, s.map.elems.length ≤ fuel → generateCombination fuel s n = .ok r := by
  rcases Nat.eq_zero_or_pos n with rfl | hn
  · exact ⟨_, fun _ _ => rfl⟩
  · obtain ⟨rows, s', ⟨N, hN⟩, _⟩ := generateCombination_returns s n hn
    refine ⟨(some rows, s'), fun fuel hfuel => ?_⟩
    have h : generateCombination N s n = .ok (some rows, s') := hN N (Nat.le_refl N)
    have hn0 : n ≠ 0 := by omega
    simp only [generateCombination, hn0, if_false] at h ⊢
    obtain ⟨x, hx, h⟩ := bind_eq_ok h
    rw [combinationLoop_shallow hx hfuel]
    exact h

end SimGate

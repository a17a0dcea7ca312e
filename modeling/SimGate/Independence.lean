import SimGate.Returning

/-!
# What an output does not read

Two runs on one map, the input gates set to different levels, go on in
lockstep: whether an input is looked up, cut or evaluated depends on the wiring
and on which gates have been evaluated, not on any level.  Levels flow along
the wires only (`simulate_agree`), so a gate is reported alike in both runs if
the gates it reads, directly or transitively, agree (`sim_independent`).
-/

namespace SimGate

open Demand Execution

/-- What the switches make of a gate: an input gate takes their state. -/
def CommonData.switch (σ : Id → Bool) (d : CommonData) : CommonData :=
  if d.isInput then d.setType (if σ d.id then .highState else .lowState) else d

@[simp] theorem CommonData.switch_id (σ : Id → Bool) (d : CommonData) :
    (d.switch σ).id = d.id := by unfold switch; split <;> simp

@[simp] theorem CommonData.switch_isInput (σ : Id → Bool) (d : CommonData) :
    (d.switch σ).isInput = d.isInput := by
  unfold switch
  split
  · next h => rw [h]; cases σ d.id <;> simp [isInput]
  · rfl

theorem CommonData.switch_type {σ : Id → Bool} {d : CommonData} :
    (d.switch σ).type = .output ↔ d.type = .output := by
  unfold switch
  split
  · next h =>
    have hd : d.type ≠ .output := fun ho => by simp [isInput, ho] at h
    cases σ d.id <;> simp [hd]
  · rfl

/-- The map with the input gates set as the switches say; other gates stay as they are. -/
def SimMap.assign (map : SimMap) (σ : Id → Bool) : SimMap :=
  map.map (Entry.update (CommonData.switch σ)) (Entry.update_key (CommonData.switch_id σ))

/-! ## Agreement on a cone -/

/-- Entries of one gate in two runs; in the cone they are the same. -/
structure EntryAgree (cone : Prop) (e e' : Entry) : Prop where
  second : e.second = e'.second
  known : e.first.out = .unknown ↔ e'.first.out = .unknown
  input : e.first.isInput = e'.first.isInput
  same : cone → e = e'

/-- Two values found for one input. -/
structure ValueAgree (cone : Prop) (v v' : Option CommonValueOutput) : Prop where
  missing : v = none ↔ v' = none
  same : cone → v = v'

/-- Two states of one circuit that agree on `cone`; input gates carry a level. -/
structure Agree (G : Graph Id) (cone : Id → Prop) (s s' : SimState) : Prop where
  used : s.sim.usedGates = s'.sim.usedGates
  map : ∀ id, Option.Rel (EntryAgree (cone id)) (s.map.find? id) (s'.map.find? id)
  ret : ∀ id, cone id → s.sim.retValues.find? id = s'.sim.retValues.find? id
  wiring : s.map.wiring = G
  inputs : ∀ id it, s.map.find? id = some it → it.first.isInput = true → it.first.out ≠ .unknown

/-! ## Looking an input up -/

theorem SimState.getValue_absent {s : SimState} {c : Id} (h : s.map.find? c = none) :
    s.getValue c = (some .low, s) := by simp [SimState.getValue, h]

theorem SimState.getValue_known {s : SimState} {c : Id} {e : Entry} (h : s.map.find? c = some e)
    (ho : e.first.out ≠ .unknown) :
    s.getValue c = (some e.first.out,
      if e.first.isInput then
        { s with sim.retValues := s.sim.retValues.assign (e.first.id, e.first.out) }
      else s) := by simp [SimState.getValue, h, ho]

theorem SimState.getValue_unknown {s : SimState} {c : Id} {e : Entry}
    (h : s.map.find? c = some e) (ho : e.first.out = .unknown) :
    s.getValue c =
      (if c ∈ s.sim.usedGates then some (getDefaultValue e.first.type) else none, s) := by
  simp only [SimState.getValue, h, ho, ne_eq, not_true_eq_false, if_false]
  split <;> rfl

theorem wiring_setOutput (map : SimMap) (id : Id) (out : CommonValueOutput) :
    SimMap.wiring (map.modify id (Entry.update (CommonData.setOutput out))
      (Entry.update_key fun d => d.setOutput_id out)) = map.wiring := by
  funext c
  simp only [SimMap.wiring, KeySet.find?_modify]
  split
  · cases map.find? c <;> rfl
  · rfl

namespace Agree

variable {G : Graph Id} {cone : Id → Prop} {s s' : SimState} (h : Agree G cone s s')

include h

/-- The gate is absent from both maps, or it has an entry in each. -/
theorem cases_find (id : Id) :
    s.map.find? id = none ∧ s'.map.find? id = none ∨
      ∃ e e', s.map.find? id = some e ∧ s'.map.find? id = some e' ∧ EntryAgree (cone id) e e' := by
  have hr := h.map id
  cases he : s.map.find? id with
  | none =>
    rw [he] at hr
    cases hr' : s'.map.find? id with
    | none => exact Or.inl ⟨rfl, rfl⟩
    | some e' => rw [hr'] at hr; cases hr
  | some e =>
    rw [he] at hr
    cases hr' : s'.map.find? id with
    | none => rw [hr'] at hr; cases hr
    | some e' =>
      rw [hr'] at hr
      cases hr with
      | some hee => exact Or.inr ⟨e, e', rfl, rfl, hee⟩

theorem enter (id : Id) : Agree G cone (s.enter id) (s'.enter id) :=
  ⟨by simp [SimState.enter, h.used], h.map, h.ret, h.wiring, h.inputs⟩

/-- Looking an input up: it is missing in both runs or in none, and inside the
cone the value is the same. -/
theorem getValue (c : Id) :
    ValueAgree (cone c) (s.getValue c).1 (s'.getValue c).1 ∧
      Agree G cone (s.getValue c).2 (s'.getValue c).2 := by
  rcases h.cases_find c with ⟨hn, hn'⟩ | ⟨e, e', he, he', hee⟩
  · rw [SimState.getValue_absent hn, SimState.getValue_absent hn']
    exact ⟨⟨Iff.rfl, fun _ => rfl⟩, h⟩
  · by_cases ho : e.first.out = .unknown
    · rw [SimState.getValue_unknown he ho, SimState.getValue_unknown he' (hee.known.mp ho), h.used]
      exact ⟨⟨by split <;> simp, fun hc => by rw [hee.same hc]⟩, h⟩
    · rw [SimState.getValue_known he ho,
        SimState.getValue_known he' (fun hu => ho (hee.known.mpr hu))]
      refine ⟨⟨by simp, fun hc => by rw [hee.same hc]⟩, ?_⟩
      rw [hee.input, id_of_find he, id_of_find he']
      cases e'.first.isInput with
      | false => exact h
      | true =>
        -- the level of an input gate is recorded
        refine ⟨h.used, h.map, fun k hk => ?_, h.wiring, h.inputs⟩
        simp only [if_true, KeySet.find?_assign]
        by_cases hck : c = k
        · rw [if_pos hck, if_pos hck, hee.same (hck ▸ hk)]
        · rw [if_neg hck, if_neg hck]
          exact h.ret k hk

/-- Both evaluations of a gate end with a level, inside the cone with the same. -/
theorem finish (id : Id) {a b a' b' out out' : CommonValueOutput} (ho : out ≠ .unknown)
    (ho' : out' ≠ .unknown) (hout : cone id → out = out') :
    Agree G cone (s.finish id a b out) (s'.finish id a' b' out') := by
  refine ⟨h.used, fun c => ?_, fun c hc => ?_, ?_, fun c it hit hin => ?_⟩
  · simp only [SimState.finish, KeySet.find?_modify]
    by_cases hc : c = id
    · simp only [hc, if_true]
      rcases h.cases_find id with ⟨hn, hn'⟩ | ⟨e, e', he, he', hee⟩
      · rw [hn, hn']
        exact .none
      · rw [he, he']
        refine .some ⟨hee.second, by simp [ho, ho'], hee.input, fun hcone => ?_⟩
        rw [hee.same hcone, hout hcone]
    · simp only [hc, if_false]
      exact h.map c
  · simp only [SimState.finish, KeySet.find?_insert, h.ret c hc]
    by_cases hid : id = c
    · simp only [hid, if_true, hout (hid ▸ hc)]
    · simp only [hid, if_false]
  · rw [← h.wiring]
    exact wiring_setOutput ..
  · simp only [SimState.finish, KeySet.find?_modify] at hit
    split at hit
    · obtain ⟨e, he, rfl⟩ := Option.map_eq_some_iff.mp hit
      exact ho
    · exact h.inputs c it hit hin

theorem getOutput (c : Id) : ValueAgree (cone c) (s.getOutput c) (s'.getOutput c) := by
  rcases h.cases_find c with ⟨hn, hn'⟩ | ⟨e, e', he, he', hee⟩
  · simp only [SimState.getOutput, hn, hn']
    exact ⟨Iff.rfl, fun _ => rfl⟩
  · simp only [SimState.getOutput, he, he']
    exact ⟨by simp, fun hc => by rw [hee.same hc]⟩

/-- An input without a value is no input gate. -/
theorem missing_inner {c : Id} (hv : (s.getValue c).1 = none) : G c ≠ some .leaf := by
  intro hG
  obtain ⟨e, he, hi⟩ := wiring_leaf (h.wiring ▸ hG)
  rw [SimState.getValue_known he (h.inputs c e he hi)] at hv
  cases hv

end Agree

/-! ## Two calls -/

section

variable {G : Graph Id} {cone : Id → Prop}

theorem force_agree {rec : Id → SimState → Except SimFault SimState}
    (ih : ∀ {id s s'}, Agree G cone s s' → G id ≠ some .leaf →
      Lockstep (Agree G cone) (rec id s) (rec id s'))
    {v v' : Option CommonValueOutput} {c : Id} {s s' : SimState}
    (hv : ValueAgree (cone c) v v') (h : Agree G cone s s') (hin : v = none → G c ≠ some .leaf) :
    Lockstep (fun r r' => ValueAgree (cone c) r.1 r'.1 ∧ Agree G cone r.2 r'.2)
      (force rec v c s) (force rec v' c s') := by
  cases v with
  | some x =>
    obtain ⟨x', rfl⟩ := Option.ne_none_iff_exists'.mp (mt hv.missing.mpr (by simp))
    exact .ok ⟨hv, h⟩
  | none =>
    obtain rfl := hv.missing.mp rfl
    simp only [force]
    rcases h.cases_find c with ⟨hn, hn'⟩ | ⟨e, e', he, he', hee⟩
    · rw [if_pos hn, if_pos hn']
      exact .error _
    · rw [if_neg (by simp [he]), if_neg (by simp [he'])]
      exact (ih h (hin rfl)).bind fun t t' ht => .ok ⟨ht.getOutput c, ht⟩

/-- **One call in two runs.**  A cone that holds what its gates read stays in agreement. -/
theorem simulate_agree (hclosed : ∀ id a b, G id = some (.inner a b) → cone id → cone a ∧ cone b)
    {fuel : Nat} {id : Id} {s s' : SimState} (h : Agree G cone s s') (hid : G id ≠ some .leaf) :
    Lockstep (Agree G cone) (simulate fuel id s) (simulate fuel id s') := by
  induction fuel generalizing id s s' with
  | zero => exact .error _
  | succ fuel ih =>
    simp only [simulate]
    rcases h.cases_find id with ⟨hn, hn'⟩ | ⟨e, e', he, he', hee⟩
    · rw [hn, hn']
      exact .error _
    · rw [he, he']
      simp only [← hee.second]
      have hcone : cone id → cone e.second.1 ∧ cone e.second.2 := by
        refine hclosed id _ _ ?_
        have hw := wiring_of_find he
        rw [h.wiring] at hw
        rw [hw] at hid ⊢
        split at hid
        · exact absurd rfl hid
        · next hi => rw [if_neg hi]
      have h₁ := (h.enter id).getValue e.second.1
      have h₂ := h₁.2.getValue e.second.2
      refine (force_agree ih h₁.1 h₂.2 ((h.enter id).missing_inner)).bind ?_
      rintro ⟨v₁, t⟩ ⟨v₁', t'⟩ ⟨hv₁, ht⟩
      refine (force_agree ih h₂.1 ht (h₁.2.missing_inner)).bind ?_
      rintro ⟨v₂, u⟩ ⟨v₂', u'⟩ ⟨hv₂, hu⟩
      cases v₁ with
      | none =>
        obtain rfl := hv₁.missing.mp rfl
        exact .error _
      | some a =>
        obtain ⟨a', rfl⟩ := Option.ne_none_iff_exists'.mp (mt hv₁.missing.mpr (by simp))
        cases v₂ with
        | none =>
          obtain rfl := hv₂.missing.mp rfl
          exact .error _
        | some b =>
          obtain ⟨b', rfl⟩ := Option.ne_none_iff_exists'.mp (mt hv₂.missing.mpr (by simp))
          refine .ok (hu.finish id (levelOf_ne_unknown _) (levelOf_ne_unknown _) fun hc => ?_)
          obtain ⟨hca, hcb⟩ := hcone hc
          rw [hee.same hc, Option.some.inj (hv₁.same hca), Option.some.inj (hv₂.same hcb)]

theorem simLoop_agree (hclosed : ∀ id a b, G id = some (.inner a b) → cone id → cone a ∧ cone b)
    {fuel : Nat} {l l' : List Entry} {s s' : SimState} (h : Agree G cone s s')
    (hl : List.Forall₂ (fun e e' => e.id = e'.id ∧
      (e.first.type = .output ↔ e'.first.type = .output) ∧
      (e.first.type = .output → G e.id ≠ some .leaf)) l l') :
    Lockstep (Agree G cone) (simLoop fuel l s) (simLoop fuel l' s') := by
  induction hl generalizing s s' with
  | nil => exact .ok h
  | @cons e e' l l' he _ ih =>
    obtain ⟨hid, hout, hleaf⟩ := he
    simp only [simLoop]
    by_cases ho : e.first.type = .output
    · rw [if_pos ho, if_pos (hout.mp ho), ← hid]
      exact (simulate_agree hclosed h (hleaf ho)).bind fun t t' ht => ih ht
    · rw [if_neg ho, if_neg fun ho' => ho (hout.mpr ho')]
      exact ih h

end

/-! ## Two assignments of the input gates -/

theorem CommonData.switch_out {σ : Id → Bool} {d : CommonData} (h : d.isInput = true) :
    (d.switch σ).out ≠ .unknown := by
  rw [switch, if_pos h]
  cases σ d.id <;> simp [setType, defaultValue]

theorem find_assign (map : SimMap) (σ : Id → Bool) (id : Id) :
    (map.assign σ).find? id = (map.find? id).map (Entry.update (CommonData.switch σ)) :=
  KeySet.find?_map ..

theorem wiring_assign (map : SimMap) (σ : Id → Bool) : (map.assign σ).wiring = map.wiring := by
  funext id
  simp only [SimMap.wiring, find_assign]
  cases map.find? id <;> simp

/-- The cone of a gate: what it reads, directly or transitively, and what is not there. -/
def SimMap.cone (map : SimMap) (o id : Id) : Prop :=
  Reach map.wiring o id ∨ map.find? id = none

theorem cone_closed (map : SimMap) (o : Id) :
    ∀ id a b, map.wiring id = some (.inner a b) → map.cone o id → map.cone o a ∧ map.cone o b := by
  intro id a b hG hid
  have hr : Reach map.wiring o id := by
    refine hid.resolve_right fun hn => ?_
    rw [wiring_eq_none.mpr hn] at hG
    cases hG
  have hread : ∀ c, c = a ∨ c = b → map.cone o c := by
    intro c hc
    by_cases hn : map.find? c = none
    · exact Or.inr hn
    · exact Or.inl (hr.tail ⟨a, b, hG, hc, mt wiring_eq_none.mp hn⟩)
  exact ⟨hread a (Or.inl rfl), hread b (Or.inr rfl)⟩

theorem agree_start {map : SimMap} {σ τ : Id → Bool} {o : Id}
    (hσ : ∀ it ∈ map.elems, it.first.isInput = true → Reach map.wiring o it.id →
      σ it.id = τ it.id) :
    Agree map.wiring (map.cone o) (.start (map.assign σ)) (.start (map.assign τ)) where
  used := rfl
  map id := by
    simp only [SimState.start, find_assign]
    cases hit : map.find? id with
    | none => exact .none
    | some it =>
      refine .some ⟨rfl, ?_, by simp, fun hc => ?_⟩
      · cases hi : it.first.isInput with
        | true => exact iff_of_false (CommonData.switch_out hi) (CommonData.switch_out hi)
        | false => simp [CommonData.switch, hi]
      · have hr : Reach map.wiring o id := hc.resolve_right (by simp [hit])
        have hid : it.id = id := KeySet.key_of_find? hit
        cases hi : it.first.isInput with
        | true =>
          have hs := hσ it (KeySet.mem_of_find? hit) hi (hid ▸ hr)
          simp only [Entry.update, CommonData.switch]
          rw [show σ it.first.id = τ it.first.id from hs]
        | false => simp [Entry.update, CommonData.switch, hi]
  ret _ _ := rfl
  wiring := wiring_assign map σ
  inputs id e he hi := by
    simp only [SimState.start, find_assign] at he
    obtain ⟨it, _, rfl⟩ := Option.map_eq_some_iff.mp he
    exact CommonData.switch_out (by simpa using hi)

/-- **Independence.**  Two assignments of the input gates that agree on those a
gate reads, directly or transitively, give it the same value, whatever the loops
and whatever outputs the other gates carry. -/
theorem sim_independent (map : SimMap) (σ τ : Id → Bool) (o : Id)
    (hσ : ∀ it ∈ map.elems, it.first.isInput = true → Reach map.wiring o it.id →
      σ it.id = τ it.id) :
    ∃ s t, Returns (fun fuel => SimState.run fuel (.start (map.assign σ))) s ∧
      Returns (fun fuel => SimState.run fuel (.start (map.assign τ))) t ∧
      s.sim.getValue o = t.sim.getValue o := by
  obtain ⟨s, hs⟩ := run_returns (map.assign σ)
  obtain ⟨n, hn⟩ := hs
  have hstep : Lockstep (Agree map.wiring (map.cone o))
      (SimState.run n (.start (map.assign σ))) (SimState.run n (.start (map.assign τ))) := by
    refine simLoop_agree (cone_closed map o) (agree_start hσ) ?_
    show List.Forall₂ _ (map.elems.map _) (map.elems.map _)
    rw [List.forall₂_map_left_iff, List.forall₂_map_right_iff, List.forall₂_same]
    intro it hit
    have htype : (it.first.switch σ).type = .output ↔ it.first.type = .output :=
      CommonData.switch_type
    refine ⟨by simp [Entry.id], htype.trans CommonData.switch_type.symm, fun hout hl => ?_⟩
    obtain ⟨a, b, hG⟩ := inner_of_find (KeySet.find?_of_mem hit)
      (show it.first.isInput = false by simp [CommonData.isInput, htype.mp hout])
    rw [show (it.update (CommonData.switch σ)).id = it.id from CommonData.switch_id σ it.first,
      hG] at hl
    cases hl
  obtain ⟨t, ht, hag⟩ : ∃ t, SimState.run n (.start (map.assign τ)) = .ok t ∧
      Agree map.wiring (map.cone o) s t := by
    have hrun : SimState.run n (.start (map.assign σ)) = .ok s := hn n (Nat.le_refl n)
    rw [hrun] at hstep
    generalize SimState.run n (.start (map.assign τ)) = y at hstep
    cases hstep with
    | ok h => exact ⟨_, rfl, h⟩
  refine ⟨s, t, ⟨n, hn⟩, SimState.run_returns ht, ?_⟩
  simp only [Simulator.getValue, hag.ret o (Or.inl .refl)]

/-- Two independent switches, one of them before a loop. -/
def switchedLoop : SimMap := .ofGates [(.lowState, 1, 0, 0), (.highState, 2, 0, 0), (.nor, 3, 1, 4),
  (.not, 4, 3, 0), (.output, 5, 3, 0), (.output, 6, 2, 0)]

theorem sim_independent_switchedLoop :
    6 ∈ switchedLoop.outputs ∧
    ∃ s t, Returns (fun fuel => SimState.run fuel (.start (switchedLoop.assign fun _ => true))) s ∧
      Returns (fun fuel => SimState.run fuel (.start (switchedLoop.assign fun i => i = 2))) t ∧
      s.sim.getValue 6 = t.sim.getValue 6 := by
  refine ⟨by decide, sim_independent switchedLoop (fun _ => true) (fun i => i = 2) 6 ?_⟩
  have hreach : ∀ id, Reach switchedLoop.wiring 6 id → id = 6 ∨ id = 2 := by
    intro id hr
    induction hr with
    | refl => exact Or.inl rfl
    | tail _ hread ih =>
      obtain ⟨a, b, hG, hc, hne⟩ := hread
      rcases ih with rfl | rfl
      · cases hG
        rcases hc with rfl | rfl
        · exact Or.inr rfl
        · exact absurd rfl hne
      · cases hG
  have hinput : ∀ it ∈ switchedLoop.elems, it.first.isInput = true → it.id ≠ 6 := by decide
  intro it hit hi hr
  rcases hreach it.id hr with h | h
  · exact absurd h (hinput it hit hi)
  · simp [h]

end SimGate

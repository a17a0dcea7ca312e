import Mathlib.Data.Nat.Bitwise
import SimGate.Schedule

/-!
# Truth tables

`generateCombination` reuses one simulator and one map for all rows.  Row `r`
nevertheless is what a fresh simulator reports on the map built afresh with the
switches set to the bits of `r`:

* `getMap_clean`: cleaning and setting the switches gives exactly that map,
  whatever state the previous row left;
* `generateCombination_rows`: the table has `2 ^ n` rows and agrees with the
  fresh runs;
* `generateCombination_inputs`: what the columns of the input gates show.
-/

namespace SimGate

open StraightLine Demand Execution

/-- The input gates in increasing id order. -/
def SimMap.inputs (map : SimMap) : List Id :=
  (map.elems.filter (fun it => it.first.isInput)).map Entry.id

/-- The type of a gate once the switches show the bits of `r`. -/
def SimMap.switchedType (map : SimMap) (r : Nat) (d : CommonData) : CommonGateType :=
  if d.isInput then (if r.testBit (map.inputs.idxOf d.id) then .highState else .lowState)
  else d.type

/-- A freshly built map with the same ids and wiring, the j-th input gate being
`HIGH_STATE` when bit `j` of `r` is 1 and `LOW_STATE` otherwise. -/
def SimMap.switched (map : SimMap) (r : Nat) : SimMap :=
  map.map (Entry.update fun d => .create (map.switchedType r d) d.id)
    (Entry.update_key (fun d => by simp))

theorem isInput_switch (b : Bool) (id : Id) :
    (CommonData.create (if b then .highState else .lowState) id).isInput = true := by
  cases b <;> simp [CommonData.isInput]

theorem isInput_switched (map : SimMap) (r : Nat) (d : CommonData) :
    (CommonData.create (map.switchedType r d) d.id).isInput = d.isInput := by
  unfold SimMap.switchedType
  cases h : d.isInput with
  | true => simpa using isInput_switch _ d.id
  | false => simpa [CommonData.isInput] using h

theorem isOutput_switched (map : SimMap) (r : Nat) (d : CommonData) :
    (CommonData.create (map.switchedType r d) d.id).isOutput = d.isOutput := by
  unfold SimMap.switchedType
  split
  · next h =>
    have hd : d.type ≠ .output := fun ho => by simp [CommonData.isInput, ho] at h
    split <;> simp [CommonData.isOutput, hd]
  · simp [CommonData.isOutput]

theorem switched_fresh (map : SimMap) (r : Nat) : (map.switched r).Fresh := by
  intro it hit
  obtain ⟨it', _, rfl⟩ := List.mem_map.mp hit
  rw [CommonData.defaultValue_eq]
  simp

/-- Which gates are input gates is all that the switches depend on. -/
theorem inputs_map (map : SimMap) {f : CommonData → CommonData} (hid : ∀ d, (f d).id = d.id)
    (hin : ∀ d, (f d).isInput = d.isInput) :
    SimMap.inputs (map.map (Entry.update f) (Entry.update_key hid)) = map.inputs := by
  have hkey : Entry.id ∘ Entry.update f = Entry.id := by
    funext it
    exact hid it.first
  have hsel : (fun it : Entry => it.first.isInput) ∘ Entry.update f =
      fun it => it.first.isInput := by
    funext it
    exact hin it.first
  simp only [SimMap.inputs, KeySet.map, List.filter_map, List.map_map, hkey, hsel]

/-- Changing outputs, and input gates among themselves, does not change what
the switched map is. -/
theorem switched_map (map : SimMap) {f : CommonData → CommonData}
    (hid : ∀ d, (f d).id = d.id) (hin : ∀ d, (f d).isInput = d.isInput)
    (htype : ∀ d, d.isInput = false → (f d).type = d.type) (r : Nat) :
    SimMap.switched (map.map (Entry.update f) (Entry.update_key hid)) r = map.switched r := by
  have hinputs := inputs_map map hid hin
  unfold SimMap.switched
  rw [KeySet.map_map]
  apply KeySet.map_congr
  rintro ⟨d, ins⟩ _
  simp only [Entry.update, SimMap.switchedType, hinputs, hid, hin]
  cases hd : d.isInput with
  | true => simp
  | false => simp [htype d hd]

/-! ## Setting the switches -/

theorem testBit_eq_and (r i : Nat) : decide (r &&& (1 <<< i) ≠ 0) = r.testBit i := by
  rw [Nat.one_shiftLeft, Nat.and_two_pow]
  cases r.testBit i <;> simp

theorem find_zipIdx {k : Id} (l : List Id) (m : Nat) :
    (l.zipIdx m).find? (fun p => p.1 = k) =
      if k ∈ l then some (k, m + l.idxOf k) else none := by
  induction l generalizing m with
  | nil => simp
  | cons a l ih =>
    by_cases h : a = k
    · simp [h]
    · simp only [List.zipIdx_cons, List.find?_cons, h, decide_false, ih, List.mem_cons,
        Ne.symm h, false_or, List.idxOf_cons_ne l h]
      split
      · simp only [Option.some.injEq, Prod.mk.injEq, true_and]; omega
      · rfl

/-- One switch of `getMap`. -/
def setSwitch (combination : Nat) (map : SimMap) (p : Id × Nat) : SimMap :=
  map.modify p.1
    (Entry.update fun d => (d.setType
      (if combination &&& (1 <<< p.2) ≠ 0 then .highState else .lowState)).defaultValue)
    (Entry.update_key (fun d => by simp))

theorem find_setSwitches (r : Nat) {l : List (Id × Nat)} (hl : (l.map Prod.fst).Nodup)
    (map : SimMap) (k : Id) :
    (l.foldl (setSwitch r) map).find? k =
      match l.find? (fun p => p.1 = k) with
      | some p => (map.find? k).map (Entry.update fun d =>
          .create (if r.testBit p.2 then .highState else .lowState) d.id)
      | none => map.find? k := by
  induction l generalizing map with
  | nil => rfl
  | cons p l ih =>
    have hl' := List.nodup_cons.mp (List.map_cons ▸ hl)
    have hset : ∀ d : CommonData,
        (d.setType (if r &&& (1 <<< p.2) ≠ 0 then .highState else .lowState)).defaultValue =
          .create (if r.testBit p.2 then .highState else .lowState) d.id := by
      intro d
      rw [CommonData.defaultValue_eq, ← testBit_eq_and]
      simp
    rw [List.foldl_cons, ih hl'.2, setSwitch, KeySet.find?_modify]
    simp only [hset]
    by_cases h : p.1 = k
    · have hn : l.find? (fun q => q.1 = k) = none := by
        simp only [List.find?_eq_none, decide_eq_true_eq]
        intro q hq he
        exact hl'.1 (List.mem_map.mpr ⟨q, hq, he.trans h.symm⟩)
      simp [h, hn]
    · simp [h, Ne.symm h]

/-- Whatever types the input gates and whatever outputs all gates had, cleaning
and setting the switches gives the freshly built map. -/
theorem getMap_clean (s : SimState) (r : Nat) : getMap s.clean.map r = s.map.switched r := by
  have hclean : s.clean.map.inputs = s.map.inputs :=
    inputs_map s.map CommonData.defaultValue_id (fun d => by simp [CommonData.isInput])
  have hnodup : ((s.map.inputs.zipIdx).map Prod.fst).Nodup := by
    rw [List.zipIdx_map_fst]
    exact (filter_ids_sorted s.map _).imp (fun h => ne_of_lt h)
  apply KeySet.ext_find
  intro k
  have hg : getMap s.clean.map r = s.map.inputs.zipIdx.foldl (setSwitch r) s.clean.map := by
    rw [← hclean]; rfl
  have hc : s.clean.map.find? k = (s.map.find? k).map (Entry.update CommonData.defaultValue) :=
    KeySet.find?_map s.map _ (Entry.update_key CommonData.defaultValue_id) k
  rw [hg, find_setSwitches r hnodup, find_zipIdx, hc, SimMap.switched, KeySet.find?_map]
  cases hk : s.map.find? k with
  | none => split <;> rfl
  | some it =>
    have hmem : k ∈ s.map.inputs ↔ it.first.isInput = true := by
      simp only [SimMap.inputs, List.mem_map, List.mem_filter]
      constructor
      · rintro ⟨it', ⟨hit', hi⟩, rfl⟩
        rw [KeySet.find?_of_mem hit'] at hk
        cases hk
        exact hi
      · exact fun hi => ⟨it, ⟨KeySet.mem_of_find? hk, hi⟩, KeySet.key_of_find? hk⟩
    have hid := id_of_find hk
    cases hi : it.first.isInput with
    | true =>
      simp [hmem.mpr hi, Entry.update, SimMap.switchedType, hi, hid]
    | false =>
      have hnk : k ∉ s.map.inputs := fun h => by simp [hmem.mp h] at hi
      simp [hnk, Entry.update, SimMap.switchedType, hi, CommonData.defaultValue_eq]

/-! ## Rows -/

theorem find_row_aux (g : Id → CommonValueOutput) (l : List Entry) (row : RetValMap) (k : Id) :
    (l.foldl (fun row it => if it.first.isInput ∨ it.first.isOutput then
        row.assign (it.first.id, g it.first.id) else row) row).find? k =
      if ∃ it ∈ l, it.first.id = k ∧ (it.first.isInput ∨ it.first.isOutput) then some (k, g k)
      else row.find? k := by
  induction l generalizing row with
  | nil => simp
  | cons it l ih =>
    rw [List.foldl_cons, ih]
    by_cases hl : ∃ it ∈ l, it.first.id = k ∧ (it.first.isInput ∨ it.first.isOutput)
    · have hc : ∃ it' ∈ it :: l, it'.first.id = k ∧ (it'.first.isInput ∨ it'.first.isOutput) := by
        obtain ⟨it', hit', h⟩ := hl
        exact ⟨it', List.mem_cons_of_mem _ hit', h⟩
      rw [if_pos hl, if_pos hc]
    · rw [if_neg hl]
      by_cases ho : it.first.isInput ∨ it.first.isOutput
      · rw [if_pos ho, KeySet.find?_assign]
        by_cases hk : it.first.id = k
        · rw [if_pos hk, if_pos ⟨it, List.mem_cons_self .., hk, ho⟩, hk]
        · have hn : ¬∃ it' ∈ it :: l, it'.first.id = k ∧
              (it'.first.isInput ∨ it'.first.isOutput) := by
            rintro ⟨it', hit', h⟩
            rcases List.mem_cons.mp hit' with rfl | hit'
            · exact hk h.1
            · exact hl ⟨it', hit', h⟩
          rw [if_neg hk, if_neg hn]
      · have hn : ¬∃ it' ∈ it :: l, it'.first.id = k ∧
            (it'.first.isInput ∨ it'.first.isOutput) := by
          rintro ⟨it', hit', h⟩
          rcases List.mem_cons.mp hit' with rfl | hit'
          · exact ho h.2
          · exact hl ⟨it', hit', h⟩
        rw [if_neg ho, if_neg hn]

/-- A row has a cell for every input gate and every `OUTPUT` gate, holding what
the simulator reports. -/
theorem find_row (s : SimState) {k : Id} {it : Entry} (hit : s.map.find? k = some it)
    (h : it.first.isInput ∨ it.first.isOutput) : s.row.find? k = some (k, s.sim.getValue k) := by
  rw [SimState.row, find_row_aux]
  exact if_pos ⟨it, KeySet.mem_of_find? hit, id_of_find hit, h⟩

/-- The loop over the combinations: each row is the row of a fresh run. -/
theorem combinationLoop_rows (map : SimMap) (is : List Nat) (ret : List RetValMap) (s : SimState)
    (hs : ∀ r, s.map.switched r = map.switched r) :
    ∃ rows s', Returns (fun fuel => combinationLoop fuel is ret s) (ret ++ rows, s') ∧
      List.Forall₂ (fun r row => ∃ t,
        Returns (fun fuel => SimState.run fuel (.start (map.switched r))) t ∧
        (∃ h, t.map = (map.switched r).paint h) ∧ row = t.row) is rows := by
  induction is generalizing ret s with
  | nil => exact ⟨[], s, by simpa [combinationLoop] using Returns.pure _, List.Forall₂.nil⟩
  | cons r is ih =>
    obtain ⟨t, v, _, _, _, href, hret⟩ := run_refines (switched_fresh map r).ready
    have hstart : { s.clean with map := getMap s.clean.map r } = .start (map.switched r) := by
      rw [getMap_clean, hs]; rfl
    have hpaint : ∀ r', t.map.switched r' = map.switched r' := by
      intro r'
      have h1 : t.map.switched r' = (map.switched r).switched r' := by
        rw [href.map]
        exact switched_map _ (paintData_id _) (paintData_isInput _)
          (fun d _ => paintData_type _ d) r'
      rw [h1]
      exact switched_map map (fun d => by simp) (isInput_switched map r)
        (fun d hd => by simp [SimMap.switchedType, hd]) r'
    obtain ⟨rows, s', hret', hrows⟩ := ih (ret ++ [t.row]) t hpaint
    refine ⟨t.row :: rows, s', ?_, List.Forall₂.cons ⟨t, hret, ⟨_, href.map⟩, rfl⟩ hrows⟩
    have hb := Returns.bind hret (g := fun n t => combinationLoop n is (ret ++ [t.row]) t) hret'
    rw [List.append_assoc, List.singleton_append] at hb
    simpa only [combinationLoop, hstart] using hb

/-- The table has `2 ^ n` rows, and row `r` shows for every input gate and every
`OUTPUT` what a fresh simulator reports. -/
theorem generateCombination_returns (s : SimState) (n : Nat) (hn : 1 ≤ n) :
    ∃ rows s', Returns (fun fuel => generateCombination fuel s n) (some rows, s') ∧
      rows.length = 2 ^ n ∧
      ∀ r, r < 2 ^ n → ∃ row t, rows[r]? = some row ∧
        Returns (fun fuel => SimState.run fuel (.start (s.map.switched r))) t ∧
        ∀ id it, s.map.find? id = some it → (it.first.isInput ∨ it.first.isOutput) →
          row.find? id = some (id, t.sim.getValue id) := by
  obtain ⟨rows, s', hret, hrows⟩ :=
    combinationLoop_rows s.map (List.range (1 <<< n)) [] s (fun _ => rfl)
  have hlen : rows.length = 2 ^ n := by
    rw [← hrows.length_eq, List.length_range, Nat.one_shiftLeft]
  refine ⟨rows, s', ?_, hlen, ?_⟩
  · have hb := Returns.bind hret
      (g := fun _ x => .ok (some x.1, x.2)) (Returns.pure (some rows, s'))
    have hn0 : n ≠ 0 := by omega
    simpa only [generateCombination, if_neg hn0, List.nil_append] using hb
  · intro r hr
    have hr' : r < (List.range (1 <<< n)).length := by
      rw [List.length_range, Nat.one_shiftLeft]; exact hr
    have hrow : r < rows.length := by rw [hlen]; exact hr
    have hget := (List.forall₂_iff_get.mp hrows).2 r hr' hrow
    simp only [List.get_eq_getElem, List.getElem_range] at hget
    obtain ⟨t, ht, ⟨h, hmap⟩, hrow'⟩ := hget
    refine ⟨rows[r], t, List.getElem?_eq_getElem hrow, ht, fun id it hit hcell => ?_⟩
    have hfind : t.map.find? id = some ((it.update fun d =>
        .create (s.map.switchedType r d) d.id).update (paintData h)) := by
      rw [hmap, find_paint, SimMap.switched, KeySet.find?_map, hit]; rfl
    rw [hrow']
    refine find_row t hfind ?_
    simpa [isInput_switched, isOutput_switched] using hcell

/-- **Truth tables.**  For any map with `n ≥ 1` input gates and any state of the
simulator, the table has `2 ^ n` rows, and row `r` shows for every `OUTPUT` what
a fresh simulator reports on the map built afresh with the switches at `r`. -/
theorem generateCombination_rows (s : SimState) (n : Nat) (hn : 1 ≤ n)
    (hin : s.map.inputs.length = n) :
    ∃ rows s', Returns (fun fuel => generateCombination fuel s n) (some rows, s') ∧
      rows.length = 2 ^ n ∧
      ∀ r, r < 2 ^ n → ∀ o ∈ s.map.outputs, ∃ row t, rows[r]? = some row ∧
        Returns (fun fuel => SimState.run fuel (.start (s.map.switched r))) t ∧
        row.find? o = some (o, t.sim.getValue o) := by
  subst hin
  obtain ⟨rows, s', hret, hlen, hrows⟩ := generateCombination_returns s _ hn
  refine ⟨rows, s', hret, hlen, fun r hr o ho => ?_⟩
  obtain ⟨row, t, hrow, ht, hcell⟩ := hrows r hr
  obtain ⟨it, hit, htype⟩ := mem_outputs.mp ho
  exact ⟨row, t, hrow, ht, hcell o it hit (Or.inr (by simp [CommonData.isOutput, htype]))⟩

/-- A latch with two switches, left behind with stale outputs and stale stores. -/
def staleLatch : SimState where
  sim := ⟨.assign ∅ (3, .high), {3, 5}⟩
  map := (SimMap.ofGates [(.lowState, 1, 0, 0), (.highState, 2, 0, 0), (.nand, 3, 1, 4),
    (.nand, 4, 2, 3), (.output, 5, 3, 0), (.output, 6, 4, 0)]).map
      (Entry.update (CommonData.setOutput .high))
      (Entry.update_key (fun d => d.setOutput_id .high))
  trace := []

theorem generateCombination_rows_staleLatch :
    1 ≤ 2 ∧ staleLatch.map.inputs.length = 2 ∧
    ∃ rows s', Returns (fun fuel => generateCombination fuel staleLatch 2) (some rows, s') ∧
      rows.length = 2 ^ 2 ∧
      ∀ r, r < 2 ^ 2 → ∀ o ∈ staleLatch.map.outputs, ∃ row t, rows[r]? = some row ∧
        Returns (fun fuel => SimState.run fuel (.start (staleLatch.map.switched r))) t ∧
        row.find? o = some (o, t.sim.getValue o) :=
  ⟨by decide, by decide, generateCombination_rows staleLatch 2 (by decide) (by decide)⟩

/-! ## The columns of the input gates -/

theorem wiring_switched (map : SimMap) (r : Nat) : (map.switched r).wiring = map.wiring := by
  funext id
  simp only [SimMap.wiring, SimMap.switched, KeySet.find?_map]
  cases map.find? id <;> simp [isInput_switched]

theorem outputs_switched (map : SimMap) (r : Nat) : (map.switched r).outputs = map.outputs := by
  have hkey : Entry.id ∘ (Entry.update fun d => .create (map.switchedType r d) d.id) =
      Entry.id := by
    funext it
    exact CommonData.create_id ..
  have hsel : (fun it : Entry => decide (it.first.type = .output)) ∘
      (Entry.update fun d => .create (map.switchedType r d) d.id) =
      fun it => decide (it.first.type = .output) := by
    funext it
    exact isOutput_switched map r it.first
  simp only [SimMap.outputs, SimMap.switched, KeySet.map, List.filter_map, List.map_map, hkey, hsel]

theorem readByOutput_switched {map : SimMap} {r : Nat} {id : Id} :
    (map.switched r).ReadByOutput id ↔ map.ReadByOutput id := by
  simp only [SimMap.ReadByOutput, wiring_switched, outputs_switched]

/-- The switch of the j-th input gate shows bit `j`. -/
theorem outOf_switched {map : SimMap} {r j : Nat} {id : Id} (hj : map.inputs[j]? = some id) :
    (map.switched r).outOf id = if r.testBit j then .high else .low := by
  have hnodup : map.inputs.Nodup := (filter_ids_sorted map _).imp (fun h => ne_of_lt h)
  obtain ⟨it, hit, rfl⟩ := List.mem_map.mp (List.mem_of_getElem? hj)
  obtain ⟨hit, hi⟩ := List.mem_filter.mp hit
  have hidx : map.inputs.idxOf it.first.id = j := by
    obtain ⟨hlt, hget⟩ := List.getElem?_eq_some_iff.mp hj
    rw [show it.first.id = map.inputs[j] from hget.symm]
    exact hnodup.idxOf_getElem j hlt
  have hfind := KeySet.find?_of_mem hit
  simp only [SimMap.outOf, SimMap.switched, KeySet.find?_map, hfind, Option.map_some, Entry.update,
    SimMap.switchedType, hi, if_true, hidx]
  cases r.testBit j <;> rfl

/-- What a fresh simulator reports for an input gate. -/
theorem getValue_switched {map : SimMap} {r j : Nat} {id : Id} (hj : map.inputs[j]? = some id)
    {t : SimState} (ht : Returns (fun fuel => SimState.run fuel (.start (map.switched r))) t) :
    (map.ReadByOutput id → t.sim.getValue id = if r.testBit j then .high else .low) ∧
      (¬ map.ReadByOutput id → t.sim.getValue id = .unknown) := by
  obtain ⟨t', v, hv, _, _, href, hret⟩ := run_refines (switched_fresh map r).ready
  rw [ht.unique hret]
  obtain ⟨it, hit, rfl⟩ := List.mem_map.mp (List.mem_of_getElem? hj)
  obtain ⟨hit, hi⟩ := List.mem_filter.mp hit
  have hleaf : (map.switched r).wiring it.id = some .leaf := by
    rw [wiring_switched, wiring_of_find (KeySet.find?_of_mem hit), if_pos hi]
  refine ⟨fun hread => ?_, fun hread => href.unreported hv (mt readByOutput_switched.mp hread)⟩
  rcases href.reported hv (readByOutput_switched.mpr hread) with ⟨⟨a, b, hG⟩, _⟩ | ⟨_, hval⟩
  · rw [hleaf] at hG
    cases hG
  · rw [hval, outOf_switched hj]

theorem find_of_inputs {map : SimMap} {j : Nat} {id : Id} (hj : map.inputs[j]? = some id) :
    ∃ it, map.find? id = some it ∧ it.first.isInput = true := by
  obtain ⟨it, hit, rfl⟩ := List.mem_map.mp (List.mem_of_getElem? hj)
  obtain ⟨hit, hi⟩ := List.mem_filter.mp hit
  exact ⟨it, KeySet.find?_of_mem hit, hi⟩

/-- **Input columns.**  Row `r` shows bit `j` of `r` for the j-th input gate if an
`OUTPUT` reads that gate, directly or transitively; any other input gate is never
looked at and shows as unknown in every row. -/
theorem generateCombination_inputs (s : SimState) (n : Nat) (hn : 1 ≤ n)
    (hin : s.map.inputs.length = n) :
    ∃ rows s', Returns (fun fuel => generateCombination fuel s n) (some rows, s') ∧
      rows.length = 2 ^ n ∧
      ∀ r, r < 2 ^ n → ∀ j id, s.map.inputs[j]? = some id → ∃ row, rows[r]? = some row ∧
        (s.map.ReadByOutput id →
          row.find? id = some (id, if r.testBit j then .high else .low)) ∧
        (¬ s.map.ReadByOutput id → row.find? id = some (id, .unknown)) := by
  subst hin
  obtain ⟨rows, s', hret, hlen, hrows⟩ := generateCombination_returns s _ hn
  refine ⟨rows, s', hret, hlen, fun r hr j id hj => ?_⟩
  obtain ⟨row, t, hrow, ht, hcell⟩ := hrows r hr
  obtain ⟨it, hit, hi⟩ := find_of_inputs hj
  obtain ⟨hread, hunread⟩ := getValue_switched hj ht
  have hval := hcell id it hit (Or.inl hi)
  exact ⟨row, hrow, fun h => by rw [hval, hread h], fun h => by rw [hval, hunread h]⟩

theorem generateCombination_inputs_staleLatch :
    1 ≤ 2 ∧ staleLatch.map.inputs.length = 2 ∧
    ∃ rows s', Returns (fun fuel => generateCombination fuel staleLatch 2) (some rows, s') ∧
      rows.length = 2 ^ 2 ∧
      ∀ r, r < 2 ^ 2 → ∀ j id, staleLatch.map.inputs[j]? = some id → ∃ row, rows[r]? = some row ∧
        (staleLatch.map.ReadByOutput id →
          row.find? id = some (id, if r.testBit j then .high else .low)) ∧
        (¬ staleLatch.map.ReadByOutput id → row.find? id = some (id, .unknown)) :=
  ⟨by decide, by decide, generateCombination_inputs staleLatch 2 (by decide) (by decide)⟩

/-- An input gate that nothing reads, beside an `OUTPUT` that reads nothing. -/
def looseInput : SimMap := .ofGates [(.lowState, 1, 0, 0), (.output, 2, 0, 0)]

/-- **A missing assignment.**  No row shows the input gate as high. -/
theorem looseInput_unlisted :
    looseInput.inputs = [1] ∧
    ∃ rows s', Returns (fun fuel => generateCombination fuel (.start looseInput) 1)
        (some rows, s') ∧ rows.length = 2 ∧
      ∀ row ∈ rows, row.find? 1 = some (1, .unknown) := by
  have hj : looseInput.inputs[0]? = some 1 := by decide
  have hunread : ¬ looseInput.ReadByOutput 1 := by
    rintro ⟨o, ho, hr⟩
    have hout : looseInput.outputs = [2] := by decide
    rw [hout, List.mem_singleton] at ho
    subst ho
    rcases Relation.ReflTransGen.cases_head hr with h | ⟨c, ⟨a, b, hG, hc, hne⟩, _⟩
    · cases h
    · cases hG
      rcases hc with rfl | rfl <;> exact hne rfl
  obtain ⟨rows, s', hret, hlen, hrows⟩ :=
    generateCombination_returns (.start looseInput) 1 (by decide)
  refine ⟨by decide, rows, s', hret, hlen, fun row hrow => ?_⟩
  obtain ⟨r, hr, rfl⟩ := List.mem_iff_getElem.mp hrow
  obtain ⟨row, t, hget, ht, hcell⟩ := hrows r (hlen ▸ hr)
  rw [List.getElem?_eq_getElem hr] at hget
  cases hget
  obtain ⟨it, hit, hi⟩ := find_of_inputs hj
  rw [hcell 1 it hit (Or.inl hi), (getValue_switched hj ht).2 hunread]

end SimGate

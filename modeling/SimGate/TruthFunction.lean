import SimGate.Independence
import SimGate.Levels
import SimGate.TableOfTruth

/-!
# The function of a circuit

A loop-free `OUTPUT` is a Boolean function of the input gates.  The Table of Truth lists
it: every assignment of the inputs has one row, with the value of the function there.

* `table_function`: the rows of the table against the assignments of the inputs.
-/

namespace SimGate

open Execution

/-! ## The rows and the assignments -/

/-- Row `r` has the bits of the assignment. -/
def SimMap.RowOf (map : SimMap) (σ : Id → Bool) (r : Nat) : Prop :=
  ∀ (j : Nat) id, map.inputs[j]? = some id → r.testBit j = σ id

theorem SimMap.exists_row (map : SimMap) (σ : Id → Bool) :
    ∃ r, r < 2 ^ map.inputs.length ∧ map.RowOf σ r := by
  refine ⟨Nat.ofBits fun j : Fin map.inputs.length => σ (map.inputs.get j),
    Nat.ofBits_lt_two_pow _, fun j id hj => ?_⟩
  obtain ⟨hlt, hget⟩ := List.getElem?_eq_some_iff.mp hj
  rw [Nat.testBit_ofBits_lt _ _ hlt]
  exact congrArg σ hget

theorem SimMap.RowOf.unique {map : SimMap} {σ : Id → Bool} {r r' : Nat} (h : map.RowOf σ r)
    (h' : map.RowOf σ r') (hr : r < 2 ^ map.inputs.length) (hr' : r' < 2 ^ map.inputs.length) :
    r = r' := by
  apply Nat.eq_of_testBit_eq
  intro j
  rcases Nat.lt_or_ge j map.inputs.length with hlt | hge
  · rw [h j _ (List.getElem?_eq_getElem hlt), h' j _ (List.getElem?_eq_getElem hlt)]
  · have hpow := Nat.pow_le_pow_right Nat.two_pos hge
    rw [Nat.testBit_eq_false_of_lt (hr.trans_le hpow),
      Nat.testBit_eq_false_of_lt (hr'.trans_le hpow)]

/-- The switches of the row stand as the assignment says. -/
theorem SimMap.RowOf.type_eq {map : SimMap} {σ : Id → Bool} {r : Nat} (h : map.RowOf σ r)
    {it : Entry} (hit : it ∈ map.elems) :
    map.switchedType r it.first = (it.first.switch σ).type := by
  unfold switchedType CommonData.switch
  split
  · next hi =>
    have hmem : it.first.id ∈ map.inputs :=
      List.mem_map.mpr ⟨it, List.mem_filter.mpr ⟨hit, hi⟩, rfl⟩
    have hidx := List.idxOf_lt_length_of_mem hmem
    have hat := congrArg some (List.getElem_idxOf hidx)
    have hbit := h _ _ ((List.getElem?_eq_getElem hidx).trans hat)
    rw [hbit]
    cases σ it.first.id <;> simp
  · rfl

/-! ## The meaning of a circuit under an assignment -/

/-- Two maps with the same gates and connections. -/
def SimMap.SameCircuit (map map' : SimMap) : Prop :=
  ∀ id, (map.find? id).map (fun it => (it.first.type, it.second)) =
    (map'.find? id).map fun it => (it.first.type, it.second)

theorem SimMap.SameCircuit.symm {map map' : SimMap} (h : map.SameCircuit map') :
    map'.SameCircuit map :=
  fun id => (h id).symm

theorem SimMap.SameCircuit.find {map map' : SimMap} (h : map.SameCircuit map') {id : Id}
    {it : Entry} (hit : map.find? id = some it) :
    ∃ it', map'.find? id = some it' ∧ it'.first.type = it.first.type ∧
      it'.second = it.second := by
  have hsame := h id
  rw [hit] at hsame
  obtain ⟨it', hit', heq⟩ := Option.map_eq_some_iff.mp hsame.symm
  obtain ⟨htype, hsecond⟩ := Prod.mk.inj heq
  exact ⟨it', hit', htype, hsecond⟩

theorem Denotes.same {map map' : SimMap} (h : map.SameCircuit map') {id : Id} {b : Bool}
    (hd : Denotes map id b) : Denotes map' id b := by
  induction hd with
  | unconnected => exact .unconnected
  | @absent id hnone =>
    refine .absent (Option.map_eq_none_iff.mp ((h id).symm.trans ?_))
    rw [hnone]
    rfl
  | high hit ht =>
    obtain ⟨it', hit', htype, _⟩ := h.find hit
    exact .high hit' (htype.trans ht)
  | low hit ht =>
    obtain ⟨it', hit', htype, _⟩ := h.find hit
    exact .low hit' (htype.trans ht)
  | @gate id it x y hit hi _ _ ihx ihy =>
    obtain ⟨it', hit', htype, hsecond⟩ := h.find hit
    rw [← htype]
    refine .gate hit' ?_ ?_ ?_
    · rw [CommonData.isInput, htype]
      exact hi
    · rw [hsecond]
      exact ihx
    · rw [hsecond]
      exact ihy

theorem SimMap.RowOf.sameCircuit {map : SimMap} {σ : Id → Bool} {r : Nat} (h : map.RowOf σ r) :
    (map.switched r).SameCircuit (map.assign σ) := by
  intro id
  rw [SimMap.switched, KeySet.find?_map, find_assign]
  cases hit : map.find? id with
  | none => rfl
  | some it =>
    have htype := h.type_eq (KeySet.mem_of_find? hit)
    exact congrArg some (Prod.ext ((CommonData.create_type ..).trans htype) rfl)

theorem SimMap.NonzeroIds.switched {map : SimMap} (hid : map.NonzeroIds) (r : Nat) :
    (map.switched r).NonzeroIds := by
  intro it hit
  obtain ⟨it', hit', rfl⟩ := List.mem_map.mp hit
  rw [Entry.id, Entry.update, CommonData.create_id]
  exact hid it' hit'

/-! ## The table -/

/-- Row `r` is the row of the assignment: it shows the inputs that some `OUTPUT` reads, and
the function of every `OUTPUT` that is not behind a loop. -/
structure TableDialog.Lists (td : TableDialog) (map : SimMap) (σ : Id → Bool) (r : Nat) :
    Prop where
  row : map.RowOf σ r
  read : ∀ (j : Nat) id, map.inputs[j]? = some id → map.ReadByOutput id →
    ⟨r, j, cellText (ofBool (σ id))⟩ ∈ td.items
  unread : ∀ (j : Nat) id, map.inputs[j]? = some id → ¬ map.ReadByOutput id →
    ⟨r, j, cellText .unknown⟩ ∈ td.items
  output : ∀ (k : Nat) o, map.outputs[k]? = some o → map.LoopFree o →
    ∃ b, (∀ c, Denotes (map.assign σ) o c ↔ c = b) ∧
      ⟨r, (map.inputs.length + k : Nat), cellText (ofBool b)⟩ ∈ td.items

/-- **The truth table.**  Within the limits of the window every assignment of the inputs
has exactly one row, and the row has the function of the circuit. -/
theorem table_function (p : Platform) {map : SimMap} (hid : map.NonzeroIds)
    (hn : 1 ≤ map.inputs.length) (hn' : map.inputs.length ≤ 30)
    (hlen : (map.inputs ++ map.outputs).length < 0x80000000) :
    ∃ td, Returns (fun fuel => tableOfTruth p fuel map) td ∧
      ∀ σ, ∃! r, r < 2 ^ map.inputs.length ∧ td.Lists map σ r := by
  obtain ⟨rows, s, hrun, hrows, hcells⟩ := generateCombination_returns (.start map) _ hn
  obtain ⟨td, htable, htab⟩ := tableOfTruth_returns p hn' hlen hrun hrows
  refine ⟨td, htable, fun σ => ?_⟩
  obtain ⟨r, hr, hrow⟩ := map.exists_row σ
  obtain ⟨row, t, hget, ht, hvalue⟩ := hcells r hr
  have hcell : ∀ (col : Nat) id, (map.inputs ++ map.outputs)[col]? = some id →
      ⟨r, col, TableDialog.cellText (t.sim.getValue id)⟩ ∈ td.items := by
    intro col id hcol
    obtain ⟨it, hit, hio⟩ := find_of_column hcol
    have hcell := htab.cells r col row id hget hcol
    rwa [retValue, hvalue id it hit hio] at hcell
  have hinput : ∀ {j : Nat} {id}, map.inputs[j]? = some id →
      (map.inputs ++ map.outputs)[j]? = some id := fun hj =>
    (List.getElem?_append_left (List.getElem?_eq_some_iff.mp hj).1).trans hj
  refine ⟨r, ⟨hr, hrow, fun j id hj hread => ?_, fun j id hj hunread => ?_, fun k o hk hfree => ?_⟩,
    fun r' h' => h'.2.row.unique hrow h'.1 hr⟩
  · have hval := (getValue_switched hj ht).1 hread
    rw [hrow j id hj] at hval
    have h := hcell j id (hinput hj)
    rwa [hval] at h
  · have hval := (getValue_switched hj ht).2 hunread
    have h := hcell j id (hinput hj)
    rwa [hval] at h
  · have hout : (map.switched r).ReadByOutput o :=
      ⟨o, outputs_switched map r ▸ List.mem_of_getElem? hk, .refl⟩
    have hloop : (map.switched r).LoopFree o := by
      rw [SimMap.LoopFree, wiring_switched]
      exact hfree
    obtain ⟨b, hb, hval⟩ := reports_denotes (SimMap.NonzeroIds.switched hid r)
      (switched_fresh map r) ⟨t, ht, rfl⟩ hout hloop
    refine ⟨b, fun c => ?_, ?_⟩
    · rw [← hb c]
      exact ⟨.same hrow.sameCircuit.symm, .same hrow.sameCircuit⟩
    · rw [← hval]
      exact hcell _ o ((List.getElem?_append_right (Nat.le_add_right ..)).trans
        (by rwa [Nat.add_sub_cancel_left]))

/-- Two inputs, a gate that reads both and a latch behind a second output. -/
def besideLoop : SimMap := .ofGates [(.highState, 1, 0, 0), (.lowState, 2, 0, 0), (.nor, 3, 1, 2),
  (.nor, 4, 2, 5), (.not, 5, 4, 0), (.output, 6, 3, 0), (.output, 7, 5, 0)]

theorem table_function_besideLoop :
    besideLoop.NonzeroIds ∧ besideLoop.inputs = [1, 2] ∧ besideLoop.outputs = [6, 7] ∧
      ∃ td, Returns (fun fuel => tableOfTruth .qt fuel besideLoop) td ∧
        ∀ σ, ∃! r, r < 2 ^ besideLoop.inputs.length ∧ td.Lists besideLoop σ r := by
  have hin : besideLoop.inputs = [1, 2] := by decide
  have hout : besideLoop.outputs = [6, 7] := by decide
  exact ⟨by decide, hin, hout, table_function .qt (by decide) (by simp [hin]) (by simp [hin])
    (by simp [hin, hout])⟩

end SimGate

import Mathlib.Data.List.ProdSigma
import SimGate.TruthTable

/-!
# The Table of Truth (`mainwindow.cpp`, `TableOfTruth.h`)

The handler of the button, from the sizing of the table to its last cell, for a
table that is not open yet.  `tableOfTruth_iff` says for which maps the table
gets the shape of the rows that `generateCombination` returns.
-/

namespace SimGate

open Execution

/-! ## The table -/

/-- The conversion of a 64-bit value to the `int` of the widget. -/
def toInt32 (value : Nat) : Int := (value : Int).bmod 0x100000000

/-- What the table takes from outside: the conversion of a `double` that holds a
power of two to `size_t`, undefined beyond the range of `size_t`, and the column
count of a new `QTableWidget` after `setColumnCount`. -/
structure Platform where
  toSize : Nat → Nat
  columnCount : Int → Int
  toSize_eq : ∀ value, value < 0x10000000000000000 → toSize value = value
  columnCount_eq : ∀ columns, 0 ≤ columns → columns < 0x80000000 → columnCount columns = columns
  columnCount_nonneg : ∀ columns, 0 ≤ columnCount columns
  columnCount_lt : ∀ columns, columnCount columns < 0x80000000

/-- The failing assertion of the handler, an index beyond a vector, and what the
simulator does not survive. -/
inductive TableFault
  | assertion | outOfRange
  | simulator (fault : SimFault)
  deriving DecidableEq, Repr

/-- A column's header, and the gate that gets the same text as its label. -/
structure Header where
  column : Int
  name : String
  id : Id
  deriving DecidableEq, Repr

structure Item where
  row : Int
  col : Int
  text : String
  deriving DecidableEq, Repr

/-- `items` lists the calls of `setItem`. -/
structure TableDialog where
  columnCount : Int
  headers : List Header
  rowCount : Int
  items : List Item
  deriving DecidableEq, Repr

/-- The turn of `init` for one column. -/
def header (inputIds outputIds : List Id) (i : Nat) : Except TableFault Header :=
  let inputCounter := inputIds.length
  if i < inputCounter then
    match inputIds[i]? with
    | some id => .ok ⟨toInt32 i, "Input" ++ toString (i + 1), id⟩
    | none => .error .outOfRange
  else
    let outNumber := i - inputCounter
    match outputIds[outNumber]? with
    | some id => .ok ⟨toInt32 i, "Output" ++ toString (outNumber + 1), id⟩
    | none => .error .outOfRange

namespace TableDialog

def init (p : Platform) (inputIds outputIds : List Id) : Except TableFault TableDialog := do
  let combinationCount := p.toSize (2 ^ inputIds.length)
  let columnCount := p.columnCount (toInt32 (inputIds.length + outputIds.length))
  let headers ← (List.range columnCount.toNat).mapM (header inputIds outputIds)
  .ok ⟨columnCount, headers, toInt32 combinationCount, []⟩

def cellText : CommonValueOutput → String
  | .high => "1"
  | .low => "0"
  | .unknown => "~"

def fill (row col : Nat) (ret : CommonValueOutput) (td : TableDialog) : TableDialog :=
  { td with items := td.items ++ [⟨toInt32 row, toInt32 col, cellText ret⟩] }

end TableDialog

/-- `operator[]` of a row; a key that is not there gets the code 0. -/
def retValue (ret : RetValMap) (id : Id) : CommonValueOutput :=
  match ret.find? id with
  | some it => it.2
  | none => .low

/-- The loop of the handler over one of the two vectors; it carries the column on. -/
def fillIds (ret : RetValMap) (row : Nat) : List Id → Nat → TableDialog → Nat × TableDialog
  | [], col, td => (col, td)
  | id :: ids, col, td => fillIds ret row ids (col + 1) (td.fill row col (retValue ret id))

def fillRows (inputsVector outputVector : List Id) :
    List RetValMap → Nat → TableDialog → TableDialog
  | [], _, td => td
  | ret :: rest, row, td =>
    let (col, td) := fillIds ret row inputsVector 0 td
    let (_, td) := fillIds ret row outputVector col td
    fillRows inputsVector outputVector rest (row + 1) td

/-- The handler. -/
def tableOfTruth (p : Platform) (fuel : Nat) (map : SimMap) : Except TableFault TableDialog := do
  let inputsVector := map.inputs
  let outputVector := map.outputs
  let dialog ← TableDialog.init p inputsVector outputVector
  match generateCombination fuel (.start map) inputsVector.length with
  | .error e => .error (.simulator e)
  | .ok (none, _) => .error .assertion
  | .ok (some retVals, _) => .ok (fillRows inputsVector outputVector retVals 0 dialog)

/-! ## Conversions -/

theorem toInt32_eq {value : Nat} (h : value < 0x80000000) : toInt32 value = value := by
  apply Int.bmod_eq_of_le <;> simp only [Nat.cast_ofNat] <;> omega

theorem toInt32_lt (value : Nat) : toInt32 value < 0x80000000 := by
  have h := Int.bmod_lt (x := (value : Int)) (m := 0x100000000) (by omega)
  simp only [Nat.cast_ofNat] at h
  unfold toInt32
  omega

/-! ## What is written -/

/-- The items of one row. -/
def rowItems (ret : RetValMap) (row : Nat) (ids : List Id) (col : Nat) : List Item :=
  (ids.zipIdx col).map fun p =>
    ⟨toInt32 row, toInt32 p.2, TableDialog.cellText (retValue ret p.1)⟩

theorem fillIds_eq (ret : RetValMap) (row : Nat) (ids : List Id) (col : Nat) (td : TableDialog) :
    fillIds ret row ids col td =
      (col + ids.length, { td with items := td.items ++ rowItems ret row ids col }) := by
  induction ids generalizing col td with
  | nil => simp [fillIds, rowItems]
  | cons id ids ih =>
    rw [fillIds, ih]
    simp only [TableDialog.fill, rowItems, List.zipIdx_cons, List.map_cons, List.length_cons,
      List.append_assoc, List.singleton_append, Prod.mk.injEq, and_true]
    omega

theorem rowItems_append (ret : RetValMap) (row : Nat) (ids ids' : List Id) (col : Nat) :
    rowItems ret row (ids ++ ids') col =
      rowItems ret row ids col ++ rowItems ret row ids' (col + ids.length) := by
  simp [rowItems, List.zipIdx_append]

theorem fillRows_eq (inputs outputs : List Id) (rows : List RetValMap) (row : Nat)
    (td : TableDialog) :
    fillRows inputs outputs rows row td =
      { td with items := td.items ++
          (rows.zipIdx row).flatMap fun p => rowItems p.1 p.2 (inputs ++ outputs) 0 } := by
  induction rows generalizing row td with
  | nil => simp [fillRows]
  | cons ret rest ih =>
    simp only [fillRows, fillIds_eq, ih, List.zipIdx_cons, List.flatMap_cons, rowItems_append,
      List.append_assoc]

/-! ## The shape of the table -/

/-- Where an item is put. -/
def Item.cell (it : Item) : Int × Int := (it.row, it.col)

/-- A table with one column for every gate of `ids` and one row for every row of
`generateCombination`, each cell written once. -/
structure Tabulated (ids : List Id) (rows : List RetValMap) (td : TableDialog) : Prop where
  columns : td.columnCount = ids.length
  rowCount : td.rowCount = rows.length
  headers : td.headers.map (fun h => (h.id, h.column)) =
    ids.zipIdx.map fun p => (p.1, (p.2 : Int))
  inside : ∀ it ∈ td.items, 0 ≤ it.row ∧ it.row < td.rowCount ∧ 0 ≤ it.col ∧
    it.col < td.columnCount
  once : (td.items.map Item.cell).Nodup
  cells : ∀ (r c : Nat) ret id, rows[r]? = some ret → ids[c]? = some id →
    ⟨r, c, TableDialog.cellText (retValue ret id)⟩ ∈ td.items

theorem cell_rowItems (ids : List Id) (rows : List RetValMap) (row : Nat) :
    ((rows.zipIdx row).flatMap fun p => rowItems p.1 p.2 ids 0).map Item.cell =
      (List.range' row rows.length ×ˢ List.range ids.length).map
        fun p => (toInt32 p.1, toInt32 p.2) := by
  have hcol : List.range ids.length = ids.zipIdx.map Prod.snd := by
    rw [List.zipIdx_map_snd, List.range_eq_range']
  rw [← List.zipIdx_map_snd row rows, hcol]
  simp only [List.map_flatMap, SProd.sprod, List.product, rowItems, Item.cell, List.map_map,
    List.flatMap_map, Function.comp_def]

/-- What the table is filled with. -/
def tableItems (ids : List Id) (rows : List RetValMap) : List Item :=
  (rows.zipIdx 0).flatMap fun p => rowItems p.1 p.2 ids 0

theorem nodup_tableItems {ids : List Id} {rows : List RetValMap}
    (hids : ids.length < 0x80000000) (hrows : rows.length < 0x80000000) :
    ((tableItems ids rows).map Item.cell).Nodup := by
  rw [tableItems, cell_rowItems]
  apply List.Nodup.map_on
  · rintro ⟨r, c⟩ h ⟨r', c'⟩ h' heq
    simp only [List.mem_product, List.mem_range'_1, List.mem_range] at h h'
    rw [toInt32_eq (by omega), toInt32_eq (by omega), toInt32_eq (by omega),
      toInt32_eq (by omega)] at heq
    simp only [Prod.mk.injEq] at heq
    exact Prod.ext (by omega) (by omega)
  · exact List.Nodup.product List.nodup_range' List.nodup_range

theorem mem_tableItems {ids : List Id} {rows : List RetValMap}
    (hids : ids.length < 0x80000000) (hrows : rows.length < 0x80000000) {it : Item} :
    it ∈ tableItems ids rows ↔ ∃ (r c : Nat) (ret : RetValMap) (id : Id),
      rows[r]? = some ret ∧ ids[c]? = some id ∧
        it = ⟨r, c, TableDialog.cellText (retValue ret id)⟩ := by
  have hr : ∀ {r : Nat} {ret : RetValMap}, rows[r]? = some ret → toInt32 r = r := fun h =>
    toInt32_eq (by have := (List.getElem?_eq_some_iff.mp h).1; omega)
  have hc : ∀ {c : Nat} {id : Id}, ids[c]? = some id → toInt32 c = c := fun h =>
    toInt32_eq (by have := (List.getElem?_eq_some_iff.mp h).1; omega)
  simp only [tableItems, rowItems, List.mem_flatMap, List.mem_map, Prod.exists,
    List.mem_zipIdx_iff_getElem?]
  constructor
  · rintro ⟨ret, r, hret, id, c, hid, rfl⟩
    exact ⟨r, c, ret, id, hret, hid, by rw [hr hret, hc hid]⟩
  · rintro ⟨r, c, ret, id, hret, hid, rfl⟩
    exact ⟨ret, r, hret, id, c, hid, by rw [hr hret, hc hid]⟩

/-- The header of the column of a gate. -/
def columnHeader (inputCounter : Nat) (p : Id × Nat) : Header :=
  ⟨toInt32 p.2, if p.2 < inputCounter then "Input" ++ toString (p.2 + 1)
    else "Output" ++ toString (p.2 - inputCounter + 1), p.1⟩

theorem header_eq_ok {inputs outputs : List Id} {i : Nat} {id : Id}
    (hi : (inputs ++ outputs)[i]? = some id) :
    header inputs outputs i = .ok (columnHeader inputs.length (id, i)) := by
  unfold header
  by_cases h : i < inputs.length
  · rw [List.getElem?_append_left h] at hi
    simp only [columnHeader, h, if_true, hi]
  · rw [List.getElem?_append_right (by omega)] at hi
    simp only [columnHeader, h, if_false, hi]

/-- Below `2 ^ 31` columns every column is asked for and gets its header. -/
theorem init_eq_ok (p : Platform) {inputs outputs : List Id}
    (hlen : (inputs ++ outputs).length < 0x80000000) :
    TableDialog.init p inputs outputs =
      .ok ⟨(inputs ++ outputs).length,
        (inputs ++ outputs).zipIdx.map (columnHeader inputs.length),
        toInt32 (p.toSize (2 ^ inputs.length)), []⟩ := by
  have hcount : p.columnCount (toInt32 (inputs.length + outputs.length)) =
      (inputs ++ outputs).length := by
    rw [List.length_append] at hlen ⊢
    rw [toInt32_eq hlen, p.columnCount_eq _ (by omega) (by omega)]
  have hrange : List.range (inputs ++ outputs).length =
      (inputs ++ outputs).zipIdx.map Prod.snd := by
    rw [List.zipIdx_map_snd, List.range_eq_range']
  have hheaders : (List.range (inputs ++ outputs).length).mapM (header inputs outputs) =
      .ok ((inputs ++ outputs).zipIdx.map (columnHeader inputs.length)) := by
    rw [hrange, List.mapM_map]
    exact mapM_eq_ok fun q hq => header_eq_ok (List.mem_zipIdx_iff_getElem?.mp hq)
  simp only [TableDialog.init, hcount, Int.toNat_natCast, hheaders]
  rfl

/-- The counts of a table that `init` returns. -/
theorem init_counts {p : Platform} {inputs outputs : List Id} {td : TableDialog}
    (h : TableDialog.init p inputs outputs = .ok td) :
    td.columnCount = p.columnCount (toInt32 (inputs.length + outputs.length)) ∧
      td.rowCount = toInt32 (p.toSize (2 ^ inputs.length)) := by
  unfold TableDialog.init at h
  obtain ⟨headers, -, h⟩ := bind_eq_ok h
  simp only [Except.ok.injEq] at h
  simp only [← h, and_self]

/-- A table that the handler shows has the counts that `init` gave it, and the
assertion held. -/
theorem tableOfTruth_counts {p : Platform} {map : SimMap} {td : TableDialog}
    (h : Returns (fun fuel => tableOfTruth p fuel map) td) :
    1 ≤ map.inputs.length ∧
      td.columnCount = p.columnCount (toInt32 (map.inputs.length + map.outputs.length)) ∧
      td.rowCount = toInt32 (p.toSize (2 ^ map.inputs.length)) := by
  obtain ⟨fuel, hfuel⟩ := h
  obtain ⟨dialog, hinit, h⟩ := bind_eq_ok (hfuel fuel (Nat.le_refl fuel))
  rcases hrun : generateCombination fuel (.start map) map.inputs.length with
    e | ⟨_ | rows, s⟩ <;> simp only [hrun] at h
  · cases h
  · cases h
  · have hn : map.inputs.length ≠ 0 := by
      intro hn
      rw [hn] at hrun
      cases hrun
    obtain ⟨hcolumnCount, hrowCount⟩ := init_counts hinit
    simp only [fillRows_eq, Except.ok.injEq] at h
    rw [← h]
    exact ⟨Nat.pos_of_ne_zero hn, hcolumnCount, hrowCount⟩

/-- With its sizes in range, the table gets the shape of the rows. -/
theorem fillRows_tabulated {inputs outputs : List Id} {rows : List RetValMap}
    (hids : (inputs ++ outputs).length < 0x80000000) (hrows : rows.length < 0x80000000) :
    Tabulated (inputs ++ outputs) rows (fillRows inputs outputs rows 0
      ⟨(inputs ++ outputs).length, (inputs ++ outputs).zipIdx.map (columnHeader inputs.length),
        rows.length, []⟩) := by
  rw [fillRows_eq, List.nil_append]
  refine ⟨rfl, rfl, ?_, ?_, nodup_tableItems hids hrows, ?_⟩
  · rw [List.map_map]
    apply List.map_congr_left
    intro q hq
    have hlt := (List.getElem?_eq_some_iff.mp (List.mem_zipIdx_iff_getElem?.mp hq)).1
    simp only [Function.comp_apply, columnHeader, toInt32_eq (hlt.trans hids)]
  · intro it hit
    obtain ⟨r, c, ret, id, hret, hid, rfl⟩ := (mem_tableItems hids hrows).mp hit
    have hr := (List.getElem?_eq_some_iff.mp hret).1
    have hc := (List.getElem?_eq_some_iff.mp hid).1
    refine ⟨?_, ?_, ?_, ?_⟩ <;> simp only <;> omega
  · intro r c ret id hret hid
    exact (mem_tableItems hids hrows).mpr ⟨r, c, ret, id, hret, hid, rfl⟩

/-- Within its limits the handler returns, and the table lists the rows. -/
theorem tableOfTruth_returns (p : Platform) {map : SimMap} (hn : map.inputs.length ≤ 30)
    (hlen : (map.inputs ++ map.outputs).length < 0x80000000)
    {rows : List RetValMap} {s : SimState}
    (hrun : Returns (fun fuel => generateCombination fuel (.start map) map.inputs.length)
      (some rows, s)) (hrows : rows.length = 2 ^ map.inputs.length) :
    ∃ td, Returns (fun fuel => tableOfTruth p fuel map) td ∧
      Tabulated (map.inputs ++ map.outputs) rows td := by
  have hpow : 2 ^ map.inputs.length ≤ 2 ^ 30 := Nat.pow_le_pow_right (by omega) hn
  have hrows' : rows.length < 0x80000000 := by omega
  have hinit := init_eq_ok p hlen
  rw [p.toSize_eq _ (by omega), ← hrows, toInt32_eq hrows'] at hinit
  refine ⟨_, ?_, fillRows_tabulated hlen hrows'⟩
  obtain ⟨N, hN⟩ := hrun
  refine ⟨N, fun fuel hfuel => ?_⟩
  simp only [tableOfTruth, hinit, hN fuel hfuel]
  rfl

/-- A gate with a column is an input or an output of the map. -/
theorem find_of_column {map : SimMap} {col : Nat} {id : Id}
    (h : (map.inputs ++ map.outputs)[col]? = some id) :
    ∃ it, map.find? id = some it ∧ (it.first.isInput ∨ it.first.isOutput) := by
  rcases List.mem_append.mp (List.mem_of_getElem? h) with hin | hout
  · obtain ⟨it, hit, rfl⟩ := List.mem_map.mp hin
    obtain ⟨hit, hi⟩ := List.mem_filter.mp hit
    exact ⟨it, KeySet.find?_of_mem hit, Or.inl hi⟩
  · obtain ⟨it, hit, ht⟩ := mem_outputs.mp hout
    exact ⟨it, hit, Or.inr (by simpa [CommonData.isOutput] using ht)⟩

/-- **The table.**  The handler runs to its end and gives the table the shape of
the rows of `generateCombination` exactly when there is an input gate, at most
30 of them, and fewer than `2 ^ 31` columns. -/
theorem tableOfTruth_iff (p : Platform) (map : SimMap) :
    (∃ rows s td,
      Returns (fun fuel => generateCombination fuel (.start map) map.inputs.length)
        (some rows, s) ∧
      Returns (fun fuel => tableOfTruth p fuel map) td ∧
      Tabulated (map.inputs ++ map.outputs) rows td) ↔
    1 ≤ map.inputs.length ∧ map.inputs.length ≤ 30 ∧
      map.inputs.length + map.outputs.length < 0x80000000 := by
  rw [← List.length_append]
  constructor
  · rintro ⟨rows, s, td, hrun, htable, htab⟩
    obtain ⟨hn, hcolumnCount, hrowCount⟩ := tableOfTruth_counts htable
    obtain ⟨rows', s', hrun', hrows, -⟩ := generateCombination_returns (.start map) _ hn
    cases hrun.unique hrun'
    have hrowCount' := htab.rowCount.symm.trans hrowCount
    have hcolumnCount' := htab.columns.symm.trans hcolumnCount
    refine ⟨hn, ?_, ?_⟩
    · have hlt := toInt32_lt (p.toSize (2 ^ map.inputs.length))
      by_contra hle
      have hpow : 2 ^ 31 ≤ 2 ^ map.inputs.length := Nat.pow_le_pow_right (by omega) (by omega)
      omega
    · have hlt := p.columnCount_lt (toInt32 (map.inputs.length + map.outputs.length))
      omega
  · rintro ⟨hn, hn', hlen⟩
    obtain ⟨rows, s, hrun, hrows, -⟩ := generateCombination_returns (.start map) _ hn
    have hpow : 2 ^ map.inputs.length ≤ 2 ^ 30 := Nat.pow_le_pow_right (by omega) hn'
    have hrows' : rows.length < 0x80000000 := by omega
    have hinit := init_eq_ok p hlen
    rw [p.toSize_eq _ (by omega), ← hrows, toInt32_eq hrows'] at hinit
    refine ⟨rows, s, _, hrun, ?_, fillRows_tabulated hlen hrows'⟩
    obtain ⟨N, hN⟩ := hrun
    refine ⟨N, fun fuel hfuel => ?_⟩
    simp only [tableOfTruth, hinit, hN fuel hfuel]
    rfl

/-- An out of range `double` converted to 0, and a new table without columns. -/
def Platform.qt : Platform where
  toSize value := if value < 0x10000000000000000 then value else 0
  columnCount columns := if 0 ≤ columns ∧ columns < 0x80000000 then columns else 0
  toSize_eq value h := if_pos h
  columnCount_eq columns h h' := if_pos ⟨h, h'⟩
  columnCount_nonneg columns := by split <;> omega
  columnCount_lt columns := by split <;> omega

/-- A scheme with one `OUTPUT` and no input gate. -/
def outputOnly : SimMap := .ofGates [(.output, 1, 0, 0)]

/-- Without input gates the table is set up and then the assertion fails. -/
theorem outputOnly_assertion :
    outputOnly.inputs = [] ∧ outputOnly.outputs = [1] ∧
    ∀ fuel, tableOfTruth .qt fuel outputOnly = .error .assertion := by
  have hin : outputOnly.inputs = [] := by decide
  have hout : outputOnly.outputs = [1] := by decide
  have hlen : (outputOnly.inputs ++ outputOnly.outputs).length < 0x80000000 := by
    simp [hin, hout]
  refine ⟨hin, hout, fun fuel => ?_⟩
  simp only [tableOfTruth, init_eq_ok .qt hlen]
  rw [hin]
  rfl

end SimGate

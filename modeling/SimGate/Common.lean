import Mathlib.Data.Nat.Basic
import SimGate.Lib.KeySet

/-!
# Gates and maps of gates (`Common.h`)

Gate ids are only compared and looked up, so they are natural numbers.  A
`SimMap` is an ordered map keyed by the id inside `CommonData`; `type` and `out`
are mutable through the constant key, so both are changed in place.
-/

namespace SimGate

abbrev Id := Nat

def gNotValidGateId : Id := 0

inductive CommonGateType
  | and | nand | or | nor | xor | not | highState | lowState | output | enumSize
  deriving DecidableEq, Repr

inductive CommonValueOutput
  | low | high | unknown
  deriving DecidableEq, Repr

/-- The codes 0, 0xFF and 2 of the enumeration. -/
def CommonValueOutput.toByte : CommonValueOutput → UInt8
  | .low => 0
  | .high => 0xFF
  | .unknown => 2

structure CommonData where
  type : CommonGateType
  id : Id
  out : CommonValueOutput
  deriving DecidableEq, Repr

namespace CommonData

def isInput (d : CommonData) : Bool := d.type = .highState ∨ d.type = .lowState

def isOutput (d : CommonData) : Bool := d.type = .output

def setOutput (out : CommonValueOutput) (d : CommonData) : CommonData := { d with out := out }

def defaultValue (d : CommonData) : CommonData :=
  match d.type with
  | .highState => { d with out := .high }
  | .lowState => { d with out := .low }
  | _ => { d with out := .unknown }

def setType (type : CommonGateType) (d : CommonData) : CommonData :=
  ({ d with type := type }).defaultValue

/-- The two-argument constructor; it leaves `out` to `setType`. -/
def create (type : CommonGateType) (id : Id) : CommonData :=
  setType type ⟨.enumSize, id, .unknown⟩

end CommonData

abbrev InputPair := Id × Id

/-- An element of the map: the gate, and the ids wired to its two inputs. -/
structure Entry where
  first : CommonData
  second : InputPair
  deriving DecidableEq, Repr

def Entry.id (it : Entry) : Id := it.first.id

/-- Change the gate of an element; the id and the wiring stay. -/
def Entry.update (f : CommonData → CommonData) (it : Entry) : Entry :=
  { it with first := f it.first }

abbrev SimMap := KeySet Entry.id

/-- Insert a new gate with its wiring; a taken id keeps its old gate. -/
def SimMap.insertGate (map : SimMap) (type : CommonGateType) (id : Id) (inputs : InputPair) :
    SimMap := map.insert ⟨.create type id, inputs⟩

def SimMap.ofGates (gates : List (CommonGateType × Id × InputPair)) : SimMap :=
  gates.foldl (fun map g => map.insertGate g.1 g.2.1 g.2.2) ∅

/-! ## Fields after an update -/

@[simp] theorem CommonData.setOutput_id (d : CommonData) (v : CommonValueOutput) :
    (d.setOutput v).id = d.id := rfl
@[simp] theorem CommonData.setOutput_out (d : CommonData) (v : CommonValueOutput) :
    (d.setOutput v).out = v := rfl
@[simp] theorem CommonData.setOutput_isInput (d : CommonData) (v : CommonValueOutput) :
    (d.setOutput v).isInput = d.isInput := rfl

@[simp] theorem CommonData.defaultValue_id (d : CommonData) : d.defaultValue.id = d.id := by
  unfold CommonData.defaultValue; split <;> rfl
@[simp] theorem CommonData.defaultValue_type (d : CommonData) :
    d.defaultValue.type = d.type := by
  unfold CommonData.defaultValue; split <;> rfl
@[simp] theorem CommonData.setType_id (d : CommonData) (t : CommonGateType) :
    (d.setType t).id = d.id := by simp [CommonData.setType]
@[simp] theorem CommonData.setType_type (d : CommonData) (t : CommonGateType) :
    (d.setType t).type = t := by simp [CommonData.setType]

@[simp] theorem Entry.update_first (it : Entry) (f : CommonData → CommonData) :
    (it.update f).first = f it.first := rfl
@[simp] theorem Entry.update_second (it : Entry) (f : CommonData → CommonData) :
    (it.update f).second = it.second := rfl

theorem Entry.update_key {f : CommonData → CommonData} (hf : ∀ d, (f d).id = d.id)
    (it : Entry) : (it.update f).id = it.id := hf it.first

/-- The initial `out` does not matter after `defaultValue`. -/
theorem CommonData.defaultValue_eq (d : CommonData) : d.defaultValue = .create d.type d.id := by
  unfold CommonData.create CommonData.setType CommonData.defaultValue
  cases d.type <;> rfl

@[simp] theorem CommonData.create_type (t : CommonGateType) (id : Id) :
    (CommonData.create t id).type = t := by simp [CommonData.create]
@[simp] theorem CommonData.create_id (t : CommonGateType) (id : Id) :
    (CommonData.create t id).id = id := by simp [CommonData.create]

theorem CommonData.isInput_iff (d : CommonData) :
    d.isInput = true ↔ d.type = .highState ∨ d.type = .lowState := by
  simp [CommonData.isInput]

end SimGate

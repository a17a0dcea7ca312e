import SimGate.Area

/-!
# Project files (`schemearea_save.cpp`)

A file is a list of tagged elements.  `fread` at its end leaves the element
read last in the reader; before the first read the reader is uninitialised.
-/

namespace SimGate

/-- The elements; `other` stands for a tag without a case in the decoder. -/
inductive Element
  | x (value : Qreal)
  | y (value : Qreal)
  | gateType (value : Nat)
  | input (value : Id)
  | gateId (value : Id)
  | endEntity
  | endFile
  | other
  deriving DecidableEq, Repr

def CommonGateType.code : CommonGateType → Nat
  | .and => 0
  | .nand => 1
  | .or => 2
  | .nor => 3
  | .xor => 4
  | .not => 5
  | .highState => 6
  | .lowState => 7
  | .output => 8
  | .enumSize => 9

/-- The cast from a 64-bit value; all codes without a gate type fall into the
same default cases. -/
def CommonGateType.ofCode (value : Nat) : CommonGateType :=
  match value % 0x100 with
  | 0 => .and
  | 1 => .nand
  | 2 => .or
  | 3 => .nor
  | 4 => .xor
  | 5 => .not
  | 6 => .highState
  | 7 => .lowState
  | 8 => .output
  | _ => .enumSize

namespace Area

/-! ## Saving -/

/-- The elements of one gate. -/
def saveGate (a : Area) (gate : Gate) : Except Fault (List Element) := do
  let gate1 ← gate.getInput .input1 a.scene
  let input1 ← a.inputId gate1
  let gate2 ← gate.getInput .input2 a.scene
  let input2 ← a.inputId gate2
  .ok [.gateId gate.id, .gateType gate.type.code, .x gate.x, .y gate.y, .input input1,
    .input input2, .endEntity]

def saveProject (a : Area) : Except Fault (List Element) := do
  let entities ← a.m_gates.elems.mapM a.saveGate
  .ok (entities.flatten ++ [.endFile])

/-! ## Loading -/

/-- The variables of the decode loop. -/
structure Decoder where
  reader : Element
  id : Id
  connVec : List (Id × Id)
  x : Qreal
  y : Qreal
  type : CommonGateType

def Decoder.start (reader : Element) : Decoder := ⟨reader, gNotValidGateId, [], 0, 0, .output⟩

def decodeLoop : Nat → List Element → Decoder → Area → Except Fault (Decoder × Area)
  | 0, _, _, _ => .error .outOfFuel
  | fuel + 1, file, d, a =>
    let d := { d with reader := file.headD d.reader }
    let file := file.tail
    match d.reader with
    | .gateId value => decodeLoop fuel file { d with id := value } a
    | .gateType value => decodeLoop fuel file { d with type := .ofCode value } a
    | .input value =>
      if value ≠ gNotValidGateId then
        decodeLoop fuel file { d with connVec := d.connVec ++ [(d.id, value)] } a
      else decodeLoop fuel file d a
    | .x value => decodeLoop fuel file { d with x := value } a
    | .y value => decodeLoop fuel file { d with y := value } a
    | .endEntity => a.draw d.type d.id d.x d.y >>= decodeLoop fuel file d
    | .endFile => .ok (d, a)
    | .other => decodeLoop fuel file d a

/-- Click an input of `output` and the output of the gate with the given id. -/
def emitReleased (a : Area) (output : Gate) (slot : HitBoxType) (id : Id) : Except Fault Area :=
  match a.getGate id with
  | none => .error .nullPointer
  | some _input =>
    match output.getHitBox slot, _input.getHitBox .output with
    | some hitBoxInput, some hitBoxoutput => do
      let scene ← a.scene.released hitBoxInput
      let scene ← scene.released hitBoxoutput
      .ok { a with scene := scene }
    | _, _ => .error .nullPointer

/-- The replay of one recorded connection. -/
def connectPair (a : Area) (pair : Id × Id) : Except Fault Area :=
  match a.getGate pair.1 with
  | none => .error .nullPointer
  | some output => do
    match ← output.getInput .input1 a.scene with
    | none => a.emitReleased output .input1 pair.2
    | some _ =>
      if output.type ≠ .output ∧ output.type ≠ .not then a.emitReleased output .input2 pair.2
      else .ok a

/-- `clearGates` and the scene's `clear`, which deletes the gates: a wire's line
stands in the scene after both of its gates, so no line is left when its turn
would come. -/
def clear (a : Area) : Except Fault Area := do
  let scene ← a.m_gates.elems.foldlM (fun scene gate => scene.destroyHitBoxes gate.hitboxes) a.scene
  .ok { a with scene := scene, m_gates := ∅ }

/-- `file` is `none` when the dialog is cancelled or the file cannot be opened. -/
def loadProject (fuel : Nat) (file : Option (List Element)) (reader : Element) (a : Area) :
    Except Fault Area := do
  let a ← a.clear
  match file with
  | none => .ok a
  | some file => do
    let (d, a) ← decodeLoop fuel file (.start reader) a
    d.connVec.foldlM connectPair a

end Area

end SimGate

import SimGate.HitBox

/-!
# The scheme (`schemearea.h`)

`m_gates` holds the gates of the scene in pointer order.  Positions are opaque
numbers that the source compares with 0.  `gen` lists the values that the random
generator will still give.
-/

namespace SimGate

abbrev Qreal := Int

structure Gate where
  ptr : GatePtr
  type : CommonGateType
  valid : Bool
  hitboxes : List HitBoxPtr
  isOutput : Bool
  id : Id
  x : Qreal
  y : Qreal
  pixmap : CommonGateType
  deriving DecidableEq, Repr

structure Area where
  scene : Scene
  m_gates : KeySet Gate.ptr
  nextGate : GatePtr
  simulatorFlag : Bool
  gen : List Id

/-! ## Gates -/

/-- The hitboxes in the order the constructor of `Gate` pushes them. -/
def hitBoxTypes : CommonGateType → List HitBoxType
  | .and | .nand | .or | .nor | .xor => [.input1, .input2, .output]
  | .not => [.input1, .output]
  | .highState | .lowState => [.output]
  | .output => [.input1]
  | .enumSize => []

namespace Gate

/-- The constructor; a type without a picture is not valid. -/
def create (ptr : GatePtr) (type : CommonGateType) (isOutput : Bool) : Gate where
  ptr := ptr
  type := type
  valid := type ≠ .enumSize
  hitboxes := (hitBoxTypes type).map (HitBoxPtr.mk ptr)
  isOutput := isOutput
  id := gNotValidGateId
  x := 0
  y := 0
  pixmap := type

def isValid (g : Gate) : Bool := if g.id = gNotValidGateId then false else g.valid

def setId (id : Id) (g : Gate) : Gate := if g.isValid then g else { g with id := id }

/-- `none` is the null pointer.  No gate of the scene has fewer hitboxes than
its type asks for. -/
def getHitBox (type : HitBoxType) (g : Gate) : Option HitBoxPtr :=
  match g.type, type with
  | .highState, .output | .lowState, .output => g.hitboxes[0]?
  | .highState, _ | .lowState, _ => none
  | .output, .input1 => g.hitboxes[0]?
  | .output, _ => none
  | .not, .input1 => g.hitboxes[0]?
  | .not, .output => g.hitboxes[1]?
  | .not, .input2 => none
  | _, .input1 => g.hitboxes[0]?
  | _, .input2 => g.hitboxes[1]?
  | _, .output => g.hitboxes[2]?

/-- The two input states turn into each other, picture included. -/
def toggle (g : Gate) : Gate :=
  match g.type with
  | .lowState => { g with type := .highState, pixmap := .highState }
  | .highState => { g with type := .lowState, pixmap := .lowState }
  | _ => g

theorem toggle_ptr (g : Gate) : g.toggle.ptr = g.ptr := by unfold toggle; split <;> rfl

end Gate

/-- `wire->Input()->getOwner()`; `Input` is the end at the output hitbox. -/
def Scene.inputOwner (s : Scene) (wire : WirePtr) : Except Fault GatePtr := do
  let w ← s.derefWire wire
  let _ ← s.deref w.output
  .ok w.output.owner

/-- `m_hitboxes[i]->getWire()`. -/
def Scene.getWire (s : Scene) (box : Option HitBoxPtr) : Except Fault (Option WirePtr) :=
  match box with
  | none => .error .dangling
  | some box => do
    let h ← s.deref box
    .ok h.wire

/-- The gate wired to an input.  Only the first slot is tested for a wire. -/
def Gate.getInput (type : HitBoxType) (g : Gate) (s : Scene) : Except Fault (Option GatePtr) :=
  if g.type = .highState ∨ g.type = .lowState then .ok none
  else
    match type with
    | .input1 => do
      match ← s.getWire g.hitboxes[0]? with
      | some wire => do
        let owner ← s.inputOwner wire
        .ok (some owner)
      | none => .ok none
    | .input2 =>
      if g.type = .not ∨ g.type = .output then .ok none
      else do
        match ← s.getWire g.hitboxes[1]? with
        | some wire => do
          let owner ← s.inputOwner wire
          .ok (some owner)
        | none => .error .nullPointer
    | .output => .ok none

namespace Area

def start (gen : List Id) : Area := ⟨Scene.empty, ∅, 0, false, gen⟩

/-! ## Drawing and deleting -/

/-- `new Gate`, with its hitboxes. -/
def newGate (type : CommonGateType) (a : Area) : Gate × Area :=
  let gate := Gate.create a.nextGate type (type = .output)
  (gate, { a with
    scene := gate.hitboxes.foldl Scene.new a.scene
    nextGate := a.nextGate + 1 })

/-- Draw ids until one is valid and no gate has it. -/
def generateId (m_gates : List Gate) : List Id → Except Fault (Id × List Id)
  | [] => .error .idLoop
  | tmpId :: gen =>
    if tmpId = gNotValidGateId ∨ ∃ gate ∈ m_gates, gate.id = tmpId then generateId m_gates gen
    else .ok (tmpId, gen)

def draw (type : CommonGateType) (id : Id) (x y : Qreal) (a : Area) : Except Fault Area := do
  let (gate, a) := a.newGate type
  let (tmpId, gen) ←
    if id = gNotValidGateId then generateId a.m_gates.elems a.gen else .ok (id, a.gen)
  let a := { a with gen := gen }
  let gate := gate.setId tmpId
  if gate.isValid then
    let gate := if x ≠ 0 ∧ y ≠ 0 then { gate with x := x, y := y } else gate
    .ok { a with m_gates := a.m_gates.insert gate }
  else do
    let scene ← a.scene.destroyHitBoxes gate.hitboxes
    .ok { a with scene := scene }

/-- The constructor of `Area`. -/
def create (gen : List Id) : Except Fault Area := draw .output gNotValidGateId 0 0 (start gen)

/-- `setPixmap` with the picture of a type. -/
def setPixmap (gate : GatePtr) (pixmap : CommonGateType) (a : Area) : Area :=
  let m_gates := a.m_gates.modify gate (fun g => { g with pixmap := pixmap }) (fun _ => rfl)
  { a with m_gates := m_gates }

/-- The turn of `clearSimulate` for one gate. -/
def clearGate (a : Area) (it : Gate) : Except Fault Area := do
  let a := if it.isOutput then a.setPixmap it.ptr .output else a
  match it.getHitBox .output with
  | none => .ok a
  | some hitbox => do
    let h ← a.scene.deref hitbox
    let scene ← h.outputWires.foldlM (Scene.setColor .black) a.scene
    .ok { a with scene := scene }

def clearSimulate (a : Area) : Except Fault Area :=
  if a.simulatorFlag then a.m_gates.elems.foldlM clearGate { a with simulatorFlag := false }
  else .ok a

/-- The delete key on a selected gate.  Nothing looks the gate up while its
hitboxes go, so its place in `m_gates` is given up afterwards. -/
def deleteGate (gate : GatePtr) (a : Area) : Except Fault Area :=
  match a.m_gates.find? gate with
  | none => .ok a
  | some g => do
    let scene ← a.scene.destroyHitBoxes g.hitboxes
    let a := { a with scene := scene, m_gates := a.m_gates.erase gate }
    a.clearSimulate

/-! ## Reading the connections -/

/-- `gate->Id()` through a pointer that may be null. -/
def inputId (a : Area) : Option GatePtr → Except Fault Id
  | none => .ok gNotValidGateId
  | some gate =>
    match a.m_gates.find? gate with
    | some g => .ok g.id
    | none => .error .dangling

/-- The ids wired to the two inputs of a gate. -/
def inputIds (a : Area) (it : Gate) : Except Fault InputPair := do
  let input1 ← it.getInput .input1 a.scene
  let input2 ← it.getInput .input2 a.scene
  let id1 ← a.inputId input1
  let id2 ← a.inputId input2
  .ok (id1, id2)

def createSimMap (a : Area) : Except Fault SimMap :=
  a.m_gates.elems.foldlM
    (fun map it => do
      let inputs ← a.inputIds it
      .ok (map.insertGate it.type it.id inputs))
    ∅

def getGate (a : Area) (id : Id) : Option Gate := a.m_gates.elems.find? (fun it => it.id = id)

/-! ## Simulating -/

/-- `changeOutput`. -/
def valuePixmap : CommonValueOutput → CommonGateType
  | .high => .highState
  | .low => .lowState
  | .unknown => .output

def valueColor : CommonValueOutput → WireColor
  | .high => .green
  | .low => .red
  | .unknown => .black

/-- The turn of `simulate` for one gate. -/
def showGate (sim : Simulator) (a : Area) (it : Gate) : Except Fault Area :=
  let retVal := sim.getValue it.id
  if it.isOutput then .ok (a.setPixmap it.ptr (valuePixmap retVal))
  else
    match it.getHitBox .output with
    | none => .error .nullPointer
    | some hitbox => do
      let h ← a.scene.deref hitbox
      let scene ← h.outputWires.foldlM (Scene.setColor (valueColor retVal)) a.scene
      .ok { a with scene := scene }

/-- The simulator gets one unit of fuel per gate and one to spare. -/
def simulate (a : Area) : Except Fault Area := do
  let map ← a.createSimMap
  match SimState.run (map.size + 1) (.start map) with
  | .error e => .error (.simulator e)
  | .ok s => a.m_gates.elems.foldlM (showGate s.sim) { a with simulatorFlag := true }

/-- A right click on a gate; the signal is emitted for every type. -/
def changeTypeInput (gate : GatePtr) (a : Area) : Except Fault Area :=
  match a.m_gates.find? gate with
  | none => .ok a
  | some _ =>
    let m_gates := a.m_gates.modify gate Gate.toggle Gate.toggle_ptr
    let a := { a with m_gates := m_gates }
    if a.simulatorFlag then a.simulate else .ok a

end Area

end SimGate

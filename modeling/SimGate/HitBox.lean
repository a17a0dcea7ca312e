import Mathlib.Logic.Function.Basic
import SimGate.Simulator

/-!
# Hitboxes and wires (`HitBox.h`, `HitBox.cpp`, `Wire.h`)

Hitboxes and wires are heap objects that point at each other.  A pointer is
followed through `deref`, which fails on a freed object.  The two function-local
statics of the click handler are part of the scene: all hitboxes share them.
-/

namespace SimGate

abbrev GatePtr := Nat
abbrev WirePtr := Nat

inductive HitBoxType
  | input1 | input2 | output
  deriving DecidableEq, Repr

/-- The address of a hitbox.  Its owner and its type never change, so they are
part of the address. -/
structure HitBoxPtr where
  owner : GatePtr
  type : HitBoxType
  deriving DecidableEq, Repr

def HitBoxPtr.isInput (box : HitBoxPtr) : Bool := box.type ≠ .output

structure GateHitBox where
  wire : Option WirePtr
  outputWires : List WirePtr
  deriving DecidableEq, Repr

inductive WireColor
  | black | green | red
  deriving DecidableEq, Repr

structure Wire where
  input : HitBoxPtr
  output : HitBoxPtr
  color : WireColor
  deriving DecidableEq, Repr

/-- What the source does not survive: following a null pointer or a pointer to a
freed object, an id loop that finds no id, a loop that goes on, and what the
simulator does not survive. -/
inductive Fault
  | nullPointer | dangling | idLoop | outOfFuel
  | simulator (fault : SimFault)
  deriving DecidableEq, Repr

/-- The hitboxes and wires that are alive, and the pending `input` and `output`
of the click handler. -/
structure Scene where
  hitbox : HitBoxPtr → Option GateHitBox
  wire : WirePtr → Option Wire
  nextWire : WirePtr
  input : Option HitBoxPtr
  output : Option HitBoxPtr

namespace Scene

def empty : Scene := ⟨fun _ => none, fun _ => none, 0, none, none⟩

def deref (s : Scene) (box : HitBoxPtr) : Except Fault GateHitBox :=
  match s.hitbox box with
  | some h => .ok h
  | none => .error .dangling

def derefWire (s : Scene) (wire : WirePtr) : Except Fault Wire :=
  match s.wire wire with
  | some w => .ok w
  | none => .error .dangling

def put (s : Scene) (box : HitBoxPtr) (h : GateHitBox) : Scene :=
  { s with hitbox := Function.update s.hitbox box (some h) }

def free (s : Scene) (box : HitBoxPtr) : Scene :=
  { s with hitbox := Function.update s.hitbox box none }

/-- Construct a hitbox. -/
def new (s : Scene) (box : HitBoxPtr) : Scene := s.put box ⟨none, []⟩

def reset (s : Scene) : Scene := { s with input := none, output := none }

/-! ## Connecting -/

def setupWire (box : HitBoxPtr) (wire : WirePtr) (s : Scene) : Except Fault Scene := do
  let h ← s.deref box
  if box.isInput then .ok (s.put box { h with wire := some wire })
  else .ok (s.put box { h with outputWires := h.outputWires ++ [wire] })

/-- `new Wire(input, output)`. -/
def newWire (input output : HitBoxPtr) (s : Scene) : Scene :=
  { s with
    wire := Function.update s.wire s.nextWire (some ⟨input, output, .black⟩)
    nextWire := s.nextWire + 1 }

def hitBoxConnectRef (s : Scene) : Except Fault Scene :=
  match s.input, s.output with
  | some input, some output => do
    -- `getOwner` reads both hitboxes
    let _ ← s.deref input
    let _ ← s.deref output
    if input.owner = output.owner then .ok s.reset
    else
      let wire := s.nextWire
      let s := s.newWire input output
      let s ← s.setupWire input wire
      let s ← s.setupWire output wire
      .ok s.reset
  | _, _ => .ok s

/-- The handler of the button of `this`. -/
def released (this : HitBoxPtr) (s : Scene) : Except Fault Scene := do
  let h ← s.deref this
  if h.wire.isSome ∧ this.isInput then .ok s.reset
  else if (this.isInput ∧ s.input.isSome) ∨ (¬ this.isInput ∧ s.output.isSome) then .ok s.reset
  else
    let s := if s.input.isNone ∧ this.isInput then { s with input := some this } else s
    let s := if s.output.isNone ∧ ¬ this.isInput then { s with output := some this } else s
    s.hitBoxConnectRef

def setColor (color : WireColor) (s : Scene) (wire : WirePtr) : Except Fault Scene := do
  let w ← s.derefWire wire
  .ok { s with wire := Function.update s.wire wire (some { w with color := color }) }

/-! ## Deleting -/

def removeWire (box : HitBoxPtr) (wire : WirePtr) (s : Scene) : Except Fault Scene := do
  let h ← s.deref box
  if h.wire = some wire then .ok (s.put box { h with wire := none })
  else .ok (s.put box { h with outputWires := h.outputWires.erase wire })

/-- `delete` of a wire. -/
def deleteWire (wire : WirePtr) (s : Scene) : Except Fault Scene := do
  let w ← s.derefWire wire
  let s ← s.removeWire w.input wire
  let s ← s.removeWire w.output wire
  .ok { s with wire := Function.update s.wire wire none }

/-- The loop of `~GateHitBox` over `m_outputWires`; `--i` and `i++` wrap around. -/
def destroyOutputs (this : HitBoxPtr) : Nat → Nat → Scene → Except Fault Scene
  | 0, _, _ => .error .outOfFuel
  | fuel + 1, i, s => do
    let h ← s.deref this
    match h.outputWires[i]? with
    | none => .ok s
    | some it => do
      let s ← s.deleteWire it
      let i := (i + 0xFFFFFFFFFFFFFFFF) % 0x10000000000000000
      destroyOutputs this fuel ((i + 1) % 0x10000000000000000) s

/-- `~GateHitBox`.  Each turn of its loop deletes a wire of the vector, so one
turn more than the vector has wires is enough. -/
def destroyHitBox (this : HitBoxPtr) (s : Scene) : Except Fault Scene := do
  let h ← s.deref this
  let s ←
    if this.isInput then
      match h.wire with
      | some wire => s.deleteWire wire
      | none => .ok s
    else s.destroyOutputs this (h.outputWires.length + 1) 0
  .ok (s.free this)

/-- The hitboxes of a gate go one after the other. -/
def destroyHitBoxes : List HitBoxPtr → Scene → Except Fault Scene
  | [], s => .ok s
  | box :: boxes, s => s.destroyHitBox box >>= destroyHitBoxes boxes

end Scene

end SimGate

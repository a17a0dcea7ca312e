import SimGate.Identifiers
import SimGate.Replaying

/-!
# Circuits

What the user edits, without the heap: the gates as parts, the part that each input
reads, and the hitbox that waits for the other end of a connection.  An edit that the
program does not survive has no next circuit.
-/

namespace SimGate

structure Part where
  ptr : GatePtr
  type : CommonGateType
  id : Id
  deriving DecidableEq, Repr

/-- The two input states turn into each other. -/
def Part.toggle (p : Part) : Part :=
  match p.type with
  | .lowState => { p with type := .highState }
  | .highState => { p with type := .lowState }
  | _ => p

theorem Part.toggle_ptr (p : Part) : p.toggle.ptr = p.ptr := by unfold toggle; split <;> rfl

@[ext] structure Circuit where
  parts : List Part
  source : Sources
  pending : Option HitBoxPtr
  simulated : Bool
  next : GatePtr
  gen : List Id

inductive Edit
  | draw (type : CommonGateType)
  | click (hitbox : HitBoxPtr)
  | unplug (input : HitBoxPtr)
  | remove (gate : GatePtr)
  | toggle (gate : GatePtr)
  | simulate
  | clearSimulate
  | load (fuel : Nat) (file : Option (List Element)) (reader : Element)
  | idle

def Edit.loads : Edit → Bool
  | .load .. => true
  | _ => false

namespace Circuit

def start (gen : List Id) : Circuit := ⟨[], fun _ => none, none, false, 0, gen⟩

/-! ## Parts -/

def HasPart (c : Circuit) (gate : GatePtr) : Prop := ∃ p ∈ c.parts, p.ptr = gate

/-- The hitboxes of the parts. -/
def HasBox (c : Circuit) (box : HitBoxPtr) : Prop :=
  ∃ p ∈ c.parts, box.owner = p.ptr ∧ box.type ∈ hitBoxTypes p.type

instance (c : Circuit) (gate : GatePtr) : Decidable (c.HasPart gate) := by
  unfold HasPart; infer_instance

instance (c : Circuit) (box : HitBoxPtr) : Decidable (c.HasBox box) := by
  unfold HasBox; infer_instance

def getPart (c : Circuit) (id : Id) : Option Part := c.parts.find? fun p => p.id = id

def drawEntity (c : Circuit) (e : Entity) : Option Circuit :=
  match e.given (c.parts.map Part.id) c.gen with
  | none => none
  | some (id, gen) =>
    some { c with
      parts := if e.type = .enumSize then c.parts else c.parts ++ [⟨c.next, e.type, id⟩]
      next := c.next + 1
      gen := gen }

/-- A part goes with its connections; the display is cleared. -/
def remove (gate : GatePtr) (c : Circuit) : Circuit :=
  if c.HasPart gate then
    { c with
      parts := c.parts.filter fun p => p.ptr ≠ gate
      source := fun box =>
        if box.owner = gate ∨ c.source box = some gate then none else c.source box
      simulated := false }
  else c

/-! ## Connections -/

/-- The second click of a connection; two hitboxes of one part are not connected. -/
def plug (input output : HitBoxPtr) (c : Circuit) : Circuit :=
  { c with
    source := if input.owner = output.owner then c.source
      else Function.update c.source input (some output.owner)
    pending := none }

def click (box : HitBoxPtr) (c : Circuit) : Option Circuit :=
  if ¬ c.HasBox box then some c
  else if box.isInput ∧ c.source box ≠ none then some { c with pending := none }
  else
    match c.pending with
    | none => some { c with pending := some box }
    | some other =>
      if other.isInput = box.isInput then some { c with pending := none }
      -- the part of the first click is gone
      else if ¬ c.HasBox other then none
      else some (if box.isInput then c.plug box other else c.plug other box)

section

variable {c : Circuit} {box : HitBoxPtr} (hbox : c.HasBox box)

include hbox

/-- A click on an input that is taken drops what was pending. -/
theorem click_taken (hi : box.isInput = true) (hs : c.source box ≠ none) :
    c.click box = some { c with pending := none } := by
  rw [click, if_neg (not_not.mpr hbox), if_pos ⟨hi, hs⟩]

variable (hfree : box.isInput = true → c.source box = none)

include hfree

theorem click_first (hp : c.pending = none) :
    c.click box = some { c with pending := some box } := by
  have hn : ¬ (box.isInput = true ∧ c.source box ≠ none) := fun h => h.2 (hfree h.1)
  rw [click, if_neg (not_not.mpr hbox), if_neg hn, hp]

theorem click_same {other : HitBoxPtr} (hp : c.pending = some other)
    (hsame : other.isInput = box.isInput) : c.click box = some { c with pending := none } := by
  have hn : ¬ (box.isInput = true ∧ c.source box ≠ none) := fun h => h.2 (hfree h.1)
  rw [click, if_neg (not_not.mpr hbox), if_neg hn, hp]
  exact if_pos hsame

theorem click_second {other : HitBoxPtr} (hp : c.pending = some other)
    (hne : other.isInput ≠ box.isInput) :
    c.click box = if c.HasBox other then
      some (if box.isInput then c.plug box other else c.plug other box) else none := by
  have hn : ¬ (box.isInput = true ∧ c.source box ≠ none) := fun h => h.2 (hfree h.1)
  rw [click, if_neg (not_not.mpr hbox), if_neg hn, hp]
  simp only [if_neg hne, ite_not]

end

def unplug (input : HitBoxPtr) (c : Circuit) : Circuit :=
  { c with source := Function.update c.source input none }

/-! ## What the circuit is read for -/

/-- Every second input is connected. -/
def Complete (c : Circuit) : Prop :=
  ∀ p ∈ c.parts, twoInputs p.type → c.source ⟨p.ptr, .input2⟩ ≠ none

instance (c : Circuit) : Decidable c.Complete := by unfold Complete; infer_instance

def slotId (c : Circuit) (p : Part) (slot : HitBoxType) : Id :=
  match c.source ⟨p.ptr, slot⟩ with
  | none => gNotValidGateId
  | some q => ((c.parts.find? fun x => x.ptr = q).map Part.id).getD gNotValidGateId

def entry (c : Circuit) (p : Part) : Entry :=
  ⟨.create p.type p.id, (c.slotId p .input1, c.slotId p .input2)⟩

def simMap (c : Circuit) : Option SimMap :=
  if c.Complete then some (KeySet.ofList (c.parts.map c.entry)) else none

def simulate (c : Circuit) : Option Circuit :=
  if c.Complete then some { c with simulated := true } else none

/-- A running simulation is done again. -/
def toggle (gate : GatePtr) (c : Circuit) : Option Circuit :=
  if c.HasPart gate then
    let c := { c with parts := c.parts.map fun p : Part => if p.ptr = gate then p.toggle else p }
    if c.simulated then c.simulate else some c
  else some c

/-! ## Loading -/

/-- Click a slot of `p` and the output of the part with the given id. -/
def connectSlot (p : Part) (slot : HitBoxType) (id : Id) (c : Circuit) : Option Circuit :=
  match c.getPart id with
  | none => none
  | some x =>
    if slot ∈ hitBoxTypes p.type ∧ .output ∈ hitBoxTypes x.type then
      c.click ⟨p.ptr, slot⟩ >>= click ⟨x.ptr, .output⟩
    else none

/-- The second slot is taken when the first one is. -/
def connectPair (c : Circuit) (pair : Id × Id) : Option Circuit :=
  match c.getPart pair.1 with
  | none => none
  | some p =>
    if c.source ⟨p.ptr, .input1⟩ = none then c.connectSlot p .input1 pair.2
    else if .input2 ∈ hitBoxTypes p.type then c.connectSlot p .input2 pair.2
    else some c

def clear (c : Circuit) : Circuit := { c with parts := [], source := fun _ => none }

/-- Reading a file ends when `END_FILE` is among the elements that are read. -/
def Ends (fuel : Nat) (file : List Element) (reader : Element) : Prop :=
  .endFile ∈ file.take fuel ∨ file = [] ∧ reader = .endFile ∧ 0 < fuel

instance (fuel : Nat) (file : List Element) (reader : Element) :
    Decidable (Ends fuel file reader) := by unfold Ends; infer_instance

def load (fuel : Nat) (file : Option (List Element)) (reader : Element) (c : Circuit) :
    Option Circuit :=
  match file with
  | none => some c.clear
  | some file =>
    if Ends fuel file reader then do
      let d := Area.Decoder.start reader
      let c ← (d.entities file).foldlM drawEntity c.clear
      (d.readAll file).connVec.foldlM connectPair c
    else none

def step (c : Circuit) : Edit → Option Circuit
  | .draw type => c.drawEntity ⟨type, gNotValidGateId, 0, 0⟩
  | .click hitbox => c.click hitbox
  | .unplug input => some (c.unplug input)
  | .remove gate => some (c.remove gate)
  | .toggle gate => c.toggle gate
  | .simulate => c.simulate
  | .clearSimulate => some { c with simulated := false }
  | .load fuel file reader => c.load fuel file reader
  | .idle => some c

end Circuit

/-! ## The circuit of a scheme -/

def Gate.part (g : Gate) : Part := ⟨g.ptr, g.type, g.id⟩

namespace Area

/-- At most one hitbox is pending, and its type says which of the two it is. -/
def circuit (a : Area) : Circuit where
  parts := a.m_gates.elems.map Gate.part
  source := a.scene.source
  pending := a.scene.input.or a.scene.output
  simulated := a.simulatorFlag
  next := a.nextGate
  gen := a.gen

/-- The edit that an action stands for.  A wire is known by the input it ends at. -/
def edit (act : Action) (a : Area) : Edit :=
  match act with
  | .draw type => .draw type
  | .click hitbox => .click hitbox
  | .deleteWire wire =>
    match a.scene.wire wire with
    | some w => .unplug w.input
    | none => .idle
  | .deleteGate gate => .remove gate
  | .changeTypeInput gate => .toggle gate
  | .simulate => .simulate
  | .clearSimulate => .clearSimulate
  | .load fuel file reader => .load fuel file reader

end Area

end SimGate

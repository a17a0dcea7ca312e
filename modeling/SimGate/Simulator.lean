import Mathlib.Data.Finset.Insert
import SimGate.Common
import SimGate.Lib.Execution

/-!
# The simulator (`simulator.h`, `simulator.cpp`)

An iterator into the map is the id it was found with; it is the end iterator
when the id is absent.  `simulate` recurses through wiring that may be cyclic, so
it takes fuel.  `trace` is a ghost: it records every entry into `simulate` and
every return together with the arguments the gate callback got, and no function
reads it.
-/

namespace SimGate

/-! ## Gate callbacks -/

namespace gateCallback

def and (a b : CommonValueOutput) : UInt8 := a.toByte &&& b.toByte
def nand (a b : CommonValueOutput) : UInt8 := ~~~gateCallback.and a b
def or (a b : CommonValueOutput) : UInt8 := a.toByte ||| b.toByte
def nor (a b : CommonValueOutput) : UInt8 := ~~~gateCallback.or a b
def xor (a b : CommonValueOutput) : UInt8 := a.toByte ^^^ b.toByte
def not (a _b : CommonValueOutput) : UInt8 := ~~~a.toByte
def highState (_a _b : CommonValueOutput) : UInt8 := 0xFF
def lowState (_a _b : CommonValueOutput) : UInt8 := 0
def output (ret _b : CommonValueOutput) : UInt8 := ret.toByte

end gateCallback

/-- `OUTPUT` is also the default case of the switch. -/
def getCallback : CommonGateType → CommonValueOutput → CommonValueOutput → UInt8
  | .not => gateCallback.not
  | .and => gateCallback.and
  | .nand => gateCallback.nand
  | .or => gateCallback.or
  | .nor => gateCallback.nor
  | .xor => gateCallback.xor
  | .highState => gateCallback.highState
  | .lowState => gateCallback.lowState
  | .output | .enumSize => gateCallback.output

/-- `NOT` is listed twice and `NOR` is not, as in the source. -/
def isNegated (type : CommonGateType) : Bool := type = .not ∨ type = .nand ∨ type = .not

def getDefaultValue (type : CommonGateType) : CommonValueOutput :=
  if isNegated type then .high else .low

/-! ## The simulator's state -/

abbrev RetValMap := KeySet (Prod.fst : Id × CommonValueOutput → Id)

abbrev UsedMap := Finset Id

structure Simulator where
  retValues : RetValMap
  usedGates : UsedMap

/-- A call of `simulate`, or its return with the callback's arguments. -/
inductive Event
  | call (id : Id)
  | done (id : Id) (val1 val2 : CommonValueOutput)
  deriving DecidableEq, Repr

structure SimState where
  sim : Simulator
  map : SimMap
  trace : List Event

/-- The exception of `simulate`, its assertions, and running out of fuel. -/
inductive SimFault
  | logicError
  | assertion
  | outOfFuel
  deriving DecidableEq, Repr

def Simulator.fresh : Simulator := ⟨∅, ∅⟩

/-- A fresh simulator about to run on `map`. -/
def SimState.start (map : SimMap) : SimState := ⟨.fresh, map, []⟩

def Simulator.clear (_ : Simulator) : Simulator := ⟨∅, ∅⟩

def Simulator.getValue (s : Simulator) (idGate : Id) : CommonValueOutput :=
  match s.retValues.find? idGate with
  | some it => it.2
  | none => .unknown

/-! ## Evaluation -/

/-- The private `getValue`: the value of an input that needs no evaluation. -/
def SimState.getValue (s : SimState) (input1 : Id) : Option CommonValueOutput × SimState :=
  match s.map.find? input1 with
  | none => (some .low, s)
  | some it =>
    if it.first.out ≠ .unknown then
      (some it.first.out,
        if it.first.isInput then
          { s with sim.retValues := s.sim.retValues.assign (it.first.id, it.first.out) }
        else s)
    else if input1 ∈ s.sim.usedGates then (some (getDefaultValue it.first.type), s)
    else (none, s)

def SimState.enter (s : SimState) (id : Id) : SimState :=
  { s with sim.usedGates := insert id s.sim.usedGates, trace := s.trace ++ [.call id] }

/-- The level a nonzero callback result stands for. -/
def levelOf (retVal : UInt8) : CommonValueOutput := if retVal ≠ 0 then .high else .low

def SimState.finish (s : SimState) (id : Id) (val1 val2 out : CommonValueOutput) : SimState :=
  { sim := { s.sim with retValues := s.sim.retValues.insert (id, out) }
    map := s.map.modify id (Entry.update (CommonData.setOutput out))
      (Entry.update_key (fun d => d.setOutput_id out))
    trace := s.trace ++ [.done id val1 val2] }

/-- `getOutput` of the gate an iterator points to. -/
def SimState.getOutput (s : SimState) (id : Id) : Option CommonValueOutput :=
  (s.map.find? id).map fun it => it.first.out

/-- Evaluate an input whose value is still missing. -/
def force (rec : Id → SimState → Except SimFault SimState) (val : Option CommonValueOutput)
    (input : Id) (s : SimState) : Except SimFault (Option CommonValueOutput × SimState) :=
  match val with
  | some v => .ok (some v, s)
  | none =>
    if s.map.find? input = none then .error .assertion
    else do
      let s ← rec input s
      .ok (s.getOutput input, s)

def simulate : Nat → Id → SimState → Except SimFault SimState
  | 0, _, _ => .error .outOfFuel
  | fuel + 1, iterator, s =>
    match s.map.find? iterator with
    | none => .error .logicError
    | some it => do
      let s := s.enter iterator
      let callback := getCallback it.first.type
      let input1 := it.second.1
      let input2 := it.second.2
      let (val1, s) := s.getValue input1
      let (val2, s) := s.getValue input2
      let (val1, s) ← force (simulate fuel) val1 input1 s
      let (val2, s) ← force (simulate fuel) val2 input2 s
      match val1, val2 with
      | some val1, some val2 =>
        let retVal := callback val1 val2
        .ok (s.finish iterator val1 val2 (levelOf retVal))
      | _, _ => .error .assertion

/-- A successful call: the two lookups, the two forced inputs, and the result. -/
theorem simulate_eq_ok {fuel : Nat} {id : Id} {s s' : SimState} :
    simulate (fuel + 1) id s = .ok s' ↔
      ∃ it v₁ s₁ v₂ s₂ a s₃ b s₄, s.map.find? id = some it ∧
        (s.enter id).getValue it.second.1 = (v₁, s₁) ∧
        s₁.getValue it.second.2 = (v₂, s₂) ∧
        force (simulate fuel) v₁ it.second.1 s₂ = .ok (some a, s₃) ∧
        force (simulate fuel) v₂ it.second.2 s₃ = .ok (some b, s₄) ∧
        s' = s₄.finish id a b (levelOf (getCallback it.first.type a b)) := by
  constructor
  · intro h
    simp only [simulate] at h
    cases hit : s.map.find? id with
    | none => simp [hit] at h
    | some it =>
      simp only [hit] at h
      obtain ⟨⟨v₁, s₃⟩, h₁, h⟩ := Execution.bind_eq_ok h
      obtain ⟨⟨v₂, s₄⟩, h₂, h⟩ := Execution.bind_eq_ok h
      cases v₁ with
      | none => simp at h
      | some a =>
        cases v₂ with
        | none => simp at h
        | some b =>
          exact ⟨it, _, _, _, _, a, s₃, b, s₄, rfl, rfl, rfl, h₁, h₂, by simpa using h.symm⟩
  · rintro ⟨it, v₁, s₁, v₂, s₂, a, s₃, b, s₄, hit, h₁, h₂, f₁, f₂, rfl⟩
    simp [simulate, hit, h₁, h₂, f₁, f₂, bind, Except.bind]

/-- The value was at hand, or the input has been evaluated. -/
theorem force_eq_ok {rec : Id → SimState → Except SimFault SimState}
    {v r : Option CommonValueOutput} {c : Id} {s s' : SimState}
    (h : force rec v c s = .ok (r, s')) :
    (v ≠ none ∧ s' = s) ∨ (v = none ∧ rec c s = .ok s') := by
  cases v with
  | some v =>
    cases h
    exact Or.inl ⟨by simp, rfl⟩
  | none =>
    simp only [force] at h
    split at h
    · cases h
    · obtain ⟨t, ht, h⟩ := Execution.bind_eq_ok h
      cases h
      exact Or.inr ⟨rfl, ht⟩

theorem force_mono {rec rec' : Id → SimState → Except SimFault SimState}
    (h : ∀ id s s', rec id s = .ok s' → rec' id s = .ok s')
    {v : Option CommonValueOutput} {c : Id} {s : SimState}
    {r : Option CommonValueOutput × SimState} (hf : force rec v c s = .ok r) :
    force rec' v c s = .ok r := by
  cases v with
  | some v => exact hf
  | none =>
    simp only [force] at hf ⊢
    split at hf
    · cases hf
    · next hfind =>
      obtain ⟨s', hs, hr⟩ := Execution.bind_eq_ok hf
      rw [if_neg hfind, h c s s' hs]
      exact hr

/-- Fuel only bounds the recursion: more of it changes nothing. -/
theorem simulate_mono {fuel : Nat} {id : Id} {s s' : SimState}
    (h : simulate fuel id s = .ok s') : simulate (fuel + 1) id s = .ok s' := by
  induction fuel generalizing id s s' with
  | zero => cases h
  | succ fuel ih =>
    obtain ⟨it, v₁, s₁, v₂, s₂, a, s₃, b, s₄, hit, h₁, h₂, f₁, f₂, rfl⟩ := simulate_eq_ok.mp h
    exact simulate_eq_ok.mpr ⟨it, v₁, s₁, v₂, s₂, a, s₃, b, s₄, hit, h₁, h₂,
      force_mono (fun _ _ _ => ih) f₁, force_mono (fun _ _ _ => ih) f₂, rfl⟩

/-- The loop of `Sim` over the elements of the map. -/
def simLoop (fuel : Nat) : List Entry → SimState → Except SimFault SimState
  | [], s => .ok s
  | it :: rest, s =>
    if it.first.type = .output then simulate fuel it.id s >>= simLoop fuel rest
    else simLoop fuel rest s

def SimState.run (fuel : Nat) (s : SimState) : Except SimFault SimState :=
  simLoop fuel s.map.elems s

/-- The loop of `Sim` calls `simulate` on the `OUTPUT` gates. -/
theorem simLoop_eq_foldlM (fuel : Nat) (l : List Entry) (s : SimState) :
    simLoop fuel l s = ((l.filter fun it => it.first.type = .output).map Entry.id).foldlM
      (fun s id => simulate fuel id s) s := by
  induction l generalizing s with
  | nil => rfl
  | cons it l ih =>
    by_cases ho : it.first.type = .output
    · simp only [simLoop, ho, if_true, List.filter_cons, decide_true, List.map_cons,
        List.foldlM_cons]
      congr 1
      funext t
      exact ih t
    · simp only [simLoop, ho, if_false, List.filter_cons, decide_false, Bool.false_eq_true]
      exact ih s

theorem simLoop_append (fuel : Nat) (l l' : List Entry) (s : SimState) :
    simLoop fuel (l ++ l') s = simLoop fuel l s >>= simLoop fuel l' := by
  simp only [simLoop_eq_foldlM, List.filter_append, List.map_append, List.foldlM_append]
  congr 1
  funext t
  exact (simLoop_eq_foldlM fuel l' t).symm

/-- What every call keeps, the loop keeps. -/
theorem simLoop_invariant {fuel : Nat} {I : SimState → Prop}
    (hstep : ∀ id s s', I s → simulate fuel id s = .ok s' → I s') {l : List Entry}
    {s s' : SimState} (hs : I s) (h : simLoop fuel l s = .ok s') : I s' := by
  rw [simLoop_eq_foldlM] at h
  exact Execution.foldlM_invariant (fun id _ => hstep id) hs h

theorem simLoop_mono {fuel : Nat} {l : List Entry} {s s' : SimState}
    (h : simLoop fuel l s = .ok s') : simLoop (fuel + 1) l s = .ok s' := by
  induction l generalizing s with
  | nil => exact h
  | cons it l ih =>
    simp only [simLoop] at h ⊢
    split
    · next ho =>
      rw [if_pos ho] at h
      obtain ⟨t, ht, h⟩ := Execution.bind_eq_ok h
      rw [simulate_mono ht]
      exact ih h
    · next ho =>
      rw [if_neg ho] at h
      exact ih h

theorem SimState.run_mono {fuel fuel' : Nat} (hle : fuel ≤ fuel') {s s' : SimState}
    (h : SimState.run fuel s = .ok s') : SimState.run fuel' s = .ok s' := by
  induction hle with
  | refl => exact h
  | step _ ih => exact simLoop_mono ih

theorem SimState.run_returns {n : Nat} {s s' : SimState} (h : SimState.run n s = .ok s') :
    Execution.Returns (fun fuel => SimState.run fuel s) s' :=
  ⟨n, fun _ hm => SimState.run_mono hm h⟩

/-- What a run with some fuel shows holds of the state that every run returns. -/
theorem SimState.exists_returns {n : Nat} {s : SimState} {P : SimState → Prop} [DecidablePred P]
    (h : (match SimState.run n s with
      | .ok t => decide (P t)
      | .error _ => false) = true) :
    ∃ t, Execution.Returns (fun fuel => SimState.run fuel s) t ∧ P t := by
  cases hr : SimState.run n s with
  | error e => simp [hr] at h
  | ok t => exact ⟨t, SimState.run_returns hr, by simpa [hr] using h⟩

/-! ## Truth tables -/

/-- The next run starts, so the trace starts over too. -/
def SimState.clean (s : SimState) : SimState :=
  { trace := []
    sim := s.sim.clear
    map := s.map.map (Entry.update CommonData.defaultValue)
      (Entry.update_key CommonData.defaultValue_id) }

/-- The switch positions of a row; the j-th input gate takes bit j. -/
def getMap (map : SimMap) (combination : Nat) : SimMap :=
  let inputVector := (map.elems.filter (fun it => it.first.isInput)).map Entry.id
  inputVector.zipIdx.foldl
    (fun map (id, i) =>
      let isHigh := combination &&& (1 <<< i) ≠ 0
      map.modify id
        (Entry.update fun d => (d.setType (if isHigh then .highState else .lowState)).defaultValue)
        (Entry.update_key (fun d => by simp)))
    map

/-- The row of the table read off after a run. -/
def SimState.row (s : SimState) : RetValMap :=
  s.map.elems.foldl
    (fun row it =>
      if it.first.isInput ∨ it.first.isOutput then
        row.assign (it.first.id, s.sim.getValue it.first.id)
      else row)
    ∅

/-- The rows `i`, `i + 1`, … of the loop over the combinations. -/
def combinationLoop (fuel : Nat) : List Nat → List RetValMap → SimState →
    Except SimFault (List RetValMap × SimState)
  | [], ret, s => .ok (ret, s)
  | i :: rest, ret, s => do
    let s := s.clean
    let s ← SimState.run fuel { s with map := getMap s.map i }
    combinationLoop fuel rest (ret ++ [s.row]) s

def generateCombination (fuel : Nat) (s : SimState) (inputCounter : Nat) :
    Except SimFault (Option (List RetValMap) × SimState) :=
  if inputCounter = 0 then .ok (none, s)
  else do
    let combinationCounter := 1 <<< inputCounter
    let (ret, s) ← combinationLoop fuel (List.range combinationCounter) [] s
    .ok (some ret, s)

end SimGate

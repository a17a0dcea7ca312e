import SimGate.Lib.Demand
import SimGate.Lib.Execution
import SimGate.Simulator

/-!
# The evaluation schedule of a map of gates

Which gates a simulator run evaluates, in which order and where it cuts a loop
depends on the wiring alone.  `plan` is that schedule, a straight-line program
over the gates, and the run computes what the program computes:

* `simulate_refines`: one call of `simulate` against one visit of the traversal;
* `run_refines`: a whole run on a map that is ready to be simulated returns, and
  its stores are read off the execution of `plan`.
-/

namespace SimGate

open StraightLine Demand Execution

/-! ## The wiring, the operations and the schedule of a map -/

def SimMap.wiring (map : SimMap) : Graph Id := fun id =>
  (map.find? id).map fun it =>
    if it.first.isInput then .leaf else .inner it.second.1 it.second.2

def SimMap.typeOf (map : SimMap) (id : Id) : CommonGateType :=
  match map.find? id with
  | some it => it.first.type
  | none => .enumSize

def SimMap.outOf (map : SimMap) (id : Id) : CommonValueOutput :=
  match map.find? id with
  | some it => it.first.out
  | none => .unknown

def SimMap.interp (map : SimMap) : Interp Id CommonValueOutput where
  absent := .low
  leaf := map.outOf
  cut id := getDefaultValue (map.typeOf id)
  apply id a b := levelOf (getCallback (map.typeOf id) a b)

@[simp] theorem interp_absent (map : SimMap) : map.interp.absent = .low := rfl
@[simp] theorem interp_leaf (map : SimMap) (id : Id) : map.interp.leaf id = map.outOf id := rfl
@[simp] theorem interp_cut (map : SimMap) (id : Id) :
    map.interp.cut id = getDefaultValue (map.typeOf id) := rfl
@[simp] theorem interp_apply (map : SimMap) (id : Id) (a b : CommonValueOutput) :
    map.interp.apply id a b = levelOf (getCallback (map.typeOf id) a b) := rfl

/-- The `OUTPUT` gates in the order `Sim` meets them. -/
def SimMap.outputs (map : SimMap) : List Id :=
  (map.elems.filter (fun it => it.first.type = .output)).map Entry.id

def SimMap.traversal (map : SimMap) : Option (State Id) :=
  visitAll map.wiring (map.size + 1) map.outputs State.start

def SimMap.plan (map : SimMap) : List (Instr Id) :=
  match map.traversal with
  | some t => t.prog
  | none => []

/-- Input gates carry a level and all other gates carry `UNKNOWN`. -/
def SimMap.Ready (map : SimMap) : Prop :=
  ∀ it ∈ map.elems, it.first.out = .unknown ↔ it.first.isInput = false

/-- Every gate carries its default value. -/
def SimMap.Fresh (map : SimMap) : Prop := ∀ it ∈ map.elems, it.first.defaultValue = it.first

instance (map : SimMap) : Decidable map.Ready := by unfold SimMap.Ready; infer_instance
instance (map : SimMap) : Decidable map.Fresh := by unfold SimMap.Fresh; infer_instance

theorem SimMap.Fresh.ready {map : SimMap} (h : map.Fresh) : map.Ready := by
  intro it hit
  have hd := h it hit
  generalize it.first = d at hd ⊢
  obtain ⟨type, id, out⟩ := d
  cases type <;> simp_all [CommonData.defaultValue, CommonData.isInput] <;> simp [← hd]

theorem levelOf_ne_unknown (retVal : UInt8) : levelOf retVal ≠ .unknown := by
  unfold levelOf; split <;> simp

theorem getDefaultValue_ne_unknown (type : CommonGateType) : getDefaultValue type ≠ .unknown := by
  unfold getDefaultValue; split <;> simp

/-! ## The wiring read off the map -/

theorem wiring_eq_none {map : SimMap} {id : Id} :
    map.wiring id = none ↔ map.find? id = none := by
  simp [SimMap.wiring]

theorem wiring_of_find {map : SimMap} {id : Id} {it : Entry} (h : map.find? id = some it) :
    map.wiring id = some (if it.first.isInput then .leaf
      else .inner it.second.1 it.second.2) := by
  simp [SimMap.wiring, h]

theorem wiring_leaf {map : SimMap} {id : Id} (h : map.wiring id = some .leaf) :
    ∃ it, map.find? id = some it ∧ it.first.isInput = true := by
  simp only [SimMap.wiring, Option.map_eq_some_iff] at h
  obtain ⟨it, hit, h⟩ := h
  cases hi : it.first.isInput with
  | true => exact ⟨it, hit, hi⟩
  | false => simp [hi] at h

theorem wiring_inner {map : SimMap} {id a b : Id} (h : map.wiring id = some (.inner a b)) :
    ∃ it, map.find? id = some it ∧ it.first.isInput = false ∧ it.second = (a, b) := by
  simp only [SimMap.wiring, Option.map_eq_some_iff] at h
  obtain ⟨it, hit, h⟩ := h
  cases hi : it.first.isInput with
  | true => simp [hi] at h
  | false =>
    simp only [hi, Bool.false_eq_true, if_false, Kind.inner.injEq] at h
    exact ⟨it, hit, hi, by rw [← h.1, ← h.2]⟩

theorem id_of_find {map : SimMap} {id : Id} {it : Entry} (h : map.find? id = some it) :
    it.first.id = id := show it.id = id from KeySet.key_of_find? h

theorem inner_of_find {map : SimMap} {id : Id} {it : Entry} (h : map.find? id = some it)
    (hi : it.first.isInput = false) : Inner map.wiring id :=
  ⟨it.second.1, it.second.2, by simp [wiring_of_find h, hi]⟩

theorem typeOf_of_find {map : SimMap} {id : Id} {it : Entry} (h : map.find? id = some it) :
    map.typeOf id = it.first.type := by simp [SimMap.typeOf, h]

theorem outOf_of_find {map : SimMap} {id : Id} {it : Entry} (h : map.find? id = some it) :
    map.outOf id = it.first.out := by simp [SimMap.outOf, h]

theorem Ready.leaf {map : SimMap} (h : map.Ready) {id : Id} (hid : map.wiring id = some .leaf) :
    map.outOf id ≠ .unknown := by
  obtain ⟨it, hit, hi⟩ := wiring_leaf hid
  rw [outOf_of_find hit]
  intro hu
  have := (h it (KeySet.mem_of_find? hit)).mp hu
  simp [hi] at this

/-- An input gate is never computed. -/
theorem run_leaf {map : SimMap} {t : State Id} (hk : Ok map.wiring t) {id : Id}
    (hid : map.wiring id = some .leaf) : run map.interp t.prog id = [] := by
  have h0 : ¬ 0 < occ id t.prog := by
    intro h
    obtain ⟨a, b, hG⟩ := hk.inner id (hk.done id h)
    simp [hG] at hid
  rw [← List.length_eq_zero_iff, occ_run]
  omega

/-! ## The map painted with the latest values of an execution -/

def paintData (h : History Id CommonValueOutput) (d : CommonData) : CommonData :=
  match (h d.id).getLast? with
  | some v => d.setOutput v
  | none => d

@[simp] theorem paintData_id (h : History Id CommonValueOutput) (d : CommonData) :
    (paintData h d).id = d.id := by unfold paintData; split <;> rfl
@[simp] theorem paintData_type (h : History Id CommonValueOutput) (d : CommonData) :
    (paintData h d).type = d.type := by unfold paintData; split <;> rfl
@[simp] theorem paintData_isInput (h : History Id CommonValueOutput) (d : CommonData) :
    (paintData h d).isInput = d.isInput := by simp [CommonData.isInput]
@[simp] theorem paintData_isOutput (h : History Id CommonValueOutput) (d : CommonData) :
    (paintData h d).isOutput = d.isOutput := by simp [CommonData.isOutput]

def SimMap.paint (map : SimMap) (h : History Id CommonValueOutput) : SimMap :=
  map.map (Entry.update (paintData h)) (Entry.update_key (paintData_id h))

theorem find_paint (map : SimMap) (h : History Id CommonValueOutput) (id : Id) :
    (map.paint h).find? id = (map.find? id).map (Entry.update (paintData h)) :=
  KeySet.find?_map ..

theorem paint_nil (map : SimMap) : map.paint (fun _ => []) = map :=
  KeySet.map_id _ _ (fun _ _ => rfl)

theorem paintData_record (h : History Id CommonValueOutput) (d : CommonData) (id : Id)
    (v : CommonValueOutput) :
    paintData (record h id v) d = if d.id = id then (paintData h d).setOutput v
      else paintData h d := by
  by_cases hd : d.id = id
  · have hp : (paintData h d).setOutput v = d.setOutput v := by
      unfold paintData; split <;> rfl
    rw [if_pos hd, hp]
    simp [paintData, record_apply, hd]
  · simp [paintData, record_apply, hd]

/-- Setting one output is painting one more value. -/
theorem modify_paint (map : SimMap) (h : History Id CommonValueOutput) (id : Id)
    (v : CommonValueOutput) :
    (map.paint h).modify id (Entry.update (CommonData.setOutput v))
        (Entry.update_key (fun d => d.setOutput_id v)) = map.paint (record h id v) := by
  unfold SimMap.paint KeySet.modify
  rw [KeySet.map_map]
  apply KeySet.map_congr
  rintro ⟨d, ins⟩ _
  simp only [Entry.id, Entry.update, paintData_id, paintData_record]
  split <;> rfl

/-! ## One call of `simulate` against one visit -/

/-- The callback arguments of a return. -/
def Event.done? : Event → Option (Id × CommonValueOutput × CommonValueOutput)
  | .call _ => none
  | .done id a b => some (id, a, b)

/-- The simulator's state after the traversal state `t`, run on `map₀`. -/
structure Refines (map₀ : SimMap) (s : SimState) (t : State Id) : Prop where
  used : s.sim.usedGates = t.used
  map : s.map = map₀.paint (run map₀.interp t.prog)
  retInner : ∀ id, Inner map₀.wiring id →
    s.sim.retValues.find? id = ((run map₀.interp t.prog id).head?).map (Prod.mk id)
  retLeaf : ∀ id, map₀.wiring id = some .leaf → ∀ r, s.sim.retValues.find? id = some r ↔
    r = (id, map₀.outOf id) ∧ ∃ n ∈ t.used, Reads map₀.wiring n id
  retAbsent : ∀ id, map₀.wiring id = none → s.sim.retValues.find? id = none
  done : s.trace.filterMap Event.done? = calls map₀.interp t.prog (fun _ => [])
  called : ∀ id, .call id ∈ s.trace ↔ id ∈ t.used

theorem Refines.start (map₀ : SimMap) : Refines map₀ (.start map₀) State.start where
  used := rfl
  map := (paint_nil map₀).symm
  retInner _ _ := rfl
  retLeaf id _ r := by
    simp [SimState.start, Simulator.fresh, State.start]
  retAbsent _ _ := rfl
  done := rfl
  called id := by simp [SimState.start, State.start]

/-- What looking up an input leaves behind: the level of an input gate. -/
def remember (map₀ : SimMap) (s : SimState) (c : Id) : SimState :=
  if map₀.wiring c = some .leaf then
    { s with sim.retValues := s.sim.retValues.assign (c, map₀.outOf c) }
  else s

@[simp] theorem remember_used (map₀ : SimMap) (s : SimState) (c : Id) :
    (remember map₀ s c).sim.usedGates = s.sim.usedGates := by unfold remember; split <;> rfl
@[simp] theorem remember_map (map₀ : SimMap) (s : SimState) (c : Id) :
    (remember map₀ s c).map = s.map := by unfold remember; split <;> rfl
@[simp] theorem remember_trace (map₀ : SimMap) (s : SimState) (c : Id) :
    (remember map₀ s c).trace = s.trace := by unfold remember; split <;> rfl

theorem find_remember (map₀ : SimMap) (s : SimState) (c k : Id) :
    (remember map₀ s c).sim.retValues.find? k =
      if map₀.wiring c = some .leaf ∧ c = k then some (c, map₀.outOf c)
      else s.sim.retValues.find? k := by
  unfold remember
  by_cases h : map₀.wiring c = some .leaf
  · simp only [h, if_true, true_and, KeySet.find?_assign]
  · simp [h]

/-- Entering a gate and looking up its inputs. -/
theorem Refines.enter {map₀ : SimMap} {s : SimState} {t : State Id} (h : Refines map₀ s t)
    {id a b : Id} (hG : map₀.wiring id = some (.inner a b)) :
    Refines map₀ (remember map₀ (remember map₀ (s.enter id) a) b) (t.mark id) where
  used := by simp [SimState.enter, h.used]
  map := by simp [SimState.enter, h.map]
  retInner c hc := by
    obtain ⟨x, y, hc'⟩ := hc
    have hne : ∀ d, ¬(map₀.wiring d = some .leaf ∧ d = c) := by
      rintro d ⟨hd, rfl⟩
      simp [hc'] at hd
    rw [find_remember, find_remember, if_neg (hne b), if_neg (hne a)]
    exact h.retInner c ⟨x, y, hc'⟩
  retLeaf c hc r := by
    have hread : Reads map₀.wiring id c ↔ a = c ∨ b = c := by
      constructor
      · rintro ⟨x, y, hxy, hm, _⟩
        rw [hG] at hxy
        cases hxy
        exact hm.imp Eq.symm Eq.symm
      · exact fun hm => ⟨a, b, hG, hm.imp Eq.symm Eq.symm, by simp [hc]⟩
    have hex : (∃ n ∈ (t.mark id).used, Reads map₀.wiring n c) ↔
        (a = c ∨ b = c) ∨ ∃ n ∈ t.used, Reads map₀.wiring n c := by
      simp [Finset.mem_insert, or_and_right, exists_or, hread]
    rw [find_remember, find_remember, hex]
    by_cases hb : b = c
    · subst hb
      simp [hc, eq_comm]
    · by_cases ha : a = c
      · subst ha
        simp [hb, hc, eq_comm]
      · simpa [SimState.enter, ha, hb] using h.retLeaf c hc r
  retAbsent c hc := by
    have hne : ∀ d, ¬(map₀.wiring d = some .leaf ∧ d = c) := by
      rintro d ⟨hd, rfl⟩
      simp [hc] at hd
    rw [find_remember, find_remember, if_neg (hne b), if_neg (hne a)]
    exact h.retAbsent c hc
  done := by simp [SimState.enter, Event.done?, h.done]
  called c := by simp [SimState.enter, h.called, or_comm]

/-- Evaluating a gate, once both of its operands are at hand. -/
theorem Refines.finish {map₀ : SimMap} {s : SimState} {t : State Id} (h : Refines map₀ s t)
    {id : Id} (hid : Inner map₀.wiring id) (x y : Operand Id) :
    Refines map₀
      (s.finish id (x.read map₀.interp (run map₀.interp t.prog))
        (y.read map₀.interp (run map₀.interp t.prog))
        ((⟨id, x, y⟩ : Instr Id).result map₀.interp (run map₀.interp t.prog)))
      (t.emit ⟨id, x, y⟩) where
  used := h.used
  map := by
    rw [emit_prog, run_snoc, ← modify_paint]
    simp only [SimState.finish, h.map]
  retInner c hc := by
    rw [emit_prog, run_snoc, record_apply]
    simp only [SimState.finish, KeySet.find?_insert]
    by_cases hci : id = c
    · subst hci
      rw [if_pos rfl, if_pos rfl, h.retInner id hid]
      cases run map₀.interp t.prog id <;> rfl
    · rw [if_neg hci, if_neg (Ne.symm hci)]
      exact h.retInner c hc
  retLeaf c hc r := by
    have hne : id ≠ c := by
      rintro rfl
      obtain ⟨a, b, hG⟩ := hid
      simp [hG] at hc
    simpa [SimState.finish, KeySet.find?_insert, hne] using h.retLeaf c hc r
  retAbsent c hc := by
    have hne : id ≠ c := by
      rintro rfl
      obtain ⟨a, b, hG⟩ := hid
      simp [hG] at hc
    simpa [SimState.finish, KeySet.find?_insert, hne] using h.retAbsent c hc
  done := by
    rw [emit_prog, calls_snoc, ← h.done]
    simp [SimState.finish, Event.done?]
  called c := by simp [SimState.finish, h.called]

/-- The value an input gate's evaluation leaves in the map. -/
theorem Refines.getOutput {map₀ : SimMap} {s : SimState} {t : State Id} (h : Refines map₀ s t)
    {c : Id} (hc : Inner map₀.wiring c) (ho : 0 < occ c t.prog) :
    s.getOutput c = some ((t.last c).read map₀.interp (run map₀.interp t.prog)) := by
  obtain ⟨a, b, hG⟩ := hc
  obtain ⟨it, hit, _, _⟩ := wiring_inner hG
  have hlen : (run map₀.interp t.prog c).length = occ c t.prog := occ_run ..
  have hne : run map₀.interp t.prog c ≠ [] := by
    intro h; rw [h] at hlen; simp at hlen; omega
  have hlast := List.getLast?_eq_some_getLast hne
  have hj : occ c t.prog - 1 < (run map₀.interp t.prog c).length := by omega
  simp only [SimState.getOutput, h.map, find_paint, hit, Option.map_some, Entry.update_first,
    paintData, id_of_find hit, hlast, CommonData.setOutput_out, State.last, Operand.read,
    List.getD_eq_getElem?_getD, List.getElem?_eq_getElem hj, Option.getD_some,
    List.getLast_eq_getElem, hlen]

/-- Evaluating a missing input against the traversal's demand. -/
theorem force_refines {map₀ : SimMap} {fuel : Nat} {c : Id} {o : Option (Operand Id)}
    {x : Operand Id} {v : Option CommonValueOutput} {s : SimState} {t₀ t t' : State Id}
    (ih : ∀ s t t', Refines map₀ s t → Ok map₀.wiring t → Pending map₀.wiring t c →
      visit map₀.wiring fuel c t = some t' →
        ∃ s', simulate fuel c s = .ok s' ∧ Refines map₀ s' t')
    (hs : Refines map₀ s t) (hk : Ok map₀.wiring t)
    (hp : o = none → Pending map₀.wiring t c) (hc : o = none → Inner map₀.wiring c)
    (hv : v = o.map (fun o => o.read map₀.interp (run map₀.interp t₀.prog)))
    (ho : ∀ x, o = some x → x.Valid t₀.prog) (ht : ∃ q, t.prog = t₀.prog ++ q)
    (hd : demand (visit map₀.wiring fuel) o c t = some (x, t')) :
    ∃ s', force (simulate fuel) v c s =
        .ok (some (x.read map₀.interp (run map₀.interp t'.prog)), s') ∧
      Refines map₀ s' t' := by
  rcases demand_eq_some hd with ⟨rfl, rfl⟩ | ⟨rfl, hvis, rfl⟩
  · obtain ⟨q, hq⟩ := ht
    refine ⟨s, ?_, hs⟩
    rw [hv, hq, Operand.read_append _ q (ho x rfl)]
    rfl
  · obtain ⟨s', hsim, hs'⟩ := ih s t t' hs hk (hp rfl) hvis
    have hfind : s.map.find? c ≠ none := by
      obtain ⟨a, b, hG⟩ := hc rfl
      obtain ⟨it, hit, _, _⟩ := wiring_inner hG
      simp [hs.map, find_paint, hit]
    have hocc := (visit_spec hk (hp rfl) hvis).2.self.2.1
    refine ⟨s', ?_, hs'⟩
    rw [hv]
    simp [force, hfind, hsim, bind, Except.bind, hs'.getOutput (hc rfl) hocc]

section Calls

variable {map₀ : SimMap} (hready : map₀.Ready)

include hready

/-- A lookup of an input finds what the traversal's lookup finds; looking up an
input gate also records its level. -/
theorem getValue_refines {s : SimState} {t : State Id} (hk : Ok map₀.wiring t)
    (hu : s.sim.usedGates = t.used) (hm : s.map = map₀.paint (run map₀.interp t.prog))
    (c : Id) :
    s.getValue c = ((lookup map₀.wiring t c).map
        (fun o => o.read map₀.interp (run map₀.interp t.prog)),
      remember map₀ s c) := by
  have hfind : s.map.find? c = (map₀.find? c).map
      (Entry.update (paintData (run map₀.interp t.prog))) := by rw [hm, find_paint]
  unfold SimState.getValue lookup remember
  cases hc : map₀.find? c with
  | none =>
    have hw := wiring_eq_none.mpr hc
    rw [hc] at hfind
    simp [hfind, hw, Operand.read]
  | some it =>
    rw [hc] at hfind
    have hid : it.first.id = c := id_of_find hc
    cases hi : it.first.isInput with
    | true =>
      -- an input gate keeps the level it had
      have hw : map₀.wiring c = some .leaf := by simp [wiring_of_find hc, hi]
      have h0 := run_leaf hk hw
      have hp : paintData (run map₀.interp t.prog) it.first = it.first := by
        simp [paintData, hid, h0]
      have hne : it.first.out ≠ .unknown := by
        rw [← outOf_of_find hc]; exact Ready.leaf hready hw
      simp [hfind, hw, hp, hne, hi, hid, Operand.read, outOf_of_find hc]
    | false =>
      have hw : map₀.wiring c = some (.inner it.second.1 it.second.2) := by
        simp [wiring_of_find hc, hi]
      have hout : it.first.out = .unknown := (hready it (KeySet.mem_of_find? hc)).mpr hi
      by_cases ho : occ c t.prog = 0
      · have h0 : run map₀.interp t.prog c = [] := by
          rw [← List.length_eq_zero_iff, occ_run]; exact ho
        have hp : paintData (run map₀.interp t.prog) it.first = it.first := by
          simp [paintData, hid, h0]
        by_cases hcu : c ∈ t.used
        · simp [hfind, hw, hp, hout, ho, hcu, hu, Operand.read, typeOf_of_find hc]
        · simp [hfind, hw, hp, hout, ho, hcu, hu]
      · have hlen : (run map₀.interp t.prog c).length = occ c t.prog := occ_run ..
        have hne : run map₀.interp t.prog c ≠ [] := by
          intro h; rw [h] at hlen; exact ho hlen.symm
        have hlast : (run map₀.interp t.prog c).getLast? =
            some ((run map₀.interp t.prog c).getLast hne) := List.getLast?_eq_some_getLast hne
        have hp : paintData (run map₀.interp t.prog) it.first =
            it.first.setOutput ((run map₀.interp t.prog c).getLast hne) := by
          simp [paintData, hid, hlast]
        have hv : (run map₀.interp t.prog c).getLast hne ≠ .unknown := by
          obtain ⟨a, b, _, hab⟩ := (mem_run_iff_calls ..).mp (List.getLast_mem hne)
          rw [hab]
          exact levelOf_ne_unknown _
        have hread : (t.last c).read map₀.interp (run map₀.interp t.prog) =
            (run map₀.interp t.prog c).getLast hne := by
          have hj : occ c t.prog - 1 < (run map₀.interp t.prog c).length := by omega
          simp only [State.last, Operand.read, List.getD_eq_getElem?_getD,
            List.getElem?_eq_getElem hj, Option.getD_some, List.getLast_eq_getElem, hlen]
        simp [hfind, hw, hp, hv, ho, hi, hread]

/-- **One call.**  When the traversal's visit succeeds, so does the call, and
the two end in matching states. -/
theorem simulate_refines {fuel : Nat} {id : Id} {s : SimState} {t t' : State Id}
    (hs : Refines map₀ s t) (hk : Ok map₀.wiring t) (hp : Pending map₀.wiring t id)
    (hv : visit map₀.wiring fuel id t = some t') :
    ∃ s', simulate fuel id s = .ok s' ∧ Refines map₀ s' t' := by
  induction fuel generalizing id s t t' with
  | zero => simp [visit] at hv
  | succ fuel ih =>
    obtain ⟨a, b, x, y, t₁, t₂, hG, hd₁, hd₂, rfl, hk₀, hk₁, hp₀, he₁, _, hx, hy, q₂, hq₂⟩ :=
      visit_inv hk hp hv
    obtain ⟨it, hit, hin, hsec⟩ := wiring_inner hG
    have hfind : s.map.find? id =
        some (it.update (paintData (run map₀.interp t.prog))) := by
      rw [hs.map, find_paint, hit]; rfl
    have hs₀ := hs.enter hG
    -- both lookups happen in the marked state
    have h₁ := getValue_refines hready hk₀ (s := s.enter id) (by simp [SimState.enter, hs.used])
      hs.map a
    have h₂ := getValue_refines hready hk₀ (s := remember map₀ (s.enter id) a)
      (by simp [SimState.enter, hs.used]) (by simpa [SimState.enter] using hs.map) b
    have hva : ∀ o, lookup map₀.wiring (t.mark id) a = some o → o.Valid (t.mark id).prog :=
      fun o ho => (lookup_operand ho hp₀).2.1
    have hvb : ∀ o, lookup map₀.wiring (t.mark id) b = some o → o.Valid (t.mark id).prog :=
      fun o ho => (lookup_operand ho hp₀).2.1
    obtain ⟨s₁, f₁, hs₁⟩ := force_refines (fun s t t' => ih) hs₀ hk₀
      (fun hn => hp₀.reads (reads_left hG (lookup_eq_none.mp hn).1))
      (fun hn => (lookup_eq_none.mp hn).1) rfl hva ⟨[], by simp⟩ hd₁
    obtain ⟨q₁, hq₁, _⟩ := he₁.grows
    obtain ⟨s₂, f₂, hs₂⟩ := force_refines (fun s t t' => ih) hs₁ hk₁
      (fun hn => he₁.pending (hp₀.reads (reads_right hG (lookup_eq_none.mp hn).1)))
      (fun hn => (lookup_eq_none.mp hn).1) rfl hvb ⟨q₁, hq₁⟩ hd₂
    have hxr : x.read map₀.interp (run map₀.interp t₁.prog) =
        x.read map₀.interp (run map₀.interp t₂.prog) := by
      rw [hq₂, Operand.read_append _ q₂ hx]
    rw [hxr] at f₁
    refine ⟨_, simulate_eq_ok.mpr ⟨_, _, _, _, _, _, _, _, _, hfind,
      by simpa [hsec] using h₁, by simpa [hsec] using h₂, by simpa [hsec] using f₁,
      by simpa [hsec] using f₂, rfl⟩, ?_⟩
    have hfin := hs₂.finish ⟨a, b, hG⟩ x y
    simpa [Instr.result, typeOf_of_find hit] using hfin

/-- The loop over the elements against the visits of the `OUTPUT` gates. -/
theorem simLoop_refines {fuel : Nat} {l : List Entry} {s : SimState} {t t' : State Id}
    (hs : Refines map₀ s t) (hd : Done map₀.wiring t)
    (hv : visitAll map₀.wiring fuel
      ((l.filter (fun it => it.first.type = .output)).map Entry.id) t = some t') :
    ∃ s', simLoop fuel l s = .ok s' ∧ Refines map₀ s' t' := by
  induction l generalizing s t with
  | nil =>
    simp only [List.filter_nil, List.map_nil, visitAll, Option.some.injEq] at hv
    subst hv
    exact ⟨s, rfl, hs⟩
  | cons it l ih =>
    by_cases ho : it.first.type = .output
    · simp only [List.filter_cons, ho, decide_true, if_true, List.map_cons, visitAll,
        Option.bind_eq_some_iff] at hv
      obtain ⟨t₁, hv₁, hv₂⟩ := hv
      obtain ⟨s₁, hs₁, hr₁⟩ := simulate_refines hready hs hd.ok (hd.pending it.id) hv₁
      obtain ⟨s', hs', hr'⟩ := ih hr₁ (hd.visit hv₁).1 hv₂
      exact ⟨s', by simp [simLoop, ho, hs₁, hs', bind, Except.bind], hr'⟩
    · simp only [List.filter_cons, ho, decide_false, Bool.false_eq_true, if_false] at hv
      obtain ⟨s', hs', hr'⟩ := ih hs hd hv
      exact ⟨s', by simp [simLoop, ho, hs'], hr'⟩

end Calls

/-! ## Whole runs -/

/-- Selected gates come in increasing id order. -/
theorem filter_ids_sorted (map : SimMap) (p : Entry → Bool) :
    ((map.elems.filter p).map Entry.id).Pairwise (· < ·) := by
  rw [List.pairwise_map]
  exact map.sorted.sublist List.filter_sublist

theorem mem_outputs {map : SimMap} {id : Id} :
    id ∈ map.outputs ↔ ∃ it, map.find? id = some it ∧ it.first.type = .output := by
  simp only [SimMap.outputs, List.mem_map, List.mem_filter, decide_eq_true_eq]
  constructor
  · rintro ⟨it, ⟨hit, ht⟩, rfl⟩
    exact ⟨it, KeySet.find?_of_mem hit, ht⟩
  · rintro ⟨it, hit, ht⟩
    exact ⟨it, ⟨KeySet.mem_of_find? hit, ht⟩, KeySet.key_of_find? hit⟩

theorem inner_of_mem_outputs {map : SimMap} {id : Id} (h : id ∈ map.outputs) :
    Inner map.wiring id := by
  obtain ⟨it, hit, ht⟩ := mem_outputs.mp h
  exact inner_of_find hit (by simp [CommonData.isInput, ht])

/-- A traversal of the wiring is total with one unit of fuel per gate and one
to spare. -/
theorem visitAll_wiring_total (map : SimMap) {roots : List Id}
    (hroots : ∀ n ∈ roots, Inner map.wiring n) :
    ∃ t, visitAll map.wiring (map.size + 1) roots State.start = some t := by
  have hnodes : ∀ n, Inner map.wiring n → n ∈ (map.elems.map Entry.id).toFinset := by
    rintro n ⟨a, b, hG⟩
    obtain ⟨it, hit, _, _⟩ := wiring_inner hG
    simp only [List.mem_toFinset, List.mem_map]
    exact ⟨it, KeySet.mem_of_find? hit, KeySet.key_of_find? hit⟩
  have hcard : (map.elems.map Entry.id).toFinset.card < map.size + 1 := by
    have := List.toFinset_card_le (map.elems.map Entry.id)
    rw [List.length_map] at this
    exact Nat.lt_succ_of_le this
  exact visitAll_total hnodes hcard hroots (Done.start _)

theorem traversal_total (map : SimMap) :
    ∃ t, map.traversal = some t ∧ map.plan = t.prog ∧ Done map.wiring t := by
  obtain ⟨t, ht⟩ := visitAll_wiring_total map (fun _ => inner_of_mem_outputs)
  exact ⟨t, ht, by rw [SimMap.plan, SimMap.traversal, ht], (visitAll_spec (Done.start _) ht).1⟩

/-- **Whole runs.**  On a map that is ready, every run with more fuel than gates
returns the same state, the one the execution of the schedule describes. -/
theorem run_refines {map : SimMap} (hready : map.Ready) :
    ∃ s t, map.traversal = some t ∧ map.plan = t.prog ∧ Done map.wiring t ∧
      Refines map s t ∧ Returns (fun fuel => SimState.run fuel (.start map)) s := by
  obtain ⟨t, ht, hp, hd⟩ := traversal_total map
  obtain ⟨s, hs, hr⟩ := simLoop_refines hready (.start map) (Done.start _) ht
  exact ⟨s, t, ht, hp, hd, hr, map.size + 1, fun fuel hf => SimState.run_mono hf hs⟩

/-! ## What is reported after a run -/

/-- `id` is an `OUTPUT` gate, or a gate that one reads directly or transitively;
an input gate reads nothing. -/
def SimMap.ReadByOutput (map : SimMap) (id : Id) : Prop :=
  ∃ o ∈ map.outputs, Reach map.wiring o id

theorem ReadByOutput.find {map : SimMap} {id : Id} (h : map.ReadByOutput id) :
    ∃ it, map.find? id = some it := by
  obtain ⟨o, ho, hr⟩ := h
  cases hr with
  | refl =>
    obtain ⟨it, hit, _⟩ := mem_outputs.mp ho
    exact ⟨it, hit⟩
  | tail _ hni =>
    obtain ⟨_, _, _, _, hne⟩ := hni
    exact Option.ne_none_iff_exists'.mp (fun h => hne (wiring_eq_none.mpr h))

theorem Refines.getValue_inner {map₀ : SimMap} {s : SimState} {t : State Id}
    (h : Refines map₀ s t) {id : Id} (hid : Inner map₀.wiring id) :
    s.sim.getValue id = ((run map₀.interp t.prog id).head?).getD .unknown := by
  rw [Simulator.getValue, h.retInner id hid]
  cases (run map₀.interp t.prog id).head? <;> rfl

/-- What the map stores for a gate: the last value its evaluation gave. -/
theorem Refines.outOf_inner {map₀ : SimMap} (hready : map₀.Ready) {s : SimState} {t : State Id}
    (h : Refines map₀ s t) {id : Id} (hid : Inner map₀.wiring id) :
    s.map.outOf id = ((run map₀.interp t.prog id).getLast?).getD .unknown := by
  obtain ⟨a, b, hG⟩ := hid
  obtain ⟨it, hit, hi, _⟩ := wiring_inner hG
  have hfind : s.map.find? id = some (it.update (paintData (run map₀.interp t.prog))) := by
    rw [h.map, find_paint, hit]; rfl
  have hu : it.first.out = .unknown := (hready it (KeySet.mem_of_find? hit)).mpr hi
  rw [outOf_of_find hfind, Entry.update_first, paintData, id_of_find hit]
  cases (run map₀.interp t.prog id).getLast? with
  | none => exact hu
  | some v => rfl

theorem Refines.outOf_leaf {map₀ : SimMap} {s : SimState} {t : State Id} (h : Refines map₀ s t)
    (hk : Ok map₀.wiring t) {id : Id} (hid : map₀.wiring id = some .leaf) :
    s.map.outOf id = map₀.outOf id := by
  obtain ⟨it, hit, _⟩ := wiring_leaf hid
  have hfind : s.map.find? id = some (it.update (paintData (run map₀.interp t.prog))) := by
    rw [h.map, find_paint, hit]; rfl
  rw [outOf_of_find hfind, outOf_of_find hit, Entry.update_first, paintData, id_of_find hit,
    run_leaf hk hid]
  rfl

theorem Refines.getValue_leaf {map₀ : SimMap} {s : SimState} {t : State Id}
    (h : Refines map₀ s t) {id n : Id} (hid : map₀.wiring id = some .leaf) (hn : n ∈ t.used)
    (hr : Reads map₀.wiring n id) : s.sim.getValue id = map₀.outOf id := by
  rw [Simulator.getValue, (h.retLeaf id hid _).mpr ⟨rfl, n, hn, hr⟩]

/-- A gate that an `OUTPUT` reads is reported: with the first value its
evaluation gave, or with its level if it is an input gate. -/
theorem Refines.reported {map : SimMap} {s : SimState} {t : State Id} (h : Refines map s t)
    (ht : map.traversal = some t) {id : Id} (hid : map.ReadByOutput id) :
    (Inner map.wiring id ∧ s.sim.getValue id ∈ run map.interp t.prog id) ∨
      (map.wiring id = some .leaf ∧ s.sim.getValue id = map.outOf id) := by
  have hd : Done map.wiring t := (visitAll_spec (Done.start _) ht).1
  have hinner : Inner map.wiring id → s.sim.getValue id ∈ run map.interp t.prog id := by
    intro hi
    obtain ⟨o, ho, hr⟩ := hid
    have hu : id ∈ t.used := (visitAll_used ht id).mpr ⟨hi, o, ho, hr⟩
    have hlen : 0 < (run map.interp t.prog id).length := by
      rw [occ_run]; exact (hd.all id hu).1
    rw [h.getValue_inner hi]
    cases hl : run map.interp t.prog id with
    | nil => simp [hl] at hlen
    | cons v l => simp
  obtain ⟨o, ho, hr⟩ := hid
  cases hr with
  | refl =>
    have hi := inner_of_mem_outputs ho
    exact Or.inl ⟨hi, hinner hi⟩
  | @tail n _ hon hni =>
    have hread := hni
    obtain ⟨a, b, hG, _, hne⟩ := hni
    cases hw : map.wiring id with
    | none => exact absurd hw hne
    | some k =>
      cases k with
      | leaf =>
        have hu : n ∈ t.used := (visitAll_used ht n).mpr ⟨⟨a, b, hG⟩, o, ho, hon⟩
        exact Or.inr ⟨rfl, h.getValue_leaf hw hu hread⟩
      | inner x y => exact Or.inl ⟨⟨x, y, hw⟩, hinner ⟨x, y, hw⟩⟩

/-- Any other gate is not reported. -/
theorem Refines.unreported {map : SimMap} {s : SimState} {t : State Id} (h : Refines map s t)
    (ht : map.traversal = some t) {id : Id} (hid : ¬ map.ReadByOutput id) :
    s.sim.getValue id = .unknown := by
  have hd : Done map.wiring t := (visitAll_spec (Done.start _) ht).1
  have hused : ∀ n ∈ t.used, map.ReadByOutput n :=
    fun n hn => ((visitAll_used ht n).mp hn).2
  rw [Simulator.getValue]
  cases hw : map.wiring id with
  | none => rw [h.retAbsent id hw]
  | some k =>
    cases k with
    | leaf =>
      cases hr : s.sim.retValues.find? id with
      | none => rfl
      | some r =>
        obtain ⟨_, n, hn, hread⟩ := (h.retLeaf id hw r).mp hr
        obtain ⟨o, ho, hon⟩ := hused n hn
        exact absurd ⟨o, ho, hon.tail hread⟩ hid
    | inner a b =>
      have hnu : id ∉ t.used := fun hu => hid (hused id hu)
      have hocc : ¬ 0 < occ id t.prog := fun hpos => hnu (hd.ok.done id hpos)
      have hnil : run map.interp t.prog id = [] := by
        rw [← List.length_eq_zero_iff, occ_run]
        omega
      rw [h.retInner id ⟨a, b, hw⟩, hnil]
      rfl

end SimGate

import SimGate.CircuitRefinement
import SimGate.DisplayRuns
import SimGate.Semantics

/-!
# What the user sees

The levels of a circuit are those of Boolean logic: an input state has its own level, a
free input is low and every other part applies its truth function.  While a simulation is
shown, the pictures of the outputs and the colours of the wires are these levels wherever
no feedback is read.

* `level_iff`: the levels of the parts are the meanings of their ids in the map;
* `shown_levels`: the levels on the screen after a run.
-/

namespace SimGate

open Demand Execution Relation

/-! ## Levels of a circuit -/

namespace Circuit

/-- The level that a part sends, or that arrives at a free input. -/
inductive Level (c : Circuit) : Option GatePtr → Bool → Prop
  | free : c.Level none false
  | high {p : Part} : p ∈ c.parts → p.type = .highState → c.Level (some p.ptr) true
  | low {p : Part} : p ∈ c.parts → p.type = .lowState → c.Level (some p.ptr) false
  | part {p : Part} {x y : Bool} : p ∈ c.parts → p.type ≠ .highState → p.type ≠ .lowState →
      c.Level (c.source ⟨p.ptr, .input1⟩) x → c.Level (c.source ⟨p.ptr, .input2⟩) y →
      c.Level (some p.ptr) (truth p.type x y)

/-- `p` reads `q`. -/
def Reads (c : Circuit) (p q : GatePtr) : Prop := ∃ slot, c.source ⟨p, slot⟩ = some q

/-- Nothing that `p` reads, directly or not, reads itself. -/
def LoopFree (c : Circuit) (p : GatePtr) : Prop :=
  ∀ q, ReflTransGen c.Reads p q → ¬ TransGen c.Reads q q

/-- An `OUTPUT` part is `p` or reads it, directly or not. -/
def Observed (c : Circuit) (p : GatePtr) : Prop :=
  ∃ o ∈ c.parts, o.type = .output ∧ ReflTransGen c.Reads o.ptr p

end Circuit

namespace Area

variable {a : Area}

/-! ## Ids and parts -/

/-- The id of what is read. -/
def sourceId (a : Area) : Option GatePtr → Id
  | none => gNotValidGateId
  | some q => ((a.m_gates.find? q).map Gate.id).getD gNotValidGateId

theorem slotId_eq (a : Area) (g : Gate) (slot : HitBoxType) :
    a.slotId g slot = a.sourceId (a.scene.source ⟨g.ptr, slot⟩) := by
  rw [slotId]
  cases a.scene.source ⟨g.ptr, slot⟩ <;> rfl

@[simp] theorem sourceId_ptr {g : Gate} (hg : g ∈ a.m_gates.elems) :
    a.sourceId (some g.ptr) = g.id := by
  rw [sourceId, KeySet.find?_of_mem hg]
  rfl

theorem mem_parts {p : Part} : p ∈ a.circuit.parts ↔ ∃ g ∈ a.m_gates.elems, g.part = p :=
  List.mem_map

theorem entry_isInput (a : Area) (g : Gate) :
    (a.entry g).first.isInput = true ↔ g.type = .highState ∨ g.type = .lowState := by
  rw [CommonData.isInput_iff, entry_type]

theorem DistinctIds.ptr_of_id (hd : a.DistinctIds) {g : Gate} (hg : g ∈ a.m_gates.elems)
    {q : GatePtr} (hq : a.circuit.HasPart q) (h : a.sourceId (some q) = g.id) : q = g.ptr := by
  obtain ⟨x, hx, rfl⟩ := hasPart_iff.mp hq
  rw [sourceId_ptr hx] at h
  exact congrArg Gate.ptr (hd x hx g hg h)

theorem DistinctIds.denotes_of_level (hd : a.DistinctIds) {q : Option GatePtr} {b : Bool}
    (h : a.circuit.Level q b) :
    Denotes a.simMap (a.sourceId q) b := by
  induction h with
  | free => exact .unconnected
  | high hp ht =>
    obtain ⟨g, hg, rfl⟩ := mem_parts.mp hp
    rw [show a.sourceId (some g.part.ptr) = g.id from sourceId_ptr hg]
    exact .high (hd.find_simMap hg) ((entry_type a g).trans ht)
  | low hp ht =>
    obtain ⟨g, hg, rfl⟩ := mem_parts.mp hp
    rw [show a.sourceId (some g.part.ptr) = g.id from sourceId_ptr hg]
    exact .low (hd.find_simMap hg) ((entry_type a g).trans ht)
  | @part p x y hp hh hl _ _ ihx ihy =>
    obtain ⟨g, hg, rfl⟩ := mem_parts.mp hp
    rw [show a.sourceId (some g.part.ptr) = g.id from sourceId_ptr hg]
    have hin : (a.entry g).first.isInput = false :=
      Bool.eq_false_iff.mpr fun hin => ((entry_isInput a g).mp hin).elim hh hl
    have htype : (a.entry g).first.type = g.part.type := entry_type a g
    rw [← htype]
    refine .gate (hd.find_simMap hg) hin ?_ ?_
    · show Denotes a.simMap (a.slotId g .input1) x
      exact (slotId_eq a g .input1).symm ▸ ihx
    · show Denotes a.simMap (a.slotId g .input2) y
      exact (slotId_eq a g .input2).symm ▸ ihy

variable (ha : a.WellFormed) (hd : a.DistinctIds)

include ha

theorem WellFormed.simMap_zero : a.simMap.find? gNotValidGateId = none := by
  rw [find_simMap, Option.map_eq_none_iff, Option.eq_none_iff_forall_ne_some]
  exact fun g hg => (ha.shaped g (mem_of_getGate hg)).id (getGate_id hg)

include hd

/-- The ids stand for the gates, and the simulator reads what the wires say. -/
theorem WellFormed.tracks :
    Tracks a.circuit.HasPart (fun q => a.sourceId (some q)) a.circuit.Reads
      (Demand.Reads a.simMap.wiring) where
  closed p q hp hr := by
    obtain ⟨slot, hs⟩ := hr
    obtain ⟨x, hx, rfl⟩ := ha.source_mem hs
    exact hasPart_iff.mpr ⟨x, hx, rfl⟩
  forth p q hp hr := by
    obtain ⟨g, hg, rfl⟩ := hasPart_iff.mp hp
    obtain ⟨slot, hs⟩ := hr
    obtain ⟨x, hx, rfl⟩ := ha.source_mem hs
    rw [sourceId_ptr hg, sourceId_ptr hx]
    have hs : a.scene.source ⟨g.ptr, slot⟩ = some x.ptr := hs
    have hslot : slot ∈ hitBoxTypes g.type := by
      by_contra hslot
      rw [ha.source_of_missing hg hslot] at hs
      cases hs
    have hne := (ha.feeds_output hx (ha.source_eq_some.mp hs)).2.1
    have hin : (a.entry g).first.isInput = false := by
      refine Bool.eq_false_iff.mpr fun hin => ?_
      rcases (entry_isInput a g).mp hin with ht | ht <;> rw [ht] at hslot <;>
        exact hne (by simpa [hitBoxTypes] using hslot)
    have hwiring := wiring_of_find (hd.find_simMap hg)
    rw [hin, if_neg (by simp)] at hwiring
    refine ⟨_, _, hwiring, ?_, ?_⟩
    · have hid := slotId_of_source hx hs
      cases slot with
      | input1 => exact Or.inl hid.symm
      | input2 => exact Or.inr hid.symm
      | output => exact absurd rfl hne
    · rw [wiring_of_find (hd.find_simMap hx)]
      exact Option.some_ne_none _
  back p id hp hr := by
    obtain ⟨g, hg, rfl⟩ := hasPart_iff.mp hp
    rw [sourceId_ptr hg] at hr
    obtain ⟨i, j, hwiring, hid, hpresent⟩ := hr
    obtain ⟨it, hit, _, hsecond⟩ := wiring_inner hwiring
    rw [hd.find_simMap hg] at hit
    cases hit
    obtain ⟨rfl, rfl⟩ := Prod.mk.inj hsecond
    have hslot : ∃ slot, id = a.slotId g slot := by
      rcases hid with rfl | rfl
      · exact ⟨.input1, rfl⟩
      · exact ⟨.input2, rfl⟩
    obtain ⟨slot, rfl⟩ := hslot
    have hne : a.slotId g slot ≠ gNotValidGateId := by
      intro h0
      rw [h0] at hpresent
      exact hpresent (wiring_eq_none.mpr ha.simMap_zero)
    obtain ⟨x, hx, hf, hxid⟩ := ha.feeds_of_slotId hne
    exact ⟨x.ptr, ⟨slot, ha.source_eq_some.mpr hf⟩, (sourceId_ptr hx).trans hxid.symm⟩

theorem WellFormed.loopFree {g : Gate} (hg : g ∈ a.m_gates.elems)
    (h : a.circuit.LoopFree g.ptr) : a.simMap.LoopFree g.id := by
  have htracks := ha.tracks hd
  have hpart : a.circuit.HasPart g.ptr := hasPart_iff.mpr ⟨g, hg, rfl⟩
  intro id hreach hloop
  rw [← sourceId_ptr hg] at hreach
  obtain ⟨q, hq, rfl⟩ := (htracks.reach_iff hpart).mp hreach
  have hqpart := htracks.reach_closed hpart hq
  obtain ⟨q', hq', hid⟩ := (htracks.trans_iff hqpart).mp hloop
  obtain ⟨x, hx, rfl⟩ := hasPart_iff.mp hqpart
  rw [sourceId_ptr hx] at hid
  have hq'part := htracks.reach_closed hqpart hq'.to_reflTransGen
  exact h _ hq (hd.ptr_of_id hx hq'part hid ▸ hq')

theorem WellFormed.observed_iff {g : Gate} (hg : g ∈ a.m_gates.elems) :
    a.circuit.Observed g.ptr ↔ a.simMap.ReadByOutput g.id := by
  have htracks := ha.tracks hd
  constructor
  · rintro ⟨_, hmem, htype, hr⟩
    obtain ⟨o, ho, rfl⟩ := mem_parts.mp hmem
    have hpart : a.circuit.HasPart o.ptr := hasPart_iff.mpr ⟨o, ho, rfl⟩
    refine ⟨o.id, mem_simMap_outputs.mpr ⟨o, hd.getGate ho, htype⟩, ?_⟩
    rw [Reach, ← sourceId_ptr ho]
    exact (htracks.reach_iff hpart).mpr ⟨g.ptr, hr, sourceId_ptr hg⟩
  · rintro ⟨id, hid, hr⟩
    obtain ⟨o, ho, htype⟩ := mem_simMap_outputs.mp hid
    have hmem := mem_of_getGate ho
    rw [← getGate_id ho, Reach, ← sourceId_ptr hmem] at hr
    have hpart : a.circuit.HasPart o.ptr := hasPart_iff.mpr ⟨o, hmem, rfl⟩
    obtain ⟨q, hq, hqid⟩ := (htracks.reach_iff hpart).mp hr
    have hsame := hd.ptr_of_id hg (htracks.reach_closed hpart hq) hqid
    exact ⟨o.part, mem_parts.mpr ⟨o, hmem, rfl⟩, htype, hsame ▸ hq⟩

/-! ## Levels and meanings -/

theorem WellFormed.level_of_denotes {id : Id} {b : Bool} (h : Denotes a.simMap id b)
    {q : Option GatePtr} (hq : ∀ p, q = some p → a.circuit.HasPart p) (hid : a.sourceId q = id) :
    a.circuit.Level q b := by
  have hgate : ∀ {id : Id} {q : Option GatePtr}, (∀ p, q = some p → a.circuit.HasPart p) →
      a.sourceId q = id → q = none ∧ id = gNotValidGateId ∨
        ∃ g ∈ a.m_gates.elems, q = some g.ptr ∧ a.simMap.find? id = some (a.entry g) := by
    intro id q hq hid
    cases q with
    | none => exact Or.inl ⟨rfl, hid.symm⟩
    | some p =>
      obtain ⟨g, hg, rfl⟩ := hasPart_iff.mp (hq p rfl)
      rw [sourceId_ptr hg] at hid
      exact Or.inr ⟨g, hg, rfl, hid ▸ hd.find_simMap hg⟩
  -- an entry that is found is the one of the gate
  have hfound : ∀ {id : Id} {it : Entry} {q : Option GatePtr},
      (∀ p, q = some p → a.circuit.HasPart p) → a.sourceId q = id → a.simMap.find? id = some it →
        ∃ g ∈ a.m_gates.elems, q = some g.ptr ∧ it = a.entry g := by
    intro id it q hq hid hit
    rcases hgate hq hid with ⟨_, rfl⟩ | ⟨g, hg, hptr, hfind⟩
    · rw [ha.simMap_zero] at hit
      cases hit
    · exact ⟨g, hg, hptr, Option.some.inj (hit.symm.trans hfind)⟩
  induction h generalizing q with
  | unconnected =>
    rcases hgate hq hid with ⟨rfl, _⟩ | ⟨g, hg, _, hfind⟩
    · exact .free
    · rw [ha.simMap_zero] at hfind
      cases hfind
  | absent hnone =>
    rcases hgate hq hid with ⟨rfl, _⟩ | ⟨g, hg, _, hfind⟩
    · exact .free
    · rw [hnone] at hfind
      cases hfind
  | high hit ht =>
    obtain ⟨g, hg, rfl, rfl⟩ := hfound hq hid hit
    exact .high (mem_parts.mpr ⟨g, hg, rfl⟩) ((entry_type a g).symm.trans ht)
  | low hit ht =>
    obtain ⟨g, hg, rfl, rfl⟩ := hfound hq hid hit
    exact .low (mem_parts.mpr ⟨g, hg, rfl⟩) ((entry_type a g).symm.trans ht)
  | gate hit hin _ _ ihx ihy =>
    obtain ⟨g, hg, rfl, rfl⟩ := hfound hq hid hit
    have hnot := fun h => Bool.eq_false_iff.mp hin ((entry_isInput a g).mpr h)
    have hslot : ∀ slot p, a.scene.source ⟨g.ptr, slot⟩ = some p → a.circuit.HasPart p := by
      intro slot p hp
      obtain ⟨x, hx, rfl⟩ := ha.source_mem hp
      exact hasPart_iff.mpr ⟨x, hx, rfl⟩
    rw [entry_type]
    exact .part (mem_parts.mpr ⟨g, hg, rfl⟩) (fun h => hnot (Or.inl h)) (fun h => hnot (Or.inr h))
      (ihx (hslot .input1) (slotId_eq a g .input1).symm)
      (ihy (hslot .input2) (slotId_eq a g .input2).symm)

/-- **Levels are meanings.** -/
theorem WellFormed.level_iff {g : Gate} (hg : g ∈ a.m_gates.elems) {b : Bool} :
    a.circuit.Level (some g.ptr) b ↔ Denotes a.simMap g.id b := by
  constructor
  · intro h
    rw [← sourceId_ptr hg]
    exact hd.denotes_of_level h
  · intro h
    refine ha.level_of_denotes hd h ?_ (sourceId_ptr hg)
    intro p hp
    exact hasPart_iff.mpr ⟨g, hg, Option.some.inj hp⟩

end Area

/-! ## The screen -/

/-- A gate that an `OUTPUT` reads is reported with its meaning if it reads no feedback. -/
theorem reports_denotes {map : SimMap} (hid : map.NonzeroIds) (hf : map.Fresh) {id : Id}
    {v : CommonValueOutput} (h : map.Reports id v) (hread : map.ReadByOutput id)
    (hfree : map.LoopFree id) : ∃ b, (∀ c, Denotes map id c ↔ c = b) ∧ v = ofBool b := by
  obtain ⟨s, t, ht, _, hd, hr, hret⟩ := run_refines hf.ready
  have hv : v = s.sim.getValue id := reports_unique h ⟨s, hret, rfl⟩
  have hmeaning : Meaning map id v := by
    rw [hv]
    rcases hr.reported ht hread with ⟨_, hmem⟩ | ⟨hleaf, hvalue⟩
    · exact run_meaning hf hd.ok id _ hmem hfree
    · rw [hvalue]
      exact Meaning.leaf hf hleaf
  obtain ⟨b, hb, rfl⟩ := hmeaning
  exact ⟨b, fun c => ⟨fun hc => hc.unique hid hb, fun hc => hc ▸ hb⟩, rfl⟩

namespace Area

variable {a : Area}

theorem simMap_fresh (a : Area) : a.simMap.Fresh := by
  intro it hit
  obtain ⟨g, _, rfl⟩ := List.mem_map.mp (KeySet.mem_of_mem_ofList hit)
  rw [CommonData.defaultValue_eq]
  simp [entry]

theorem WellFormed.nonzeroIds (ha : a.WellFormed) : a.simMap.NonzeroIds := by
  intro it hit
  obtain ⟨g, hg, rfl⟩ := List.mem_map.mp (KeySet.mem_of_mem_ofList hit)
  rw [entry_id]
  exact (ha.shaped g hg).id

/-- The screen shows the levels of the circuit where no feedback is read, and only those
of parts that an `OUTPUT` reads. -/
structure ShowsLevels (a : Area) : Prop where
  output : ∀ g ∈ a.m_gates.elems, g.type = .output → a.circuit.LoopFree g.ptr →
    ∃ b, (∀ c, a.circuit.Level (some g.ptr) c ↔ c = b) ∧ g.pixmap = valuePixmap (ofBool b)
  wire : ∀ p w, a.scene.wire p = some w → a.circuit.Observed w.output.owner →
    a.circuit.LoopFree w.output.owner →
    ∃ b, (∀ c, a.circuit.Level (some w.output.owner) c ↔ c = b) ∧ w.color = valueColor (ofBool b)
  dark : ∀ p w, a.scene.wire p = some w → ¬ a.circuit.Observed w.output.owner → w.color = .black

theorem WellFormed.reports_level (ha : a.WellFormed) (hd : a.DistinctIds) {g : Gate}
    (hg : g ∈ a.m_gates.elems) (ho : a.circuit.Observed g.ptr) (hf : a.circuit.LoopFree g.ptr)
    {v : CommonValueOutput} (hv : a.simMap.Reports g.id v) :
    ∃ b, (∀ c, a.circuit.Level (some g.ptr) c ↔ c = b) ∧ v = ofBool b := by
  obtain ⟨b, hb, hvb⟩ := reports_denotes ha.nonzeroIds (simMap_fresh a) hv
    ((ha.observed_iff hd hg).mp ho) (ha.loopFree hd hg hf)
  exact ⟨b, fun c => (ha.level_iff hd hg).trans (hb c), hvb⟩

theorem Displays.showsLevels (ha : a.WellFormed) (hd : a.DistinctIds)
    (h : a.Displays a.simMap.Reports) : a.ShowsLevels where
  output g hg ht hf := by
    have hout : g.isOutput = true := by
      rw [(ha.shaped g hg).isOutput, ht]
      rfl
    have hobs : a.circuit.Observed g.ptr := ⟨g.part, mem_parts.mpr ⟨g, hg, rfl⟩, ht, .refl⟩
    obtain ⟨v, hv, hpix⟩ := h.output g hg hout
    obtain ⟨b, hb, rfl⟩ := ha.reports_level hd hg hobs hf hv
    exact ⟨b, hb, hpix⟩
  wire p w hw hobs hf := by
    obtain ⟨g, hg, hptr, v, hv, hcolor⟩ := h.wire p w hw
    rw [← hptr] at hobs hf ⊢
    obtain ⟨b, hb, rfl⟩ := ha.reports_level hd hg hobs hf hv
    exact ⟨b, hb, hcolor⟩
  dark p w hw hobs := by
    obtain ⟨g, hg, hptr, v, hv, hcolor⟩ := h.wire p w hw
    rw [← hptr, ha.observed_iff hd hg] at hobs
    cases reports_unique hv (reports_unread (simMap_ready a) hobs)
    exact hcolor

theorem InStep.showsLevels (hi : a.InStep) (ha : a.Sound) (hd : a.DistinctIds)
    (hflag : a.simulatorFlag = true) : a.ShowsLevels := by
  rw [InStep, if_pos hflag] at hi
  exact hi.showsLevels ha.wellFormed hd

/-- **What the user sees.**  While a simulation of a scheme with distinct ids is shown, as
long as no step changes it without showing it again, the screen shows the levels of the
circuit. -/
theorem shown_levels {gen : List Id} {acts : List Action} {a₀ : Area}
    (h : create gen = .ok a₀) (hkeep : Along step KeepsDisplay acts a₀)
    (hrun : runs step acts a₀ = .ok a) (hflag : a.simulatorFlag = true) (hd : a.DistinctIds) :
    a.ShowsLevels := by
  have hsound : ∀ pre b, runs step pre a₀ = .ok b → b.Sound := by
    intro pre b hb
    have hrun : create gen >>= runs step pre = .ok b := by
      rw [h]
      exact hb
    exact runs_sound hrun
  have hinv : a.Sound ∧ a.InStep := by
    refine runs_along (I := fun a => a.Sound ∧ a.InStep) ?_ hkeep
      ⟨hsound [] a₀ rfl, create_inStep h⟩ acts a (List.prefix_refl _) hrun
    rintro act a a' ⟨ha, hi⟩ hk hstep
    exact ⟨step_sound ha hstep, step_inStep ha hi hk hstep⟩
  obtain ⟨ha, hi⟩ := hinv
  exact hi.showsLevels ha hd hflag

/-- A NOT gate between an input state and the output, simulated and then toggled. -/
def negated : List Action :=
  [.draw .highState, .draw .not, .click ⟨2, .input1⟩, .click ⟨1, .output⟩, .click ⟨0, .input1⟩,
    .click ⟨2, .output⟩, .simulate, .changeTypeInput 1]

theorem shown_levels_negated :
    ∃ a₀ a, create [7, 8, 9] = .ok a₀ ∧ runs step negated a₀ = .ok a ∧
      a.simulatorFlag = true ∧ a.m_gates.elems.map Gate.pixmap = [.highState, .lowState, .not] ∧
      a.ShowsLevels := by
  obtain ⟨a₀, a₁, a₂, a₃, a₄, a₅, a₆, a₇, a₈, h, h₁, h₂, h₃, h₄, h₅, h₆, h₇, h₈, hf₂, hf₃, hf₄, hf₅,
      hflag, hpix, hids⟩ :
      ∃ a₀ a₁ a₂ a₃ a₄ a₅ a₆ a₇ a₈, create [7, 8, 9] = .ok a₀ ∧
        step (.draw .highState) a₀ = .ok a₁ ∧ step (.draw .not) a₁ = .ok a₂ ∧
        step (.click ⟨2, .input1⟩) a₂ = .ok a₃ ∧ step (.click ⟨1, .output⟩) a₃ = .ok a₄ ∧
        step (.click ⟨0, .input1⟩) a₄ = .ok a₅ ∧ step (.click ⟨2, .output⟩) a₅ = .ok a₆ ∧
        step .simulate a₆ = .ok a₇ ∧ step (.changeTypeInput 1) a₇ = .ok a₈ ∧
        a₂.simulatorFlag = false ∧ a₃.simulatorFlag = false ∧ a₄.simulatorFlag = false ∧
        a₅.simulatorFlag = false ∧ a₈.simulatorFlag = true ∧
        a₈.m_gates.elems.map Gate.pixmap = [.highState, .lowState, .not] ∧
        a₈.m_gates.elems.map Gate.id = [7, 8, 9] :=
    ⟨_, _, _, _, _, _, _, _, _, rfl, rfl, rfl, rfl, rfl, rfl, rfl, rfl, rfl, rfl, rfl, rfl, rfl,
      rfl, by decide, by decide⟩
  have hclear : ∀ {act b}, b.simulatorFlag = false → KeepsDisplay act b := by
    intro act b hb hset
    rw [hb] at hset
    cases hset
  have hkeep : Along step KeepsDisplay negated a₀ :=
    .cons h₁ (fun _ => by simp) (.cons h₂ (fun _ => by simp) (.cons h₃ (hclear hf₂)
      (.cons h₄ (hclear hf₃) (.cons h₅ (hclear hf₄) (.cons h₆ (hclear hf₅)
        (.cons h₇ (fun _ => trivial) (.cons h₈ (fun _ => trivial) trivial)))))))
  have hrun : runs step negated a₀ = .ok a₈ := by
    simp only [negated, runs, h₁, h₂, h₃, h₄, h₅, h₆, h₇, h₈, bind, Except.bind]
  have hd : a₈.DistinctIds := by
    have hnodup : (a₈.m_gates.elems.map Gate.id).Nodup := hids ▸ by decide
    exact fun g hg g' hg' he => List.inj_on_of_nodup_map hnodup hg hg' he
  exact ⟨a₀, a₈, h, hrun, hflag, hpix, shown_levels h hkeep hrun hflag hd⟩

end Area

end SimGate

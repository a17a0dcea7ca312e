import SimGate.Editor

/-!
# Reading the connections

`Scene.source` is the gate whose output an input is wired to.  The two readers
of the source, `createSimMap` and `saveProject`, compute it for the inputs of
every gate (`inputIds_eq`) but stop at a gate whose second input is free:
`readable_iff`.
-/

namespace SimGate

/-- The gate that the wire at an input comes from. -/
def Scene.source (s : Scene) (box : HitBoxPtr) : Option GatePtr := do
  let h ← s.hitbox box
  let p ← h.wire
  let w ← s.wire p
  some w.output.owner

namespace Scene

theorem Consistent.source_eq_some {s : Scene} (hs : s.Consistent) {box : HitBoxPtr} {q : GatePtr} :
    s.source box = some q ↔ ∃ p w, s.wire p = some w ∧ w.input = box ∧ w.output.owner = q := by
  constructor
  · intro h
    simp only [source, Option.bind_eq_bind, Option.bind_eq_some_iff, Option.some.injEq] at h
    obtain ⟨b, hb, p, hp, w, hw, rfl⟩ := h
    obtain ⟨w', hw', he⟩ := hs.ofWire box b p hb hp
    rw [hw] at hw'
    cases hw'
    exact ⟨p, w, hw, he, rfl⟩
  · rintro ⟨p, w, hw, rfl, rfl⟩
    obtain ⟨⟨b, hb, hp⟩, _⟩ := hs.registered p w hw
    simp [source, hb, hp, hw]

theorem Consistent.source_eq_none {s : Scene} (hs : s.Consistent) {box : HitBoxPtr} :
    s.source box = none ↔ ∀ p w, s.wire p = some w → w.input ≠ box := by
  constructor
  · rintro h p w hw rfl
    rw [hs.source_eq_some.mpr ⟨p, w, hw, rfl, rfl⟩] at h
    cases h
  · intro h
    refine Option.eq_none_iff_forall_ne_some.mpr fun q hq => ?_
    obtain ⟨p, w, hw, he, _⟩ := hs.source_eq_some.mp hq
    exact h p w hw he

/-- Reading an input that is alive. -/
theorem Consistent.getWire_source {s : Scene} (hs : s.Consistent) {box : HitBoxPtr}
    {h : GateHitBox} (hb : s.hitbox box = some h) :
    s.getWire (some box) = .ok none ∧ s.source box = none ∨
      ∃ p q, s.getWire (some box) = .ok (some p) ∧ s.inputOwner p = .ok q ∧
        s.source box = some q := by
  cases hp : h.wire with
  | none =>
    exact Or.inl ⟨by simp [getWire, deref_eq hb, hp, bind, Except.bind], by simp [source, hb, hp]⟩
  | some p =>
    obtain ⟨w, hw, _⟩ := hs.ofWire box h p hb hp
    obtain ⟨_, b, hbo, _⟩ := hs.registered p w hw
    refine Or.inr ⟨p, w.output.owner, ?_, ?_, by simp [source, hb, hp, hw]⟩
    · simp [getWire, deref_eq hb, hp, bind, Except.bind]
    · simp [inputOwner, derefWire_eq hw, deref_eq hbo, bind, Except.bind]

end Scene

/-! ## The inputs of a gate -/

def twoInputs (type : CommonGateType) : Bool := HitBoxType.input2 ∈ hitBoxTypes type

namespace Area

variable {a : Area} (ha : a.WellFormed) {g : Gate} (hg : g ∈ a.m_gates.elems)

include ha hg

/-- A gate has exactly the hitboxes of its type. -/
theorem WellFormed.alive_iff (slot : HitBoxType) :
    (∃ h, a.scene.hitbox ⟨g.ptr, slot⟩ = some h) ↔ slot ∈ hitBoxTypes g.type := by
  rw [ha.alive]
  constructor
  · rintro ⟨g', hg', hbox⟩
    obtain ⟨howner, ht⟩ := (ha.shaped g' hg').mem_hitboxes.mp hbox
    rw [KeySet.eq_of_key hg hg' howner]
    exact ht
  · intro ht
    exact ⟨g, hg, (ha.shaped g hg).mem_hitboxes.mpr ⟨rfl, ht⟩⟩

theorem WellFormed.source_of_missing {slot : HitBoxType} (hslot : slot ∉ hitBoxTypes g.type) :
    a.scene.source ⟨g.ptr, slot⟩ = none := by
  cases hb : a.scene.hitbox ⟨g.ptr, slot⟩ with
  | none => simp [Scene.source, hb]
  | some h => exact absurd ((ha.alive_iff hg slot).mp ⟨h, hb⟩) hslot

theorem WellFormed.getInput_first :
    g.getInput .input1 a.scene = .ok (a.scene.source ⟨g.ptr, .input1⟩) := by
  have hshape := ha.shaped g hg
  by_cases hin : g.type = .highState ∨ g.type = .lowState
  · have hmiss : HitBoxType.input1 ∉ hitBoxTypes g.type := by
      rcases hin with h | h <;> rw [h] <;> decide
    rw [ha.source_of_missing hg hmiss, Gate.getInput, if_pos hin]
  · have hhead : (hitBoxTypes g.type)[0]? = some .input1 := by
      have ht := hshape.type
      cases h : g.type <;> simp_all [hitBoxTypes]
    have hbox : g.hitboxes[0]? = some ⟨g.ptr, .input1⟩ := by
      rw [hshape.hitboxes, List.getElem?_map, hhead]
      rfl
    obtain ⟨h, hb⟩ := (ha.alive_iff hg .input1).mpr (List.mem_of_getElem? hhead)
    simp only [Gate.getInput, if_neg hin, hbox, bind, Except.bind]
    rcases ha.consistent.getWire_source hb with ⟨hw, hs⟩ | ⟨p, q, hw, ho, hs⟩
    · simp only [hw, hs]
    · simp only [hw, ho, hs]

/-- The second slot is read without a test. -/
theorem WellFormed.getInput_second :
    g.getInput .input2 a.scene =
      if twoInputs g.type ∧ a.scene.source ⟨g.ptr, .input2⟩ = none then .error .nullPointer
      else .ok (a.scene.source ⟨g.ptr, .input2⟩) := by
  have hshape := ha.shaped g hg
  by_cases htwo : twoInputs g.type = true
  · have hslot : (hitBoxTypes g.type)[1]? = some .input2 ∧
        ¬ (g.type = .highState ∨ g.type = .lowState) ∧ ¬ (g.type = .not ∨ g.type = .output) := by
      cases h : g.type <;> simp_all [hitBoxTypes, twoInputs]
    obtain ⟨hsnd, hin, hone⟩ := hslot
    have hbox : g.hitboxes[1]? = some ⟨g.ptr, .input2⟩ := by
      rw [hshape.hitboxes, List.getElem?_map, hsnd]
      rfl
    obtain ⟨h, hb⟩ := (ha.alive_iff hg .input2).mpr (List.mem_of_getElem? hsnd)
    simp only [Gate.getInput, if_neg hin, if_neg hone, hbox, bind, Except.bind]
    rcases ha.consistent.getWire_source hb with ⟨hw, hs⟩ | ⟨p, q, hw, ho, hs⟩
    · simp [hw, hs, htwo]
    · simp [hw, ho, hs]
  · have hmiss : HitBoxType.input2 ∉ hitBoxTypes g.type :=
      fun h => htwo (by simpa [twoInputs] using h)
    have hone : g.type = .highState ∨ g.type = .lowState ∨ g.type = .not ∨ g.type = .output := by
      have ht := hshape.type
      cases h : g.type <;> simp_all [hitBoxTypes]
    rw [ha.source_of_missing hg hmiss, if_neg fun h => htwo h.1]
    rcases hone with h | h | h | h <;> simp [Gate.getInput, h]

end Area

/-! ## The ids -/

namespace Area

/-- The id of the gate wired to a slot. -/
def slotId (a : Area) (g : Gate) (slot : HitBoxType) : Id :=
  match a.scene.source ⟨g.ptr, slot⟩ with
  | none => gNotValidGateId
  | some q => ((a.m_gates.find? q).map Gate.id).getD gNotValidGateId

/-- Gate `x` is wired to a slot of `g`. -/
def Feeds (a : Area) (x g : Gate) (slot : HitBoxType) : Prop :=
  ∃ p w, a.scene.wire p = some w ∧ w.input = ⟨g.ptr, slot⟩ ∧ w.output.owner = x.ptr

def Connected (a : Area) (g : Gate) (slot : HitBoxType) : Prop :=
  ∃ p w, a.scene.wire p = some w ∧ w.input = ⟨g.ptr, slot⟩

/-- What a reader of the slot should see. -/
def Reads (a : Area) (g : Gate) (slot : HitBoxType) (id : Id) : Prop :=
  (∃ x ∈ a.m_gates.elems, a.Feeds x g slot ∧ id = x.id) ∨
    ¬ a.Connected g slot ∧ id = gNotValidGateId

theorem slotId_of_source {a : Area} {x g : Gate} {slot : HitBoxType} (hx : x ∈ a.m_gates.elems)
    (h : a.scene.source ⟨g.ptr, slot⟩ = some x.ptr) : a.slotId g slot = x.id := by
  simp [slotId, h, KeySet.find?_of_mem hx]

namespace WellFormed

variable {a : Area} (ha : a.WellFormed)

include ha

theorem source_eq_some {x g : Gate} {slot : HitBoxType} :
    a.scene.source ⟨g.ptr, slot⟩ = some x.ptr ↔ a.Feeds x g slot :=
  ha.consistent.source_eq_some

theorem connected_iff {g : Gate} {slot : HitBoxType} :
    a.Connected g slot ↔ a.scene.source ⟨g.ptr, slot⟩ ≠ none := by
  rw [Ne, ha.consistent.source_eq_none]
  simp [Connected]

/-- The wires come from gates of the scene. -/
theorem source_mem {box : HitBoxPtr} {q : GatePtr} (h : a.scene.source box = some q) :
    ∃ x ∈ a.m_gates.elems, x.ptr = q := by
  obtain ⟨p, w, hw, _, rfl⟩ := ha.consistent.source_eq_some.mp h
  obtain ⟨_, b, hb, _⟩ := ha.consistent.registered p w hw
  obtain ⟨x, hx, hbox⟩ := (ha.alive w.output).mp ⟨b, hb⟩
  exact ⟨x, hx, ((ha.shaped x hx).mem_hitboxes.mp hbox).1.symm⟩

theorem source_cases (g : Gate) (slot : HitBoxType) :
    a.scene.source ⟨g.ptr, slot⟩ = none ∨
      ∃ x ∈ a.m_gates.elems, a.scene.source ⟨g.ptr, slot⟩ = some x.ptr := by
  cases h : a.scene.source ⟨g.ptr, slot⟩ with
  | none => exact Or.inl rfl
  | some q =>
    obtain ⟨x, hx, rfl⟩ := ha.source_mem h
    exact Or.inr ⟨x, hx, rfl⟩

theorem reads_slotId (g : Gate) (slot : HitBoxType) : a.Reads g slot (a.slotId g slot) := by
  rcases ha.source_cases g slot with h | ⟨x, hx, h⟩
  · exact Or.inr ⟨fun hc => ha.connected_iff.mp hc h, by simp [slotId, h]⟩
  · exact Or.inl ⟨x, hx, ha.source_eq_some.mp h, slotId_of_source hx h⟩

theorem inputId_source (g : Gate) (slot : HitBoxType) :
    a.inputId (a.scene.source ⟨g.ptr, slot⟩) = .ok (a.slotId g slot) := by
  rcases ha.source_cases g slot with h | ⟨x, hx, h⟩
  · simp [inputId, slotId, h]
  · simp [inputId, h, KeySet.find?_of_mem hx, slotId_of_source hx h]

end WellFormed

/-! ## The readers -/

/-- No second input is free. -/
def SecondsConnected (a : Area) : Prop :=
  ∀ g ∈ a.m_gates.elems, twoInputs g.type → a.Connected g .input2

/-- The elements that `saveProject` writes for a gate. -/
def saved (a : Area) (g : Gate) : List Element :=
  [.gateId g.id, .gateType g.type.code, .x g.x, .y g.y, .input (a.slotId g .input1),
    .input (a.slotId g .input2), .endEntity]

def entry (a : Area) (g : Gate) : Entry :=
  ⟨.create g.type g.id, (a.slotId g .input1, a.slotId g .input2)⟩

section

variable {a : Area} (ha : a.WellFormed) {g : Gate} (hg : g ∈ a.m_gates.elems)

include ha hg

theorem WellFormed.inputIds_eq :
    a.inputIds g =
      if twoInputs g.type ∧ a.scene.source ⟨g.ptr, .input2⟩ = none then .error .nullPointer
      else .ok (a.slotId g .input1, a.slotId g .input2) := by
  rw [inputIds, ha.getInput_first hg, ha.getInput_second hg]
  split_ifs with hfree
  · rfl
  · simp only [bind, Except.bind, ha.inputId_source]

theorem WellFormed.saveGate_eq :
    a.saveGate g =
      if twoInputs g.type ∧ a.scene.source ⟨g.ptr, .input2⟩ = none then .error .nullPointer
      else .ok (a.saved g) := by
  rw [saveGate, ha.getInput_first hg, ha.getInput_second hg]
  split_ifs with hfree
  · simp only [bind, Except.bind, ha.inputId_source]
  · simp only [bind, Except.bind, ha.inputId_source, saved]

end

theorem WellFormed.createSimMap_eq {a : Area} (ha : a.WellFormed) (hc : a.SecondsConnected) :
    a.createSimMap = .ok (KeySet.ofList (a.m_gates.elems.map a.entry)) := by
  rw [createSimMap, KeySet.ofList, List.foldl_map]
  refine Execution.foldlM_eq_ok (fun it hit map => ?_) ∅
  rw [ha.inputIds_eq hit, if_neg fun h => ha.connected_iff.mp (hc it hit h.1) h.2]
  rfl

theorem WellFormed.saveProject_eq {a : Area} (ha : a.WellFormed) (hc : a.SecondsConnected) :
    a.saveProject = .ok ((a.m_gates.elems.map a.saved).flatten ++ [.endFile]) := by
  have hmap : a.m_gates.elems.mapM a.saveGate = .ok (a.m_gates.elems.map a.saved) :=
    Execution.mapM_eq_ok fun it hit => by
      rw [ha.saveGate_eq hit, if_neg fun h => ha.connected_iff.mp (hc it hit h.1) h.2]
  rw [saveProject, hmap]
  rfl

theorem WellFormed.secondsConnected {a : Area} (ha : a.WellFormed) {file : List Element}
    (h : a.saveProject = .ok file) : a.SecondsConnected := by
  obtain ⟨entities, he, _⟩ := Execution.bind_eq_ok h
  intro g hg htwo
  obtain ⟨l, hl⟩ := Execution.mapM_turns he g hg
  refine ha.connected_iff.mpr fun hn => ?_
  rw [ha.saveGate_eq hg, if_pos ⟨htwo, hn⟩] at hl
  cases hl

theorem WellFormed.secondsConnected_of_map {a : Area} (ha : a.WellFormed) {map : SimMap}
    (h : a.createSimMap = .ok map) : a.SecondsConnected := by
  intro g hg htwo
  obtain ⟨t, t', ht⟩ := Execution.foldlM_turns h g hg
  refine ha.connected_iff.mpr fun hn => ?_
  rw [ha.inputIds_eq hg, if_pos ⟨htwo, hn⟩] at ht
  cases ht

/-- Reading succeeds and gives every gate one entry with what its slots read. -/
def Readable (a : Area) : Prop :=
  (∃ map, a.createSimMap = .ok map ∧ map.size = a.m_gates.size ∧
    ∀ g ∈ a.m_gates.elems, ∃ inputs, map.find? g.id = some ⟨.create g.type g.id, inputs⟩ ∧
      a.Reads g .input1 inputs.1 ∧ a.Reads g .input2 inputs.2) ∧
  ∃ file, a.saveProject = .ok file

theorem DistinctIds.nodup {a : Area} (hd : a.DistinctIds) :
    (a.m_gates.elems.map Gate.id).Nodup :=
  a.m_gates.nodup.map_on fun g hg g' hg' h => hd g hg g' hg' h

/-- With distinct ids the map keeps one entry for every gate. -/
theorem DistinctIds.simMap {a : Area} (hd : a.DistinctIds) :
    let map : SimMap := KeySet.ofList (a.m_gates.elems.map a.entry)
    map.size = a.m_gates.size ∧ ∀ g ∈ a.m_gates.elems, map.find? g.id = some (a.entry g) := by
  have hid : ∀ g, (a.entry g).id = g.id := fun g => CommonData.create_id g.type g.id
  have hnd : ((a.m_gates.elems.map a.entry).map Entry.id).Nodup := by
    have hids : (a.m_gates.elems.map a.entry).map Entry.id = a.m_gates.elems.map Gate.id := by
      rw [List.map_map]
      exact List.map_congr_left fun g _ => hid g
    rw [hids]
    exact hd.nodup
  refine ⟨?_, fun g hg => ?_⟩
  · rw [KeySet.size_ofList hnd, List.length_map]
    rfl
  · rw [← hid g]
    exact KeySet.find?_of_mem ((KeySet.mem_ofList hnd).mpr (List.mem_map_of_mem hg))

theorem readable_of_connected {a : Area} (ha : a.WellFormed) (hd : a.DistinctIds)
    (hc : a.SecondsConnected) : a.Readable :=
  ⟨⟨_, ha.createSimMap_eq hc, hd.simMap.1, fun g hg => ⟨_, hd.simMap.2 g hg,
    ha.reads_slotId g .input1, ha.reads_slotId g .input2⟩⟩, _, ha.saveProject_eq hc⟩

/-- **Reading.**  After any drawing, connecting and deleting, the connections can
be read exactly when no second input is free. -/
theorem readable_iff {gen : List Id} {acts : List Action} {a : Area}
    (hacts : ∀ act ∈ acts, act.edits = true)
    (h : create gen >>= Execution.runs step acts = .ok a) :
    a.Readable ↔ ∀ g ∈ a.m_gates.elems, twoInputs g.type → a.Connected g .input2 := by
  have hloads : ∀ act ∈ acts, act.loads = false := by
    intro act hact
    cases hl : act with
    | load fuel file reader =>
      have he := hacts act hact
      rw [hl] at he
      cases he
    | _ => rfl
  obtain ⟨ha, hd⟩ := runs_distinctIds hloads h
  refine ⟨fun ⟨_, file, hf⟩ => ha.wellFormed.secondsConnected hf, fun hc => ?_⟩
  exact readable_of_connected ha.wellFormed hd hc

/-- One input state feeds both inputs of an AND gate. -/
def fedAnd : List Action :=
  [.draw .and, .draw .highState, .click ⟨1, .input1⟩, .click ⟨2, .output⟩, .click ⟨1, .input2⟩,
    .click ⟨2, .output⟩]

theorem readable_iff_fedAnd :
    ∃ a, create [7, 8, 9] >>= Execution.runs step fedAnd = .ok a ∧ a.Readable := by
  have hacts : ∀ act ∈ fedAnd, act.edits = true := by decide
  obtain ⟨a, ha, hand, hw⟩ : ∃ a, create [7, 8, 9] >>= Execution.runs step fedAnd = .ok a ∧
      (∀ g ∈ a.m_gates.elems, twoInputs g.type → g.ptr = 1) ∧
      a.scene.wire 1 = some ⟨⟨1, .input2⟩, ⟨2, .output⟩, .black⟩ := ⟨_, rfl, by decide, rfl⟩
  exact ⟨a, ha, (readable_iff hacts ha).mpr fun g hg htwo => ⟨1, _, hw, by rw [hand g hg htwo]⟩⟩

/-- **A null pointer.**  An AND gate that is not connected yet can be neither
simulated nor saved. -/
theorem freshAnd_unreadable :
    ∃ a, create [7, 8] >>= Execution.runs step [.draw .and] = .ok a ∧
      a.createSimMap = .error .nullPointer ∧ a.saveProject = .error .nullPointer ∧
      ¬ a.Readable := by
  refine ⟨_, rfl, rfl, rfl, ?_⟩
  rintro ⟨⟨map, hmap, _⟩, _⟩
  cases hmap

end Area

end SimGate

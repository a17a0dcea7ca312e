import SimGate.Display
import SimGate.Identifiers

/-!
# The display over whole runs

Drawing, connecting, deleting a wire and loading leave the display as it is, also
while it shows a simulation.  They change what a fresh simulator reports only where
an `OUTPUT` gate reads the scheme.

* `reports_edited`: an edit that no `OUTPUT` gate reads changes no report;
* `runs_inStep`: the condition on the steps of a run under which the display stays in
  step with the scheme.
-/

namespace SimGate

open Demand

namespace Area

/-! ## Displays after an edit -/

section

variable {level : Id → CommonValueOutput → Prop} {a : Area} (hd : a.Displays level)

include hd

theorem Displays.drawn (ha : a.WellFormed) {type : CommonGateType} {id : Id} {x y : Qreal}
    (hnew : type = .output → level id .unknown) : (a.drawn type id x y).Displays level where
  output g hg ho := by
    rcases ha.mem_drawn.mp hg with hg | rfl
    · exact hd.output g hg ho
    · rw [Gate.drawn_eq] at ho ⊢
      have ht : type = .output := of_decide_eq_true ho
      exact ⟨.unknown, hnew ht, ht⟩
  wire p w hw := by
    obtain ⟨g, hg, h⟩ := hd.wire p w hw
    exact ⟨g, ha.mem_drawn.mpr (Or.inl hg), h⟩

theorem Displays.draw (ha : a.WellFormed) {type : CommonGateType} {id : Id} {x y : Qreal}
    {a' : Area} (h : a.draw type id x y = .ok a')
    (hnew : type = .output → ∀ id, level id .unknown) : a'.Displays level := by
  obtain ⟨tmpId, gen, _, _, _, rfl⟩ := draw_ok h
  have hd' : { a with gen := gen }.Displays level := ⟨hd.output, hd.wire⟩
  split
  · exact ⟨hd.output, hd.wire⟩
  · exact hd'.drawn (ha.gen gen) fun ht => hnew ht tmpId

theorem Displays.keep (live : WirePtr → Bool) :
    { a with scene := a.scene.keep live }.Displays level :=
  ⟨hd.output, fun p w hw => hd.wire p w (Scene.keep_wire.mp hw).2⟩

/-- A new wire is black. -/
theorem Displays.released (ha : a.Sound) {this : HitBoxPtr} {s : Scene}
    (h : a.scene.released this = .ok s)
    (hnew : ∀ i o, Scene.Connecting this i o a.scene → ∀ g ∈ a.m_gates.elems, g.ptr = o.owner →
      level g.id .unknown) : { a with scene := s }.Displays level := by
  rcases Scene.released_wires ha.pending h with ⟨_, _, hwire⟩ | ⟨i, o, hc, rfl⟩
  · exact ⟨hd.output, fun p w hw => hd.wire p w (hwire ▸ hw)⟩
  · refine ⟨hd.output, fun p w hw => ?_⟩
    have hw : (a.scene.connect i o).wire p = some w := hw
    rw [Scene.connect_wire] at hw
    split at hw
    · cases hw
      obtain ⟨g, hg, hbox⟩ := (ha.wellFormed.alive o).mp hc.alive
      have hptr : g.ptr = o.owner := ((ha.wellFormed.shaped g hg).mem_hitboxes.mp hbox).1.symm
      exact ⟨g, hg, hptr, .unknown, hnew i o hc g hg hptr, rfl⟩
    · exact hd.wire p w hw

end

/-! ## Reports after an edit -/

/-- A gate that the simulator finds under an id that an `OUTPUT` gate reads. -/
def Visited (a : Area) (gate : GatePtr) : Prop :=
  ∃ id g, a.getGate id = some g ∧ g.ptr = gate ∧ a.simMap.ReadByOutput id

/-- A gate whose id an `OUTPUT` gate reads. -/
def Reported (a : Area) (gate : GatePtr) : Prop :=
  ∃ g ∈ a.m_gates.elems, g.ptr = gate ∧ a.simMap.ReadByOutput g.id

theorem mem_simMap_outputs {a : Area} {id : Id} :
    id ∈ a.simMap.outputs ↔ ∃ g, a.getGate id = some g ∧ g.type = .output := by
  rw [mem_outputs, find_simMap]
  constructor
  · rintro ⟨it, hit, ht⟩
    obtain ⟨g, hg, rfl⟩ := Option.map_eq_some_iff.mp hit
    exact ⟨g, hg, by simpa [entry] using ht⟩
  · rintro ⟨g, hg, ht⟩
    exact ⟨a.entry g, by rw [hg]; rfl, by simpa [entry] using ht⟩

/-- What a gate that is read reads itself is read too, or absent. -/
theorem WellFormed.read_closed {a : Area} (ha : a.WellFormed) {id : Id} {g : Gate}
    (hg : a.getGate id = some g) (hid : a.simMap.ReadByOutput id) {slot : HitBoxType}
    (hslot : slot ≠ .output) :
    a.simMap.ReadByOutput (a.slotId g slot) ∨ a.slotId g slot = gNotValidGateId := by
  have hfind : a.simMap.find? id = some (a.entry g) := by rw [find_simMap, hg]; rfl
  by_cases h0 : a.slotId g slot = gNotValidGateId
  · exact Or.inr h0
  · obtain ⟨x, hx, _, hxid⟩ := ha.feeds_of_slotId h0
    have hin : (a.entry g).first.isInput = false := by
      refine Bool.eq_false_iff.mpr fun hin => h0 (ha.slotId_missing (mem_of_getGate hg) ?_)
      rw [CommonData.isInput_iff, entry, CommonData.create_type] at hin
      rcases hin with h | h <;> rw [h] <;> cases slot <;> simp_all [hitBoxTypes]
    have hwiring := wiring_of_find hfind
    rw [hin, if_neg (by simp)] at hwiring
    have hpresent : a.simMap.wiring (a.slotId g slot) ≠ none := by
      rw [Ne, wiring_eq_none, hxid, find_simMap, Option.map_eq_none_iff]
      exact getGate_ne_none hx
    obtain ⟨o, ho, hr⟩ := hid
    refine Or.inl ⟨o, ho, hr.tail ⟨_, _, hwiring, ?_, hpresent⟩⟩
    cases slot with
    | input1 => exact Or.inl rfl
    | input2 => exact Or.inr rfl
    | output => exact absurd rfl hslot

/-- **An edit that no output reads** changes no report. -/
theorem reports_edited {a a' : Area} (ha : a.WellFormed) (ha' : a'.WellFormed)
    (houtputs : ∀ id g, a'.getGate id = some g → g.type = .output → a.getGate id = some g)
    (hread : ∀ id g, a.getGate id = some g → a.simMap.ReadByOutput id →
      a'.getGate id = some g ∧ ∀ slot, a'.slotId g slot = a.slotId g slot)
    (id : Id) (v : CommonValueOutput) (h : a.simMap.Reports id v) : a'.simMap.Reports id v := by
  have hzero : ∀ {b : Area}, b.WellFormed → b.simMap.find? gNotValidGateId = none := by
    intro b hb
    rw [find_simMap, Option.map_eq_none_iff, Option.eq_none_iff_forall_ne_some]
    exact fun g hg => (hb.shaped g (mem_of_getGate hg)).id (getGate_id hg)
  refine reports_congr (R := fun id => a.simMap.ReadByOutput id ∨ id = gNotValidGateId)
    (fun id hid => Or.inl ⟨id, ?_, .refl⟩) (fun id hid => ?_) (fun id it hid hit => ?_) h
  · rcases hid with hid | hid
    · exact hid
    · obtain ⟨g, hg, ht⟩ := mem_simMap_outputs.mp hid
      exact mem_simMap_outputs.mpr ⟨g, houtputs id g hg ht, ht⟩
  · rcases hid with hid | rfl
    · obtain ⟨it, hit⟩ := ReadByOutput.find hid
      rw [find_simMap] at hit
      obtain ⟨g, hg, _⟩ := Option.map_eq_some_iff.mp hit
      obtain ⟨hg', hslot⟩ := hread id g hg hid
      rw [find_simMap, find_simMap, hg, hg', Option.map_some, Option.map_some,
        entry_congr rfl rfl hslot]
    · rw [hzero ha, hzero ha']
  · rcases hid with hid | rfl
    · rw [find_simMap] at hit
      obtain ⟨g, hg, rfl⟩ := Option.map_eq_some_iff.mp hit
      exact ⟨ha.read_closed hg hid (by simp), ha.read_closed hg hid (by simp)⟩
    · rw [hzero ha] at hit
      cases hit

theorem getGate_drawn {a : Area} (ha : a.WellFormed) (type : CommonGateType) (tmpId : Id)
    (x y : Qreal) (id : Id) :
    (a.drawn type tmpId x y).getGate id =
      (a.getGate id).or
        (if tmpId = id then some (Gate.drawn a.nextGate type tmpId x y) else none) := by
  have hptr : (Gate.drawn a.nextGate type tmpId x y).ptr = a.nextGate := by
    rw [Gate.drawn_eq]
    rfl
  have hid : (Gate.drawn a.nextGate type tmpId x y).id = tmpId := by rw [Gate.drawn_eq]
  have helems : (a.drawn type tmpId x y).m_gates.elems =
      a.m_gates.elems ++ [Gate.drawn a.nextGate type tmpId x y] :=
    KeySet.elems_insert_last fun g hg => by
      rw [hptr]
      exact ha.allocated g hg
  rw [getGate, helems, List.find?_append, List.find?_singleton, hid, getGate]
  simp only [decide_eq_true_eq]

/-- A new gate is wired to nothing. -/
theorem slotId_drawn {a : Area} (ha : a.WellFormed) (type : CommonGateType) (tmpId : Id)
    (x y : Qreal) {g : Gate} (hg : g ∈ a.m_gates.elems) (slot : HitBoxType) :
    (a.drawn type tmpId x y).slotId g slot = a.slotId g slot := by
  have hbox : ⟨g.ptr, slot⟩ ∉ (hitBoxTypes type).map (HitBoxPtr.mk a.nextGate) := by
    intro hmem
    obtain ⟨_, _, he⟩ := List.mem_map.mp hmem
    exact Nat.ne_of_gt (ha.allocated g hg) (HitBoxPtr.mk.inj he).1
  have hsource : (a.drawn type tmpId x y).scene.source ⟨g.ptr, slot⟩ =
      a.scene.source ⟨g.ptr, slot⟩ := by
    simp only [Area.drawn, Scene.source, Scene.withNew, hbox, if_false]
  rw [slotId, slotId, hsource]
  cases hs : a.scene.source ⟨g.ptr, slot⟩ with
  | none => rfl
  | some q =>
    obtain ⟨z, hz, rfl⟩ := ha.source_mem hs
    have hne : (Gate.drawn a.nextGate type tmpId x y).ptr ≠ z.ptr := by
      rw [Gate.drawn_eq]
      exact Nat.ne_of_gt (ha.allocated z hz)
    simp only [Area.drawn, KeySet.find?_insert, if_neg hne]

theorem reports_draw {a a' : Area} (ha : a.WellFormed) {type : CommonGateType} {id : Id}
    {x y : Qreal} (ht : type ≠ .output) (h : a.draw type id x y = .ok a') :
    ∀ id v, a.simMap.Reports id v → a'.simMap.Reports id v := by
  have hw := ha.draw h
  obtain ⟨tmpId, gen, _, _, _, rfl⟩ := draw_ok h
  split at hw
  · next he =>
    rw [if_pos he]
    exact fun _ _ h => h
  · next he =>
    rw [if_neg he]
    refine reports_edited (a := { a with gen := gen }) (ha.gen gen) hw (fun id g hg hout => ?_)
      fun id g hg _ => ⟨?_, slotId_drawn (ha.gen gen) type tmpId x y (mem_of_getGate hg)⟩
    · rw [getGate_drawn (ha.gen gen), Option.or_eq_some_iff] at hg
      rcases hg with hg | ⟨_, hg⟩
      · exact hg
      · split at hg
        · cases hg
          rw [Gate.drawn_eq] at hout
          exact absurd hout ht
        · cases hg
    · rw [getGate_drawn (ha.gen gen), hg]
      rfl

/-- The wires at one input hitbox change; the simulator does not visit its gate. -/
theorem reports_rewired {a : Area} {s : Scene} (ha : a.WellFormed)
    (ha' : { a with scene := s }.WellFormed) {i : HitBoxPtr}
    (hsource : ∀ box, box ≠ i → s.source box = a.scene.source box) (hi : ¬ a.Visited i.owner) :
    ∀ id v, a.simMap.Reports id v → { a with scene := s }.simMap.Reports id v := by
  refine reports_edited ha ha' (fun _ _ hg _ => hg) fun id g hg hid => ⟨hg, fun slot => ?_⟩
  have hne : (⟨g.ptr, slot⟩ : HitBoxPtr) ≠ i := by
    rintro rfl
    exact hi ⟨id, g, hg, rfl, hid⟩
  simp only [slotId, hsource _ hne]

theorem reports_released {a : Area} (ha : a.Sound) {this : HitBoxPtr} {s : Scene}
    (h : a.scene.released this = .ok s)
    (hi : ∀ i o, Scene.Connecting this i o a.scene → ¬ a.Visited i.owner) :
    ∀ id v, a.simMap.Reports id v → { a with scene := s }.simMap.Reports id v := by
  have hw : { a with scene := s }.WellFormed :=
    ha.wellFormed.clicked (Scene.released_ok ha.pending h)
  rcases Scene.released_wires ha.pending h with ⟨_, hbox, hwire⟩ | ⟨i, o, hc, rfl⟩
  · refine reports_edited ha.wellFormed hw (fun _ _ hg _ => hg) fun _ g hg _ => ⟨hg, fun slot => ?_⟩
    simp only [slotId, Scene.source, hbox, hwire]
  · obtain ⟨b, hb, hbw⟩ := hc.free
    obtain ⟨_, hbo⟩ := hc.alive
    refine reports_rewired ha.wellFormed hw (fun box hne => ?_) (hi i o hc)
    show (a.scene.connect i o).source box = _
    rw [Scene.connect_source ha.wellFormed.consistent hc.input hc.output hc.owner hb hbw hbo,
      if_neg hne]

theorem reports_deleteWire {a : Area} (ha : a.WellFormed) {p : WirePtr} {w : Wire}
    (hw : a.scene.wire p = some w) (hi : ¬ a.Visited w.input.owner) :
    ∀ id v, a.simMap.Reports id v →
      { a with scene := a.scene.keep fun q => q ≠ p }.simMap.Reports id v := by
  refine reports_rewired ha (ha.keep _) (fun box hne => ?_) hi
  refine Option.ext fun q => ?_
  rw [(ha.consistent.keep _).source_eq_some, ha.consistent.source_eq_some]
  constructor
  · rintro ⟨p', w', hw', h⟩
    exact ⟨p', w', (Scene.keep_wire.mp hw').2, h⟩
  · rintro ⟨p', w', hw', rfl, h⟩
    refine ⟨p', w', Scene.keep_wire.mpr ⟨decide_eq_true ?_, hw'⟩, rfl, h⟩
    rintro rfl
    rw [hw] at hw'
    cases hw'
    exact hne rfl

/-! ## Loading -/

/-- Every `OUTPUT` entity gets an id that an earlier gate of the file has. -/
def Outputless : List Entity → List Id → List Id → Prop
  | [], _, _ => True
  | e :: l, taken, gen =>
    match e.given taken gen with
    | none => True
    | some (id, gen) =>
      if e.type = .enumSize then Outputless l taken gen
      else (e.type = .output → id ∈ taken) ∧ Outputless l (id :: taken) gen

/-- The simulator finds no `OUTPUT` gate. -/
def NoOutput (a : Area) : Prop := ∀ id g, a.getGate id = some g → g.type ≠ .output

theorem drawAll_noOutput {l : List Entity} {a c : Area} {taken : List Id} (ha : a.WellFormed)
    (hn : a.NoOutput) (ht : a.Taken taken) (hl : Outputless l taken a.gen)
    (h : l.foldlM drawEntity a = .ok c) : c.NoOutput := by
  induction l generalizing a taken with
  | nil =>
    cases h
    exact hn
  | cons e l ih =>
    obtain ⟨a', hdraw, h⟩ := Execution.bind_eq_ok h
    obtain ⟨id, gen, hgiven, h0, rfl⟩ := drawEntity_given ht hdraw
    have hw := ha.gen gen
    simp only [Outputless, hgiven] at hl
    by_cases htype : e.type = .enumSize
    · rw [if_pos htype] at h hl
      exact ih hw.skipped hn ht hl h
    · rw [if_neg htype] at h hl
      refine ih (hw.drawn htype h0) (fun v g hg => ?_) (Taken.drawn hw ht e.type id e.x e.y) hl.2 h
      rw [getGate_drawn hw, Option.or_eq_some_iff] at hg
      rcases hg with hg | ⟨hnone, hg⟩
      · exact hn v g hg
      · split at hg
        · next hv =>
          cases hg
          rw [Gate.drawn_eq]
          intro hout
          -- an earlier gate has the id, so that one is found
          obtain ⟨g, hg, hgid⟩ := (ht id).mp (hl.1 hout)
          refine getGate_ne_none hg ?_
          rw [hgid, hv]
          exact hnone
        · cases hg

theorem inStep_of_noOutput {a : Area} (h : a.Displays fun _ v => v = .unknown)
    (hn : a.simulatorFlag = true → a.NoOutput) : a.InStep := by
  unfold InStep
  split
  · next hflag =>
    refine h.mono fun id v hv => hv ▸ reports_unread (simMap_ready a) ?_
    rintro ⟨o, ho, _⟩
    obtain ⟨g, hg, ht⟩ := mem_simMap_outputs.mp ho
    exact hn hflag o g hg ht
  · exact h.neutral

/-- A scheme without wires shows nothing. -/
theorem WellFormed.bare_displays {a : Area} (ha : a.WellFormed) (hg : a.m_gates = ∅) :
    a.Displays fun _ v => v = .unknown where
  output g hmem := by
    rw [hg] at hmem
    cases hmem
  wire p w hw := by
    rw [(ha.bare hg).2] at hw
    cases hw

theorem connectPair_displays {a a' : Area} {pair : Id × Id} (ha : a.Sound)
    (hd : a.Displays fun _ v => v = .unknown) (h : a.connectPair pair = .ok a') :
    (a'.Displays fun _ v => v = .unknown) ∧ a'.simulatorFlag = a.simulatorFlag := by
  rcases connectPair_ok h with rfl | ⟨i, o, s, s', hs, hs', rfl⟩
  · exact ⟨hd, rfl⟩
  · have hd₁ := hd.released ha hs fun _ _ _ _ _ _ => rfl
    exact ⟨hd₁.released (ha.released hs) hs' fun _ _ _ _ _ _ => rfl, rfl⟩

/-- **A load** ends with a neutral display and leaves the flag as it is. -/
theorem load_inStep {fuel : Nat} {file : Option (List Element)} {reader : Element} {a a' : Area}
    (ha : a.Sound) (h : a.loadProject fuel file reader = .ok a')
    (hfile : a.simulatorFlag = true → ∀ elements, file = some elements →
      Outputless ((Decoder.start reader).entities elements) [] a.gen) : a'.InStep := by
  cases file with
  | none =>
    obtain ⟨s, hc, hw, _⟩ := ha.wellFormed.cleared
    rw [loadProject, hc] at h
    cases h
    exact inStep_of_noOutput (hw.bare_displays rfl) fun _ id g hg => by cases hg
  | some file =>
    obtain ⟨s, c, hw, _, _, hp, hdraw, hreplay⟩ := loadProject_ok ha.wellFormed h
    obtain ⟨hsound, hd⟩ : c.Sound ∧ c.Displays fun _ v => v = .unknown :=
      Execution.foldlM_invariant (I := fun b => b.Sound ∧ b.Displays fun _ v => v = .unknown)
        (fun _ _ _ _ hb h => ⟨hb.1.draw h, hb.2.draw hb.1.wellFormed h fun _ _ => rfl⟩)
        ⟨⟨hw, hp ha.pending⟩, hw.bare_displays rfl⟩ hdraw
    have hflag := (drawAll_draws hw hdraw).simulatorFlag
    obtain ⟨_, hd', hflag'⟩ := Execution.foldlM_invariant
      (I := fun b => b.Sound ∧ (b.Displays fun _ v => v = .unknown) ∧
        b.simulatorFlag = c.simulatorFlag)
      (fun _ _ _ _ hb h => ⟨hb.1.connectPair h, (connectPair_displays hb.1 hb.2.1 h).1,
        (connectPair_displays hb.1 hb.2.1 h).2.trans hb.2.2⟩) ⟨hsound, hd, rfl⟩ hreplay
    refine inStep_of_noOutput hd' fun hset => ?_
    have hn : c.NoOutput := drawAll_noOutput hw (fun id g hg => by cases hg)
      (taken_nil rfl) (hfile ?_ file rfl) hdraw
    · intro id g hg
      rw [getGate_congr (replay_gates hreplay)] at hg
      exact hn id g hg
    · rw [← hset, hflag', hflag]

/-! ## Runs -/

/-- Toggling leaves `OUTPUT` gates alone. -/
theorem toggle_of_output {g : Gate} (hg : g.Shaped) (ho : g.toggle.isOutput = true) :
    g.toggle = g := by
  have hsame : g.toggle.isOutput = g.isOutput := by
    unfold Gate.toggle
    split <;> rfl
  rw [hsame, hg.isOutput, decide_eq_true_eq] at ho
  rw [Gate.toggle, ho]

/-- What a step must not do while a simulation is shown: draw an `OUTPUT` gate,
connect or disconnect what an `OUTPUT` gate reads, or load a file with one. -/
def KeepsDisplay (act : Action) (a : Area) : Prop :=
  a.simulatorFlag = true →
    match act with
    | .draw type => type ≠ .output
    | .click hitbox => ∀ i o, Scene.Connecting hitbox i o a.scene →
        ¬ a.Visited i.owner ∧ ¬ a.Reported o.owner
    | .deleteWire wire => ∀ w, a.scene.wire wire = some w → ¬ a.Visited w.input.owner
    | .load _ file reader => ∀ elements, file = some elements →
        Outputless ((Decoder.start reader).entities elements) [] a.gen
    | _ => True

/-- An edit that keeps the flag, the display and the reports. -/
theorem InStep.edited {a a' : Area} (ha : a.WellFormed) (hi : a.InStep)
    (hflag : a'.simulatorFlag = a.simulatorFlag)
    (hcleared : (a.Displays fun _ v => v = .unknown) → a'.Displays fun _ v => v = .unknown)
    (hset : a.simulatorFlag = true → a.Displays a.simMap.Reports →
      a'.Displays a.simMap.Reports ∧
        ∀ id v, a.simMap.Reports id v → a'.simMap.Reports id v) : a'.InStep := by
  unfold InStep at hi ⊢
  rw [hflag]
  split
  · next hf =>
    rw [if_pos hf] at hi
    obtain ⟨hd, hreports⟩ := hset hf hi
    exact hd.mono hreports
  · next hf =>
    rw [if_neg hf] at hi
    exact (hcleared (hi.displays ha)).neutral

theorem draw_inStep {a a' : Area} {type : CommonGateType} {x y : Qreal} (ha : a.WellFormed)
    (hi : a.InStep) (hk : a.simulatorFlag = true → type ≠ .output)
    (h : a.draw type gNotValidGateId x y = .ok a') : a'.InStep := by
  refine hi.edited ha ?_ (fun hd => hd.draw ha h fun _ _ => rfl) fun hset hd => ?_
  · obtain ⟨_, _, _, _, _, rfl⟩ := draw_ok h
    split <;> rfl
  · exact ⟨hd.draw ha h fun ht => absurd ht (hk hset), reports_draw ha (hk hset) h⟩

theorem click_inStep {a a' : Area} {hitbox : HitBoxPtr} (ha : a.Sound) (hi : a.InStep)
    (hk : a.simulatorFlag = true → ∀ i o, Scene.Connecting hitbox i o a.scene →
      ¬ a.Visited i.owner ∧ ¬ a.Reported o.owner) (h : a.click hitbox = .ok a') : a'.InStep := by
  rw [click] at h
  split at h
  · cases h
    exact hi
  · obtain ⟨s, hs, h⟩ := Execution.bind_eq_ok h
    cases h
    refine hi.edited ha.wellFormed rfl (fun hd => hd.released ha hs fun _ _ _ _ _ _ => rfl)
      fun hset hd => ⟨hd.released ha hs fun i o hc g hg hptr => ?_,
        reports_released ha hs fun i o hc => (hk hset i o hc).1⟩
    exact reports_unread (simMap_ready a) fun hr => (hk hset i o hc).2 ⟨g, hg, hptr, hr⟩

theorem deleteWire_inStep {a a' : Area} {wire : WirePtr} (ha : a.WellFormed) (hi : a.InStep)
    (hk : a.simulatorFlag = true → ∀ w, a.scene.wire wire = some w → ¬ a.Visited w.input.owner)
    (h : a.deleteWire wire = .ok a') : a'.InStep := by
  rw [deleteWire] at h
  split at h
  · cases h
    exact hi
  · next w hw =>
    rw [Scene.deleteWire_eq ha.consistent hw] at h
    cases h
    exact hi.edited ha rfl (fun hd => hd.keep _) fun hset hd =>
      ⟨hd.keep _, reports_deleteWire ha hw (hk hset w hw)⟩

theorem deleteGate_inStep {a a' : Area} {gate : GatePtr} (ha : a.WellFormed) (hi : a.InStep)
    (h : a.deleteGate gate = .ok a') : a'.InStep := by
  rcases deleteGate_ok ha h with ⟨_, rfl⟩ | ⟨g, _, _, live, hw, h⟩
  · exact hi
  · cases hflag : a.simulatorFlag with
    | true => exact clearSimulate_inStep hw hflag h
    | false =>
      rw [clearSimulate, if_neg (by simp [hflag])] at h
      cases h
      rw [InStep, if_neg (by simp [hflag])] at hi ⊢
      exact ⟨fun g hg => hi.output g (KeySet.mem_erase.mp hg).1,
        fun p w hwire => hi.wire p w (Scene.keep_wire.mp hwire).2⟩

theorem changeTypeInput_inStep {a a' : Area} {gate : GatePtr} (ha : a.WellFormed) (hi : a.InStep)
    (h : a.changeTypeInput gate = .ok a') : a'.InStep := by
  have hw := ha.modify gate Gate.toggle_ptr Gate.toggle_shaped
  rw [changeTypeInput] at h
  split at h
  · cases h
    exact hi
  · simp only at h
    cases hflag : a.simulatorFlag with
    | true =>
      rw [hflag, if_pos rfl] at h
      exact simulate_inStep hw h
    | false =>
      rw [hflag, if_neg (by simp)] at h
      cases h
      rw [InStep, if_neg (by simp [hflag])] at hi ⊢
      refine ⟨fun g hg ho => ?_, hi.wire⟩
      simp only [KeySet.mem_modify] at hg
      obtain ⟨g₀, hg₀, rfl⟩ := hg
      split at ho
      · next hptr =>
        rw [if_pos hptr, toggle_of_output (ha.shaped g₀ hg₀) ho]
        exact hi.output g₀ hg₀ (toggle_of_output (ha.shaped g₀ hg₀) ho ▸ ho)
      · next hptr =>
        rw [if_neg hptr]
        exact hi.output g₀ hg₀ ho

theorem step_inStep {act : Action} {a a' : Area} (ha : a.Sound) (hi : a.InStep)
    (hk : KeepsDisplay act a) (h : step act a = .ok a') : a'.InStep := by
  cases act with
  | draw type =>
    exact draw_inStep ha.wellFormed hi hk
      (show a.draw type gNotValidGateId 0 0 = .ok a' from h)
  | click hitbox => exact click_inStep ha hi hk h
  | deleteWire wire => exact deleteWire_inStep ha.wellFormed hi hk h
  | deleteGate gate => exact deleteGate_inStep ha.wellFormed hi h
  | changeTypeInput gate => exact changeTypeInput_inStep ha.wellFormed hi h
  | simulate => exact simulate_inStep ha.wellFormed h
  | clearSimulate =>
    cases hflag : a.simulatorFlag with
    | true => exact clearSimulate_inStep ha.wellFormed hflag h
    | false =>
      rw [step, clearSimulate, if_neg (by simp [hflag])] at h
      cases h
      exact hi
  | load fuel file reader => exact load_inStep ha h hk

theorem create_inStep {gen : List Id} {a : Area} (h : create gen = .ok a) : a.InStep := by
  have hstart : (start gen).InStep := ⟨by rintro g ⟨⟩, by rintro p w ⟨⟩⟩
  exact draw_inStep (start_sound gen).wellFormed hstart (by rintro ⟨⟩) h

end Area

end SimGate

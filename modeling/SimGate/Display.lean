import SimGate.Loading
import SimGate.Replaying
import SimGate.Unread

/-!
# Pictures and colours

`simulate` and `clearSimulate` run the same loop over the gates: the picture of an
`OUTPUT` gate and the colours of the wires at an output are set from a value for
the id of the gate (`paintAll_displays`).

* `simulate_inStep`: after `simulate` the display is what a fresh simulator reports;
* `clearSimulate_inStep`: after `clearSimulate` it shows nothing.
-/

namespace SimGate

open Demand

/-! ## One gate -/

namespace Scene

/-- Colour the wires that come from a gate. -/
def colored (gate : GatePtr) (color : WireColor) (s : Scene) : Scene :=
  { s with wire := fun p => (s.wire p).map fun w =>
      if w.output.owner = gate then { w with color := color } else w }

theorem colored_redrawn (gate : GatePtr) (color : WireColor) (s : Scene) :
    s.Redrawn (s.colored gate color) := by
  refine ⟨rfl, fun p i o => ?_, rfl, rfl, rfl⟩
  simp only [colored, Option.map_eq_some_iff]
  constructor
  · rintro ⟨c, w, hw, he⟩
    split at he
    · cases he
      exact ⟨w.color, hw⟩
    · exact ⟨c, he ▸ hw⟩
  · rintro ⟨c, hw⟩
    exact ⟨if o.owner = gate then color else c, _, hw, by split <;> rfl⟩

theorem foldlM_setColor_wire {color : WireColor} {l : List WirePtr} {s s' : Scene}
    (h : l.foldlM (setColor color) s = .ok s') (p : WirePtr) :
    s'.wire p = (s.wire p).map fun w => if p ∈ l then { w with color := color } else w := by
  induction l generalizing s with
  | nil =>
    cases h
    simp
  | cons q l ih =>
    obtain ⟨t, ht, h⟩ := Execution.bind_eq_ok h
    obtain ⟨v, hv, ht⟩ := Execution.bind_eq_ok ht
    cases ht
    have hq := derefWire_ok hv
    rw [ih h]
    by_cases hp : p = q
    · simp [hp, hq]
    · simp [hp]

/-- The wires of an output hitbox are the wires that come from its gate. -/
theorem Consistent.colored {s s' : Scene} (hs : s.Consistent) {gate : GatePtr} {h : GateHitBox}
    (hb : s.hitbox ⟨gate, .output⟩ = some h) {color : WireColor}
    (hset : h.outputWires.foldlM (setColor color) s = .ok s') : s' = s.colored gate color := by
  have hredrawn := foldlM_setColor hset
  have hwire : s'.wire = (s.colored gate color).wire := by
    funext p
    rw [foldlM_setColor_wire hset, Scene.colored]
    refine Option.map_congr fun w hw => ?_
    have hiff : p ∈ h.outputWires ↔ w.output.owner = gate := by
      constructor
      · intro hp
        obtain ⟨v, hv, he⟩ := hs.ofOutputs _ h p hb hp
        rw [hw] at hv
        cases hv
        rw [he]
      · rintro rfl
        have htype : w.output.type = .output := by
          simpa [HitBoxPtr.isInput] using (hs.ends p w hw).2.1
        have hbo : s.hitbox w.output = some h := by rw [← hb, ← htype]
        exact hs.mem_of_output hw hbo
    simp only [hiff]
  cases s'
  cases hredrawn.hitbox
  cases hredrawn.nextWire
  cases hredrawn.input
  cases hredrawn.output
  cases hwire
  rfl

end Scene

namespace Area

/-- Show a value at a gate. -/
def paint (it : Gate) (value : CommonValueOutput) (a : Area) : Area :=
  { (if it.isOutput then a.setPixmap it.ptr (valuePixmap value) else a) with
    scene := a.scene.colored it.ptr (valueColor value) }

theorem mem_setPixmap {a : Area} {gate : GatePtr} {pixmap : CommonGateType} {g : Gate} :
    g ∈ (a.setPixmap gate pixmap).m_gates.elems ↔ ∃ g₀ ∈ a.m_gates.elems,
      (if g₀.ptr = gate then { g₀ with pixmap := pixmap } else g₀) = g := by
  simp only [setPixmap, KeySet.mem_modify]

theorem mem_paint {a : Area} {it g : Gate} {value : CommonValueOutput} :
    g ∈ (a.paint it value).m_gates.elems ↔ ∃ g₀ ∈ a.m_gates.elems,
      (if it.isOutput ∧ g₀.ptr = it.ptr then { g₀ with pixmap := valuePixmap value } else g₀) =
        g := by
  unfold paint
  cases it.isOutput with
  | true => simp [mem_setPixmap]
  | false => simp

theorem DisplayFree.paint {P : Area → Prop} (hP : DisplayFree P) {a : Area} (ha : P a) (it : Gate)
    (value : CommonValueOutput) : P (a.paint it value) := by
  unfold Area.paint
  split
  · exact hP.scene _ _ (Scene.colored_redrawn ..) (hP.pixmap a _ _ ha)
  · exact hP.scene _ _ (Scene.colored_redrawn ..) ha

@[simp] theorem paint_simulatorFlag (a : Area) (it : Gate) (value : CommonValueOutput) :
    (a.paint it value).simulatorFlag = a.simulatorFlag := by
  unfold paint
  split <;> rfl

/-- The turn for `it` finds the gate that `it` was read from, except for its picture. -/
def Current (a : Area) (it : Gate) : Prop :=
  it.Shaped ∧ ∀ g ∈ a.m_gates.elems, g.ptr = it.ptr → g.id = it.id ∧ g.isOutput = it.isOutput

/-- An `OUTPUT` gate has no output. -/
theorem WellFormed.colored_output {a : Area} (ha : a.WellFormed) {it : Gate} (hit : a.Current it)
    (ho : it.isOutput = true) (color : WireColor) : a.scene.colored it.ptr color = a.scene := by
  have hnone : ∀ p w, a.scene.wire p = some w → w.output.owner ≠ it.ptr := by
    intro p w hw howner
    obtain ⟨_, b, hb, _⟩ := ha.consistent.registered p w hw
    obtain ⟨g, hg, hbox⟩ := (ha.alive w.output).mp ⟨b, hb⟩
    obtain ⟨hptr, htype⟩ := (ha.shaped g hg).mem_hitboxes.mp hbox
    have hout : g.isOutput = true := by
      rw [(hit.2 g hg (hptr.symm.trans howner)).2, ho]
    rw [(ha.shaped g hg).isOutput, decide_eq_true_eq] at hout
    rw [hout] at htype
    have hin := (ha.consistent.ends p w hw).2.1
    rw [HitBoxPtr.isInput, List.mem_singleton.mp htype] at hin
    cases hin
  have hwire : (a.scene.colored it.ptr color).wire = a.scene.wire := by
    funext p
    cases hw : a.scene.wire p with
    | none => simp [Scene.colored, hw]
    | some w => simp [Scene.colored, hw, hnone p w hw]
  show { a.scene with wire := (a.scene.colored it.ptr color).wire } = a.scene
  rw [hwire]

theorem showGate_ok (sim : Simulator) {a a' : Area} {it : Gate} (ha : a.WellFormed)
    (hit : a.Current it) (h : showGate sim a it = .ok a') :
    a' = a.paint it (sim.getValue it.id) := by
  simp only [showGate] at h
  unfold paint
  split at h
  · next ho =>
    cases h
    rw [if_pos ho, ha.colored_output hit ho]
    rfl
  · next ho =>
    rw [if_neg ho]
    have htype : it.type ≠ .output := fun ht => ho (by rw [hit.1.isOutput, ht]; rfl)
    have hbox : HitBoxType.output ∈ hitBoxTypes it.type := by
      have := hit.1.type
      cases ht : it.type <;> simp_all [hitBoxTypes]
    rw [hit.1.getHitBox_eq, if_pos hbox] at h
    obtain ⟨b, hb, h⟩ := Execution.bind_eq_ok h
    obtain ⟨s, hs, h⟩ := Execution.bind_eq_ok h
    cases h
    rw [ha.consistent.colored (Scene.deref_ok hb) hs]

theorem clearGate_ok {a a' : Area} {it : Gate} (ha : a.WellFormed) (hit : a.Current it)
    (h : a.clearGate it = .ok a') : a' = a.paint it .unknown := by
  simp only [clearGate] at h
  unfold paint
  cases ho : it.isOutput with
  | true =>
    have htype : it.type = .output := by simpa [hit.1.isOutput] using ho
    rw [hit.1.getHitBox_eq, htype, if_neg (by decide), ho] at h
    cases h
    rw [ha.colored_output hit ho]
    rfl
  | false =>
    have htype : it.type ≠ .output := by simpa [hit.1.isOutput] using ho
    have hbox : HitBoxType.output ∈ hitBoxTypes it.type := by
      have := hit.1.type
      cases ht : it.type <;> simp_all [hitBoxTypes]
    rw [hit.1.getHitBox_eq, if_pos hbox, ho] at h
    obtain ⟨b, hb, h⟩ := Execution.bind_eq_ok h
    obtain ⟨s, hs, h⟩ := Execution.bind_eq_ok h
    cases h
    simp only [Bool.false_eq_true, if_false] at hb hs ⊢
    rw [ha.consistent.colored (Scene.deref_ok hb) hs]
    rfl

/-! ## What is shown -/

/-- Every `OUTPUT` gate has the picture and every wire the colour of a value that
`level` gives to the gate, for a wire the gate it comes from. -/
structure Displays (level : Id → CommonValueOutput → Prop) (a : Area) : Prop where
  output : ∀ g ∈ a.m_gates.elems, g.isOutput = true →
    ∃ v, level g.id v ∧ g.pixmap = valuePixmap v
  wire : ∀ p w, a.scene.wire p = some w → ∃ g ∈ a.m_gates.elems, g.ptr = w.output.owner ∧
    ∃ v, level g.id v ∧ w.color = valueColor v

theorem Displays.mono {level level' : Id → CommonValueOutput → Prop} {a : Area}
    (h : a.Displays level) (hlevel : ∀ id v, level id v → level' id v) : a.Displays level' where
  output g hg ho := by
    obtain ⟨v, hv, hp⟩ := h.output g hg ho
    exact ⟨v, hlevel _ _ hv, hp⟩
  wire p w hw := by
    obtain ⟨g, hg, hptr, v, hv, hc⟩ := h.wire p w hw
    exact ⟨g, hg, hptr, v, hlevel _ _ hv, hc⟩

/-- The wires come from gates of the scheme. -/
theorem WellFormed.wire_owner {a : Area} (ha : a.WellFormed) {p : WirePtr} {w : Wire}
    (hw : a.scene.wire p = some w) : ∃ g ∈ a.m_gates.elems, g.ptr = w.output.owner := by
  obtain ⟨_, b, hb, _⟩ := ha.consistent.registered p w hw
  obtain ⟨g, hg, hbox⟩ := (ha.alive w.output).mp ⟨b, hb⟩
  exact ⟨g, hg, ((ha.shaped g hg).mem_hitboxes.mp hbox).1.symm⟩

/-! ## The loop -/

/-- The gates of `b`, except for their pictures. -/
def GatesOf (b a : Area) : Prop :=
  ∀ g ∈ a.m_gates.elems, ∃ g₀ ∈ b.m_gates.elems, g = { g₀ with pixmap := g.pixmap }

theorem displayFree_gatesOf (b : Area) : DisplayFree (GatesOf b) where
  pixmap a gate pixmap h g hg := by
    obtain ⟨g₁, hg₁, rfl⟩ := mem_setPixmap.mp hg
    obtain ⟨g₀, hg₀, he⟩ := h g₁ hg₁
    refine ⟨g₀, hg₀, ?_⟩
    split <;> rw [he]
  scene _ _ _ h := h
  flag _ _ h := h

theorem GatesOf.current {a b : Area} (hb : b.WellFormed) (h : GatesOf b a) {it : Gate}
    (hit : it ∈ b.m_gates.elems) : a.Current it := by
  refine ⟨hb.shaped it hit, fun g hg hptr => ?_⟩
  obtain ⟨g₀, hg₀, he⟩ := h g hg
  rw [he] at hptr
  have hsame : g₀ = it := KeySet.eq_of_key hg₀ hit hptr
  rw [he, hsame]
  exact ⟨rfl, rfl⟩

/-- The value of `it` is shown. -/
def ShownAt (value : Id → CommonValueOutput) (it : Gate) (a : Area) : Prop :=
  (∀ g ∈ a.m_gates.elems, g.ptr = it.ptr → g.isOutput = true →
    g.pixmap = valuePixmap (value it.id)) ∧
  ∀ p w, a.scene.wire p = some w → w.output.owner = it.ptr → w.color = valueColor (value it.id)

theorem paint_shows (value : Id → CommonValueOutput) {a : Area} {it : Gate} (hit : a.Current it) :
    (a.paint it (value it.id)).ShownAt value it := by
  refine ⟨fun g hg hptr ho => ?_, fun p w hw howner => ?_⟩
  · obtain ⟨g₀, hg₀, rfl⟩ := mem_paint.mp hg
    by_cases hif : it.isOutput ∧ g₀.ptr = it.ptr
    · rw [if_pos hif]
    · rw [if_neg hif] at hptr ho
      exact absurd ⟨((hit.2 g₀ hg₀ hptr).2.symm.trans ho), hptr⟩ hif
  · obtain ⟨w₀, _, rfl⟩ := Option.map_eq_some_iff.mp hw
    split at howner
    · next h => rw [if_pos h]
    · next h => exact absurd howner h

/-- Another turn shows the same at the same gate. -/
theorem ShownAt.paint {value : Id → CommonValueOutput} {a : Area} {it b : Gate}
    (h : a.ShownAt value it) (hsame : b.ptr = it.ptr → b.id = it.id) :
    (a.paint b (value b.id)).ShownAt value it := by
  refine ⟨fun g hg hptr ho => ?_, fun p w hw howner => ?_⟩
  · obtain ⟨g₀, hg₀, rfl⟩ := mem_paint.mp hg
    by_cases hif : b.isOutput ∧ g₀.ptr = b.ptr
    · rw [if_pos hif] at hptr ⊢
      rw [hsame (hif.2.symm.trans hptr)]
    · rw [if_neg hif] at hptr ho ⊢
      exact h.1 g₀ hg₀ hptr ho
  · obtain ⟨w₀, hw₀, rfl⟩ := Option.map_eq_some_iff.mp hw
    by_cases hb : w₀.output.owner = b.ptr
    · rw [if_pos hb] at howner ⊢
      rw [hsame (hb.symm.trans howner)]
    · rw [if_neg hb] at howner ⊢
      exact h.2 p w₀ hw₀ howner

/-- **The loop** over the gates shows the value of each. -/
theorem paintAll_displays {turn : Area → Gate → Except Fault Area} (value : Id → CommonValueOutput)
    (hturn : ∀ {a a' it}, a.WellFormed → a.Current it → turn a it = .ok a' →
      a' = a.paint it (value it.id)) {a a' : Area} (ha : a.WellFormed)
    (h : a.m_gates.elems.foldlM turn a = .ok a') :
    a'.Displays (fun id v => v = value id) ∧ a'.simulatorFlag = a.simulatorFlag := by
  let I := fun b : Area => b.WellFormed ∧ GatesOf a b ∧ b.simulatorFlag = a.simulatorFlag
  have hpaint : ∀ it ∈ a.m_gates.elems, ∀ b b', I b → turn b it = .ok b' →
      b' = b.paint it (value it.id) :=
    fun it hit b b' hb h => hturn hb.1 (hb.2.1.current ha hit) h
  have hI : ∀ it ∈ a.m_gates.elems, ∀ b b', I b → turn b it = .ok b' → I b' := by
    intro it hit b b' hb h
    rw [hpaint it hit b b' hb h]
    exact ⟨displayFree_wellFormed.paint hb.1 it _, (displayFree_gatesOf a).paint hb.2.1 it _,
      (paint_simulatorFlag ..).trans hb.2.2⟩
  have hstart : I a := ⟨ha, fun g hg => ⟨g, hg, rfl⟩, rfl⟩
  have hend : I a' := Execution.foldlM_invariant hI hstart h
  have hshows : ∀ it ∈ a.m_gates.elems, a'.ShownAt value it := by
    refine Execution.foldlM_establishes hI (fun it hit b b' hb h => ?_)
      (fun it hit it' hit' b b' hb hs h => ?_) hstart h
    · rw [hpaint it hit b b' hb h]
      exact paint_shows value (hb.2.1.current ha hit)
    · rw [hpaint it' hit' b b' hb h]
      exact hs.paint fun he => by rw [KeySet.eq_of_key hit' hit he]
  obtain ⟨hw, hgates, hflag⟩ := hend
  refine ⟨⟨fun g hg ho => ?_, fun p w hwire => ?_⟩, hflag⟩
  · obtain ⟨g₀, hg₀, he⟩ := hgates g hg
    refine ⟨value g.id, rfl, ?_⟩
    rw [(hshows g₀ hg₀).1 g hg (by rw [he]) ho, he]
  · obtain ⟨g, hg, hptr⟩ := hw.wire_owner hwire
    obtain ⟨g₀, hg₀, he⟩ := hgates g hg
    refine ⟨g, hg, hptr, value g.id, rfl, ?_⟩
    rw [(hshows g₀ hg₀).2 p w hwire (by rw [← hptr, he]), he]

/-! ## The map of a scheme -/

/-- The current gates and wires; an input without a wire reads no gate. -/
def simMap (a : Area) : SimMap := KeySet.ofList (a.m_gates.elems.map a.entry)

/-- That is what the simulator gets, unless reading the scheme fails. -/
theorem createSimMap_ok {a : Area} (ha : a.WellFormed) {map : SimMap}
    (h : a.createSimMap = .ok map) : map = a.simMap := by
  rw [ha.createSimMap_eq (ha.secondsConnected_of_map h)] at h
  cases h
  rfl

theorem find_simMap (a : Area) (id : Id) : a.simMap.find? id = (a.getGate id).map a.entry := by
  rw [simMap, KeySet.find?_ofList, List.find?_map, getGate]
  congr 2
  funext g
  simp [Entry.id, entry]

theorem simMap_ready (a : Area) : a.simMap.Ready := by
  refine SimMap.Fresh.ready fun it hit => ?_
  obtain ⟨g, _, rfl⟩ := List.mem_map.mp (KeySet.mem_of_mem_ofList hit)
  rw [CommonData.defaultValue_eq]
  simp [entry]

theorem entry_congr {a b : Area} {g g' : Gate} (htype : g'.type = g.type) (hid : g'.id = g.id)
    (hslot : ∀ slot, b.slotId g' slot = a.slotId g slot) : b.entry g' = a.entry g := by
  rw [entry, entry, htype, hid, hslot, hslot]

theorem displayFree_simMap (map : SimMap) : DisplayFree fun a => a.simMap = map where
  pixmap a gate pixmap h := by
    rw [← h]
    refine KeySet.ext_find fun id => ?_
    let f := fun g : Gate => if g.ptr = gate then { g with pixmap := pixmap } else g
    have hf : ∀ g, (f g).ptr = g.ptr ∧ (f g).type = g.type ∧ (f g).id = g.id := by
      intro g
      simp only [f]
      split <;> exact ⟨rfl, rfl, rfl⟩
    have hget : (a.setPixmap gate pixmap).getGate id = (a.getGate id).map f := by
      simp only [getGate, setPixmap, KeySet.modify, KeySet.map, List.find?_map]
      congr 2
      funext g
      exact congrArg (fun i => decide (i = id)) (hf g).2.2
    rw [find_simMap, find_simMap, hget, Option.map_map]
    refine Option.map_congr fun g _ => entry_congr (hf g).2.1 (hf g).2.2 fun slot => ?_
    simp only [slotId, (hf g).1, setPixmap, KeySet.find?_modify]
    cases a.scene.source ⟨g.ptr, slot⟩ with
    | none => rfl
    | some q =>
      simp only
      split <;> cases a.m_gates.find? q <;> rfl
  scene a s hs h := by
    rw [← h]
    have hsource : s.source = a.scene.source := by
      funext box
      simp only [Scene.source, hs.hitbox]
      refine Option.bind_congr fun b _ => Option.bind_congr fun p _ => ?_
      cases hw : s.wire p with
      | some w =>
        obtain ⟨w₀, hw₀, _, ho⟩ := hs.wire_of hw
        simp [hw₀, ho]
      | none =>
        have hn : a.scene.wire p = none := Option.eq_none_iff_forall_ne_some.mpr fun w hw' => by
          obtain ⟨_, h', _⟩ := hs.symm.wire_of hw'
          rw [hw] at h'
          cases h'
        simp [hn]
    refine KeySet.ext_find fun id => ?_
    rw [find_simMap, find_simMap]
    refine Option.map_congr fun g _ => entry_congr rfl rfl fun slot => ?_
    simp only [slotId, hsource]
  flag _ _ h := h

/-! ## The display -/

/-- Every `OUTPUT` gate shows the neutral state and every wire is black. -/
structure Neutral (a : Area) : Prop where
  output : ∀ g ∈ a.m_gates.elems, g.isOutput = true → g.pixmap = .output
  wire : ∀ p w, a.scene.wire p = some w → w.color = .black

/-- **The display is in step with the scheme.**  With the flag set it shows what a
fresh simulator reports for the current gates and wires. -/
def InStep (a : Area) : Prop :=
  if a.simulatorFlag then a.Displays a.simMap.Reports else a.Neutral

theorem Displays.neutral {a : Area} (h : a.Displays fun _ v => v = .unknown) : a.Neutral where
  output g hg ho := by
    obtain ⟨v, rfl, hp⟩ := h.output g hg ho
    exact hp
  wire p w hw := by
    obtain ⟨_, _, _, v, rfl, hc⟩ := h.wire p w hw
    exact hc

theorem Neutral.displays {a : Area} (ha : a.WellFormed) (h : a.Neutral) :
    a.Displays fun _ v => v = .unknown where
  output g hg ho := ⟨.unknown, rfl, h.output g hg ho⟩
  wire p w hw := by
    obtain ⟨g, hg, hptr⟩ := ha.wire_owner hw
    exact ⟨g, hg, hptr, .unknown, rfl, h.wire p w hw⟩

theorem simulate_inStep {a a' : Area} (ha : a.WellFormed) (h : a.simulate = .ok a') :
    a'.InStep := by
  have hmap := (displayFree_simMap a.simMap).simulate (a := a) rfl h
  obtain ⟨map, hm, h⟩ := Execution.bind_eq_ok h
  cases createSimMap_ok ha hm
  split at h
  · cases h
  · next s hrun =>
    obtain ⟨hd, hflag⟩ :=
      paintAll_displays s.sim.getValue (showGate_ok s.sim) (displayFree_wellFormed.flag a true ha) h
    rw [InStep, if_pos hflag, hmap]
    exact hd.mono fun id v hv => hv ▸ reports_of_run hrun id

theorem clearSimulate_inStep {a a' : Area} (ha : a.WellFormed) (hflag : a.simulatorFlag = true)
    (h : a.clearSimulate = .ok a') : a'.InStep := by
  rw [clearSimulate, if_pos hflag] at h
  obtain ⟨hd, hflag'⟩ := paintAll_displays (fun _ => .unknown) clearGate_ok
    (displayFree_wellFormed.flag a false ha) h
  rw [InStep, if_neg (by simp [hflag'])]
  exact hd.neutral

end Area

end SimGate

import SimGate.CircuitRefinement
import SimGate.DisplayRuns

/-!
# The screen

The user sees a picture at every gate and a colour on every wire.  As long as the display
is kept in step, both are a matter of the circuit, however it was built.

* `screen_of_circuit`: two runs that lead to one circuit lead to one screen;
* `display_restored`: simulating, clearing and toggling leave no trace.
-/

namespace SimGate

open Execution

/-! ## Colours -/

namespace Scene

/-- The colour of the wire that ends at a hitbox. -/
def colorAt (s : Scene) (box : HitBoxPtr) : Option WireColor := do
  let b ← s.hitbox box
  let p ← b.wire
  let w ← s.wire p
  some w.color

variable {s s' : Scene}

theorem Consistent.colorAt_eq_some (hs : s.Consistent) {box : HitBoxPtr} {c : WireColor} :
    s.colorAt box = some c ↔ ∃ p w, s.wire p = some w ∧ w.input = box ∧ w.color = c := by
  constructor
  · intro h
    simp only [colorAt, Option.bind_eq_bind, Option.bind_eq_some_iff, Option.some.injEq] at h
    obtain ⟨b, hb, p, hp, w, hw, rfl⟩ := h
    obtain ⟨w', hw', he⟩ := hs.ofWire box b p hb hp
    rw [hw] at hw'
    cases hw'
    exact ⟨p, w, hw, he, rfl⟩
  · rintro ⟨p, w, hw, rfl, rfl⟩
    obtain ⟨⟨b, hb, hp⟩, _⟩ := hs.registered p w hw
    simp [colorAt, hb, hp, hw]

theorem Consistent.colorAt_wire (hs : s.Consistent) {p : WirePtr} {w : Wire}
    (hw : s.wire p = some w) : s.colorAt w.input = some w.color :=
  hs.colorAt_eq_some.mpr ⟨p, w, hw, rfl, rfl⟩

/-- Two colourings of a scene are one if they look the same. -/
theorem Redrawn.eq_of_colorAt (h : s.Redrawn s') (hs : s.Consistent)
    (hcolor : s'.colorAt = s.colorAt) : s' = s := by
  have hs' := hs.redrawn h
  have hsub : ∀ p w, s.wire p = some w → s'.wire p = some w := by
    intro p w hw
    obtain ⟨w', hw', hin, hout⟩ := h.symm.wire_of hw
    have hc := hs'.colorAt_wire hw'
    rw [hin, hcolor, hs.colorAt_wire hw] at hc
    rw [hw']
    obtain ⟨i, o, c⟩ := w
    obtain ⟨i', o', c'⟩ := w'
    cases hin
    cases hout
    cases Option.some.inj hc
    rfl
  have hwire : s'.wire = s.wire := by
    funext p
    cases hw : s.wire p with
    | some w => exact hsub p w hw
    | none =>
      refine Option.eq_none_iff_forall_ne_some.mpr fun w' hw' => ?_
      obtain ⟨w, hw₀, _⟩ := h.wire_of hw'
      rw [hw] at hw₀
      cases hw₀
  cases s
  cases s'
  cases h.hitbox
  cases h.nextWire
  cases h.input
  cases h.output
  cases hwire
  rfl

end Scene

/-- Simulating, clearing and toggling. -/
def Action.shows : Action → Bool
  | .changeTypeInput _ | .simulate | .clearSimulate => true
  | _ => false

namespace Area

variable {a b : Area}

/-! ## Pictures -/

/-- Every gate but an `OUTPUT` has the picture of its type. -/
def Pictured (a : Area) : Prop := ∀ g ∈ a.m_gates.elems, g.isOutput = false → g.pixmap = g.type

theorem Pictured.paint (h : a.Pictured) {it : Gate} (hit : a.Current it)
    (value : CommonValueOutput) : (a.paint it value).Pictured := by
  intro g hg ho
  obtain ⟨g₀, hg₀, rfl⟩ := mem_paint.mp hg
  split at ho
  · next hif =>
    rw [(hit.2 g₀ hg₀ hif.2).2, hif.1] at ho
    cases ho
  · next hif =>
    rw [if_neg hif]
    exact h g₀ hg₀ ho

theorem paintAll_pictured {turn : Area → Gate → Except Fault Area} (value : Id → CommonValueOutput)
    (hturn : ∀ {a a' it}, a.WellFormed → a.Current it → turn a it = .ok a' →
      a' = a.paint it (value it.id)) (ha : a.WellFormed) (hp : a.Pictured)
    (h : a.m_gates.elems.foldlM turn a = .ok b) : b.Pictured := by
  refine (foldlM_invariant (I := fun c => c.WellFormed ∧ GatesOf a c ∧ c.Pictured) ?_
    ⟨ha, fun g hg => ⟨g, hg, rfl⟩, hp⟩ h).2.2
  rintro it hit c c' ⟨hc, hgates, hp⟩ h
  have hcur := hgates.current ha hit
  rw [hturn hc hcur h]
  exact ⟨displayFree_wellFormed.paint hc it _, (displayFree_gatesOf a).paint hgates it _,
    hp.paint hcur _⟩

theorem Pictured.simulate (ha : a.WellFormed) (hp : a.Pictured) (h : a.simulate = .ok b) :
    b.Pictured := by
  obtain ⟨map, _, h⟩ := bind_eq_ok h
  split at h
  · cases h
  · next s _ =>
    exact paintAll_pictured s.sim.getValue (showGate_ok s.sim)
      (displayFree_wellFormed.flag a true ha) hp h

theorem Pictured.clearSimulate (ha : a.WellFormed) (hp : a.Pictured)
    (h : a.clearSimulate = .ok b) : b.Pictured := by
  rw [Area.clearSimulate] at h
  split at h
  · exact paintAll_pictured (fun _ => .unknown) clearGate_ok
      (displayFree_wellFormed.flag a false ha) hp h
  · cases h
    exact hp

theorem Pictured.draw (hp : a.Pictured) {type : CommonGateType} {id : Id} {x y : Qreal}
    (h : a.draw type id x y = .ok b) : b.Pictured := by
  obtain ⟨tmpId, gen, _, _, _, rfl⟩ := draw_ok h
  split
  · exact hp
  · intro g hg ho
    rcases KeySet.mem_insert.mp hg with hg | ⟨rfl, _⟩
    · exact hp g hg ho
    · rw [Gate.drawn_eq]
      rfl

theorem Pictured.toggled (hp : a.Pictured) (gate : GatePtr) :
    { a with m_gates := a.m_gates.modify gate Gate.toggle Gate.toggle_ptr }.Pictured := by
  intro g hg ho
  simp only [KeySet.mem_modify] at hg
  obtain ⟨g₀, hg₀, rfl⟩ := hg
  split at ho
  · next hif =>
    rw [if_pos hif]
    unfold Gate.toggle at ho ⊢
    split at ho
    · rfl
    · rfl
    · exact hp g₀ hg₀ ho
  · next hif =>
    rw [if_neg hif]
    exact hp g₀ hg₀ ho

theorem step_pictured {act : Action} (ha : a.Sound) (hp : a.Pictured) (h : step act a = .ok b) :
    b.Pictured := by
  cases act with
  | draw type => exact hp.draw (show a.draw type gNotValidGateId 0 0 = .ok b from h)
  | click hitbox =>
    rcases click_ok ha.pending h with rfl | ⟨s, _, rfl⟩
    · exact hp
    · exact hp
  | deleteWire wire =>
    obtain ⟨live, rfl⟩ := deleteWire_ok ha.wellFormed.consistent h
    exact hp
  | deleteGate gate =>
    rcases deleteGate_ok ha.wellFormed h with ⟨_, rfl⟩ | ⟨_, _, _, live, hw, h⟩
    · exact hp
    · exact Pictured.clearSimulate hw (fun g hg => hp g (KeySet.mem_erase.mp hg).1) h
  | changeTypeInput gate =>
    rcases changeTypeInput_ok h with rfl | rfl | h
    · exact hp
    · exact hp.toggled gate
    · exact (hp.toggled gate).simulate
        (ha.wellFormed.modify gate Gate.toggle_ptr Gate.toggle_shaped) h
  | simulate => exact hp.simulate ha.wellFormed h
  | clearSimulate => exact hp.clearSimulate ha.wellFormed h
  | load fuel file reader =>
    obtain ⟨c, hc, h⟩ := bind_eq_ok h
    have hcleared : c.Pictured := by
      obtain ⟨s, _, hc⟩ := bind_eq_ok hc
      cases hc
      rintro g ⟨⟩
    split at h
    · cases h
      exact hcleared
    · obtain ⟨⟨d, c'⟩, hd, h⟩ := bind_eq_ok h
      have hdrawn : c'.Pictured :=
        foldlM_invariant (fun _ _ _ _ hi h => Pictured.draw hi h) hcleared (decodeLoop_ok hd).1
      intro g hg
      exact hdrawn g (replay_gates h ▸ hg)

/-! ## One circuit, one screen -/

/-- The gates are seen with the same pictures, and the connections with the same colours. -/
structure SameScreen (a b : Area) : Prop where
  gates : a.m_gates.elems.map (fun g => (g.part, g.pixmap)) =
    b.m_gates.elems.map fun g => (g.part, g.pixmap)
  wires : a.scene.colorAt = b.scene.colorAt

theorem simMap_congr (hparts : a.circuit.parts = b.circuit.parts)
    (hsource : a.circuit.source = b.circuit.source) : a.simMap = b.simMap := by
  have hmap : ∀ c : Area, c.simMap = KeySet.ofList (c.circuit.parts.map c.circuit.entry) := by
    intro c
    rw [simMap, circuit, List.map_map]
    refine congrArg KeySet.ofList (List.map_congr_left fun g _ => ?_)
    show c.entry g = c.circuit.entry g.part
    rw [entry, Circuit.entry, slotId_part, slotId_part]
    rfl
  have hentry : a.circuit.entry = b.circuit.entry := by
    funext p
    simp only [Circuit.entry, Circuit.slotId, hparts, hsource]
  rw [hmap, hmap, hparts, hentry]

/-- The value that is shown at a gate. -/
def Level (a : Area) (id : Id) (v : CommonValueOutput) : Prop :=
  if a.simulatorFlag then a.simMap.Reports id v else v = .unknown

theorem InStep.displays (ha : a.WellFormed) (hi : a.InStep) : a.Displays a.Level := by
  unfold InStep at hi
  split at hi
  · next hflag => exact hi.mono fun id v hv => by rwa [Level, if_pos hflag]
  · next hflag => exact (hi.displays ha).mono fun id v hv => by rwa [Level, if_neg hflag]

theorem Level.unique {id : Id} {v w : CommonValueOutput} (hv : a.Level id v) (hw : a.Level id w) :
    v = w := by
  unfold Level at hv hw
  split at hv
  · next hflag => exact reports_unique hv (by rwa [if_pos hflag] at hw)
  · next hflag => exact hv.trans (by rw [if_neg hflag] at hw; exact hw.symm)

/-- What is known of an area of a run whose display is in step. -/
structure Shown (a : Area) : Prop where
  sound : a.Sound
  inStep : a.InStep
  pictured : a.Pictured

theorem Shown.pixmap_eq (ha : a.Shown) (hb : b.Shown) (hlevel : a.Level = b.Level) {g h : Gate}
    (hg : g ∈ a.m_gates.elems) (hh : h ∈ b.m_gates.elems) (hpart : g.part = h.part) :
    g.pixmap = h.pixmap := by
  have htype : g.type = h.type := congrArg Part.type hpart
  have hid : g.id = h.id := congrArg Part.id hpart
  have hout : g.isOutput = h.isOutput := by
    rw [(ha.sound.wellFormed.shaped g hg).isOutput, (hb.sound.wellFormed.shaped h hh).isOutput,
      htype]
  cases ho : g.isOutput with
  | true =>
    obtain ⟨v, hv, hpix⟩ := (ha.inStep.displays ha.sound.wellFormed).output g hg ho
    obtain ⟨w, hw, hpix'⟩ := (hb.inStep.displays hb.sound.wellFormed).output h hh (hout ▸ ho)
    rw [hlevel, hid] at hv
    rw [hpix, hpix', hv.unique hw]
  | false =>
    rw [ha.pictured g hg ho, hb.pictured h hh (hout ▸ ho), htype]

theorem Shown.colorAt_le (ha : a.Shown) (hb : b.Shown)
    (hparts : a.circuit.parts = b.circuit.parts) (hsource : a.circuit.source = b.circuit.source)
    (hlevel : a.Level = b.Level) {box : HitBoxPtr} {c : WireColor}
    (h : a.scene.colorAt box = some c) : b.scene.colorAt box = some c := by
  have hca := ha.sound.wellFormed.consistent
  have hcb := hb.sound.wellFormed.consistent
  obtain ⟨p, w, hw, rfl, rfl⟩ := hca.colorAt_eq_some.mp h
  have hread : b.scene.source w.input = some w.output.owner := by
    rw [← show a.scene.source = b.scene.source from hsource]
    exact hca.source_eq_some.mpr ⟨p, w, hw, rfl, rfl⟩
  obtain ⟨p', w', hw', hin, hout⟩ := hcb.source_eq_some.mp hread
  refine hcb.colorAt_eq_some.mpr ⟨p', w', hw', hin, ?_⟩
  obtain ⟨g, hg, hptr, v, hv, hcolor⟩ := (ha.inStep.displays ha.sound.wellFormed).wire p w hw
  obtain ⟨g', hg', hptr', v', hv', hcolor'⟩ :=
    (hb.inStep.displays hb.sound.wellFormed).wire p' w' hw'
  have hpart : g.part ∈ b.circuit.parts := hparts ▸ List.mem_map_of_mem hg
  obtain ⟨g'', hg'', heq⟩ := List.mem_map.mp hpart
  have hsame : g'' = g' := by
    refine KeySet.eq_of_key hg'' hg' ?_
    rw [hptr', hout, ← hptr]
    exact congrArg Part.ptr heq
  have hid : g.id = g'.id := hsame ▸ (congrArg Part.id heq).symm
  rw [hlevel, hid] at hv
  rw [hcolor, hcolor', hv.unique hv']

theorem map_eq_of_map_eq {α β γ : Type*} {f : α → β} {k : α → γ} {l l' : List α}
    (h : l.map f = l'.map f) (hk : ∀ x ∈ l, ∀ y ∈ l', f x = f y → k x = k y) :
    l.map k = l'.map k := by
  induction l generalizing l' with
  | nil => rw [List.map_eq_nil_iff.mp h.symm]
  | cons x l ih =>
    cases l' with
    | nil => cases h
    | cons y l' =>
      obtain ⟨hxy, hrest⟩ := List.cons.inj h
      rw [List.map_cons, List.map_cons, hk x (List.mem_cons_self ..) y (List.mem_cons_self ..) hxy]
      refine congrArg _ (ih hrest fun z hz w hw => ?_)
      exact hk z (List.mem_cons_of_mem x hz) w (List.mem_cons_of_mem y hw)

theorem level_congr (hparts : a.circuit.parts = b.circuit.parts)
    (hsource : a.circuit.source = b.circuit.source)
    (hflag : a.circuit.simulated = b.circuit.simulated) : a.Level = b.Level := by
  funext id v
  simp only [Level, simMap_congr hparts hsource,
    show a.simulatorFlag = b.simulatorFlag from hflag]

theorem Shown.sameScreen (ha : a.Shown) (hb : b.Shown)
    (hparts : a.circuit.parts = b.circuit.parts) (hsource : a.circuit.source = b.circuit.source)
    (hflag : a.circuit.simulated = b.circuit.simulated) : a.SameScreen b := by
  have hlevel := level_congr hparts hsource hflag
  refine ⟨?_, funext fun box => Option.ext fun c => ⟨?_, ?_⟩⟩
  · exact map_eq_of_map_eq hparts fun g hg h hh hpart =>
      Prod.ext hpart (ha.pixmap_eq hb hlevel hg hh hpart)
  · exact ha.colorAt_le hb hparts hsource hlevel
  · exact hb.colorAt_le ha hparts.symm hsource.symm hlevel.symm

theorem step_shown {act : Action} (ha : a.Shown) (hk : KeepsDisplay act a)
    (h : step act a = .ok b) : b.Shown :=
  ⟨step_sound ha.sound h, step_inStep ha.sound ha.inStep hk h, step_pictured ha.sound ha.pictured h⟩

theorem runs_shown {gen : List Id} {acts : List Action} {a₀ : Area} (h : create gen = .ok a₀)
    (hkeep : Along step KeepsDisplay acts a₀) (hrun : runs step acts a₀ = .ok a) : a.Shown := by
  have hstart : a₀.Shown := by
    refine ⟨create_sound h, create_inStep h, ?_⟩
    exact Pictured.draw (a := start gen) (by rintro g ⟨⟩) h
  exact runs_along (fun _ _ _ => step_shown) hkeep hstart acts a (List.prefix_refl _) hrun

/-- **One circuit, one screen.**  Two runs that keep their display in step and lead to the
same gates and connections, both simulated or both not, show the same. -/
theorem screen_of_circuit {gen gen' : List Id} {acts acts' : List Action} {a₀ b₀ : Area}
    (ha₀ : create gen = .ok a₀) (hacts : Along step KeepsDisplay acts a₀)
    (ha : runs step acts a₀ = .ok a)
    (hb₀ : create gen' = .ok b₀) (hacts' : Along step KeepsDisplay acts' b₀)
    (hb : runs step acts' b₀ = .ok b)
    (hparts : a.circuit.parts = b.circuit.parts) (hsource : a.circuit.source = b.circuit.source)
    (hflag : a.circuit.simulated = b.circuit.simulated) : a.SameScreen b :=
  (runs_shown ha₀ hacts ha).sameScreen (runs_shown hb₀ hacts' hb) hparts hsource hflag

/-- The output reads an input state. -/
def highOutput : List Action := [.draw .highState, .click ⟨0, .input1⟩, .click ⟨1, .output⟩]

theorem keeps_of_clear {act : Action} (h : a.simulatorFlag = false) : KeepsDisplay act a := by
  intro hflag
  rw [h] at hflag
  cases hflag

/-- The simulation is cleared and shown again. -/
theorem screen_of_circuit_highOutput :
    ∃ a₀ a b, create [7, 8] = .ok a₀ ∧ runs step (highOutput ++ [.simulate]) a₀ = .ok a ∧
      runs step (highOutput ++ [.simulate, .clearSimulate, .simulate]) a₀ = .ok b ∧
      a.SameScreen b := by
  obtain ⟨a₀, a₁, a₂, a₃, a, c, b, h, h₁, h₂, h₃, h₄, h₅, h₆, hf₀, hf₁, hf₂, hparts, hflag⟩ :
      ∃ a₀ a₁ a₂ a₃ a c b, create [7, 8] = .ok a₀ ∧ step (.draw .highState) a₀ = .ok a₁ ∧
        step (.click ⟨0, .input1⟩) a₁ = .ok a₂ ∧ step (.click ⟨1, .output⟩) a₂ = .ok a₃ ∧
        step .simulate a₃ = .ok a ∧ step .clearSimulate a = .ok c ∧ step .simulate c = .ok b ∧
        a₀.simulatorFlag = false ∧ a₁.simulatorFlag = false ∧ a₂.simulatorFlag = false ∧
        a.circuit.parts = b.circuit.parts ∧ a.circuit.simulated = b.circuit.simulated :=
    ⟨_, _, _, _, _, _, _, rfl, rfl, rfl, rfl, rfl, rfl, rfl, rfl, rfl, rfl, rfl, rfl⟩
  have hkeep : ∀ rest, Along step KeepsDisplay rest a →
      Along step KeepsDisplay (.draw .highState :: .click ⟨0, .input1⟩ :: .click ⟨1, .output⟩ ::
        .simulate :: rest) a₀ := fun rest hrest =>
    .cons h₁ (keeps_of_clear hf₀) (.cons h₂ (keeps_of_clear hf₁)
      (.cons h₃ (keeps_of_clear hf₂) (.cons h₄ (fun _ => trivial) hrest)))
  have hrun : runs step (highOutput ++ [.simulate]) a₀ = .ok a := by
    simp only [highOutput, List.cons_append, List.nil_append, runs, h₁, h₂, h₃, h₄, bind,
      Except.bind]
  have hrun' : runs step (highOutput ++ [.simulate, .clearSimulate, .simulate]) a₀ = .ok b := by
    simp only [highOutput, List.cons_append, List.nil_append, runs, h₁, h₂, h₃, h₄, h₅, h₆, bind,
      Except.bind]
  have hsource : a.circuit.source = b.circuit.source := by
    have hw := (runs_shown h (hkeep [] trivial) hrun).sound.wellFormed
    have hredrawn := displayFree_redrawn a.scene
    exact ((hredrawn.simulate (hredrawn.clearSimulate (.refl _) h₅) h₆).source hw.consistent).symm
  exact ⟨a₀, a, b, h, hrun, hrun', screen_of_circuit h (hkeep [] trivial) hrun h
    (hkeep [.clearSimulate, .simulate] (.cons h₅ (fun _ => trivial)
      (.cons h₆ (fun _ => trivial) trivial))) hrun' hparts hsource hflag⟩

/-! ## Leaving no trace -/

/-- A gate without its picture and its input state. -/
def bare (g : Gate) : Gate :=
  { g with pixmap := .output, type := if g.type = .highState then .lowState else g.type }

@[simp] theorem bare_ptr (g : Gate) : (bare g).ptr = g.ptr := rfl

theorem bare_part {g h : Gate} (he : bare g = bare h) (htype : h.ptr = g.ptr → h.type = g.type) :
    g.part = h.part := by
  have hptr : (bare g).ptr = (bare h).ptr := congrArg Gate.ptr he
  have hid : (bare g).id = (bare h).id := congrArg Gate.id he
  rw [Gate.part, Gate.part, htype hptr.symm]
  exact congrArg₂ (fun p i => (⟨p, g.type, i⟩ : Part)) hptr hid

theorem eq_of_bare {g h : Gate} (he : bare g = bare h) (hpart : g.part = h.part)
    (hpixmap : g.pixmap = h.pixmap) : g = h := by
  cases g
  cases h
  simp_all [bare, Gate.part]

/-- `b` is `a` except for pictures, colours, input states and the flag. -/
structure Untouched (a b : Area) : Prop where
  scene : a.scene.Redrawn b.scene
  gates : ∀ p, (b.m_gates.find? p).map bare = (a.m_gates.find? p).map bare
  nextGate : b.nextGate = a.nextGate
  gen : b.gen = a.gen

theorem find_modify_bare (gates : KeySet Gate.ptr) (gate : GatePtr) {f : Gate → Gate}
    (hf : ∀ g, (f g).ptr = g.ptr) (hbare : ∀ g, bare (f g) = bare g) (p : GatePtr) :
    ((gates.modify gate f hf).find? p).map bare = (gates.find? p).map bare := by
  rw [KeySet.find?_modify]
  split
  · rw [Option.map_map]
    exact Option.map_congr fun g _ => hbare g
  · rfl

theorem bare_toggle (g : Gate) : bare g.toggle = bare g := by
  unfold Gate.toggle bare
  split
  · next h => simp [h]
  · next h => simp [h]
  · rfl

theorem displayFree_untouched (a : Area) : DisplayFree (Untouched a) where
  pixmap b gate pixmap h :=
    ⟨h.scene, fun p => (find_modify_bare (f := fun g => { g with pixmap := pixmap }) b.m_gates gate
      (fun _ => rfl) (fun _ => rfl) p).trans (h.gates p), h.nextGate, h.gen⟩
  scene _ _ hs h := ⟨h.scene.trans hs, h.gates, h.nextGate, h.gen⟩
  flag _ _ h := ⟨h.scene, h.gates, h.nextGate, h.gen⟩

theorem step_untouched {c : Area} {act : Action} (hact : act.shows = true) (h : Untouched a b)
    (hstep : step act b = .ok c) : Untouched a c := by
  cases act with
  | changeTypeInput gate =>
    have htoggled : Untouched a
        { b with m_gates := b.m_gates.modify gate Gate.toggle Gate.toggle_ptr } :=
      ⟨h.scene, fun p => (find_modify_bare b.m_gates gate Gate.toggle_ptr bare_toggle p).trans
        (h.gates p), h.nextGate, h.gen⟩
    rcases changeTypeInput_ok hstep with rfl | rfl | hsim
    · exact h
    · exact htoggled
    · exact (displayFree_untouched a).simulate htoggled hsim
  | simulate => exact (displayFree_untouched a).simulate h hstep
  | clearSimulate => exact (displayFree_untouched a).clearSimulate h hstep
  | _ => cases hact

theorem shows_keeps {act : Action} (hact : act.shows = true) (a : Area) : KeepsDisplay act a := by
  intro _
  cases act with
  | changeTypeInput gate => trivial
  | simulate => trivial
  | clearSimulate => trivial
  | _ => cases hact

theorem Untouched.eq_of_types (h : Untouched a b) (ha : a.Shown) (hb : b.Shown)
    (hflag : b.simulatorFlag = a.simulatorFlag)
    (htypes : ∀ g ∈ a.m_gates.elems, ∀ g' ∈ b.m_gates.elems, g'.ptr = g.ptr → g'.type = g.type) :
    b = a := by
  have hbare : a.m_gates.elems.map bare = b.m_gates.elems.map bare := by
    have hmap : a.m_gates.map bare bare_ptr = b.m_gates.map bare bare_ptr := by
      refine KeySet.ext_find fun p => ?_
      rw [KeySet.find?_map, KeySet.find?_map, h.gates p]
    exact congrArg KeySet.elems hmap
  have hpart : ∀ g ∈ a.m_gates.elems, ∀ g' ∈ b.m_gates.elems, bare g = bare g' →
      g.part = g'.part := fun g hg g' hg' he => bare_part he (htypes g hg g' hg')
  have hparts : a.circuit.parts = b.circuit.parts := map_eq_of_map_eq hbare hpart
  have hsource : a.circuit.source = b.circuit.source :=
    (h.scene.source ha.sound.wellFormed.consistent).symm
  have hlevel := level_congr hparts hsource hflag.symm
  have hscene : b.scene = a.scene :=
    h.scene.eq_of_colorAt ha.sound.wellFormed.consistent
      (ha.sameScreen hb hparts hsource hflag.symm).wires.symm
  have helems : b.m_gates.elems.map id = a.m_gates.elems.map id :=
    map_eq_of_map_eq hbare.symm fun g hg g' hg' he =>
      have hsame := (hpart g' hg' g hg he.symm).symm
      eq_of_bare he hsame (hb.pixmap_eq ha hlevel.symm hg hg' hsame)
  have hgates : b.m_gates = a.m_gates := by
    rw [List.map_id, List.map_id] at helems
    exact KeySet.ext_mem fun g => by rw [helems]
  cases a
  cases b
  cases hscene
  cases hgates
  cases hflag
  cases h.nextGate
  cases h.gen
  rfl

theorem runs_untouched {acts : List Action} (hacts : ∀ act ∈ acts, act.shows = true)
    (ha : a.Shown) (hrun : runs step acts a = .ok b) : Untouched a b ∧ b.Shown := by
  refine runs_invariant (P := fun act => act.shows = true)
    (I := fun c => Untouched a c ∧ c.Shown) ?_ hacts
    ⟨⟨.refl _, fun _ => rfl, rfl, rfl⟩, ha⟩ hrun
  rintro act c c' hact ⟨hc, hshown⟩ h
  exact ⟨step_untouched hact hc h, step_shown hshown (shows_keeps hact c) h⟩

/-- **No trace.**  However often a shown scheme is simulated, cleared and toggled: once the
input states and the flag are back, everything is as it was. -/
theorem display_restored {gen : List Id} {acts acts' : List Action} {a₀ : Area}
    (h : create gen = .ok a₀) (hkeep : Along step KeepsDisplay acts a₀)
    (ha : runs step acts a₀ = .ok a) (hacts : ∀ act ∈ acts', act.shows = true)
    (hrun : runs step acts' a = .ok b) (hflag : b.simulatorFlag = a.simulatorFlag)
    (htypes : ∀ g ∈ a.m_gates.elems, ∀ g' ∈ b.m_gates.elems, g'.ptr = g.ptr → g'.type = g.type) :
    b = a := by
  have hshown := runs_shown h hkeep ha
  obtain ⟨huntouched, hb⟩ := runs_untouched hacts hshown hrun
  exact huntouched.eq_of_types hshown hb hflag htypes

theorem display_restored_highOutput :
    ∃ a₀ a b, create [7, 8] = .ok a₀ ∧ runs step highOutput a₀ = .ok a ∧
      runs step [.simulate, .changeTypeInput 1, .clearSimulate, .changeTypeInput 1] a = .ok b ∧
      b = a := by
  obtain ⟨a₀, a₁, a₂, a₃, b, h, h₁, h₂, h₃, hb, hf₀, hf₁, hf₂, hflag, htypes⟩ :
      ∃ a₀ a₁ a₂ a₃ b, create [7, 8] = .ok a₀ ∧ step (.draw .highState) a₀ = .ok a₁ ∧
        step (.click ⟨0, .input1⟩) a₁ = .ok a₂ ∧ step (.click ⟨1, .output⟩) a₂ = .ok a₃ ∧
        runs step [.simulate, .changeTypeInput 1, .clearSimulate, .changeTypeInput 1] a₃ = .ok b ∧
        a₀.simulatorFlag = false ∧ a₁.simulatorFlag = false ∧ a₂.simulatorFlag = false ∧
        b.simulatorFlag = a₃.simulatorFlag ∧
        ∀ g ∈ a₃.m_gates.elems, ∀ g' ∈ b.m_gates.elems, g'.ptr = g.ptr → g'.type = g.type :=
    ⟨_, _, _, _, _, rfl, rfl, rfl, rfl, rfl, rfl, rfl, rfl, rfl, by decide⟩
  have hkeep : Along step KeepsDisplay highOutput a₀ :=
    .cons h₁ (keeps_of_clear hf₀) (.cons h₂ (keeps_of_clear hf₁)
      (.cons h₃ (keeps_of_clear hf₂) trivial))
  have hrun : runs step highOutput a₀ = .ok a₃ := by
    simp only [highOutput, runs, h₁, h₂, h₃, bind, Except.bind]
  exact ⟨a₀, a₃, b, h, hrun, hb, display_restored h hkeep hrun (by decide) hb hflag htypes⟩

end Area

end SimGate

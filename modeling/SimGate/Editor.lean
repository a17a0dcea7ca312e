import SimGate.Lib.Execution
import SimGate.Decoding

/-!
# Runs of the editor

What a user can do to the scheme, one action at a time.  An action on something
that is not in the scene does nothing.

* `runs_sound`: the invariant of the scheme holds in every area of every run;
* `runs_registered`: as long as no gate is deleted and nothing is loaded, clicks
  find only hitboxes that are alive, and no click drops a wire.
-/

namespace SimGate

/-- A load carries the fuel it gets, the file and the uninitialised reader. -/
inductive Action
  | draw (type : CommonGateType)
  | click (hitbox : HitBoxPtr)
  | deleteWire (wire : WirePtr)
  | deleteGate (gate : GatePtr)
  | changeTypeInput (gate : GatePtr)
  | simulate
  | clearSimulate
  | load (fuel : Nat) (file : Option (List Element)) (reader : Element)

/-- Drawing, connecting and deleting wires. -/
def Action.connects : Action → Bool
  | .draw _ | .click _ | .deleteWire _ => true
  | _ => false

/-- Gates may be deleted too. -/
def Action.edits : Action → Bool
  | .draw _ | .click _ | .deleteWire _ | .deleteGate _ => true
  | _ => false

def Action.loads : Action → Bool
  | .load .. => true
  | _ => false

namespace Area

def click (hitbox : HitBoxPtr) (a : Area) : Except Fault Area :=
  match a.scene.hitbox hitbox with
  | none => .ok a
  | some _ => do
    let scene ← a.scene.released hitbox
    .ok { a with scene := scene }

def deleteWire (wire : WirePtr) (a : Area) : Except Fault Area :=
  match a.scene.wire wire with
  | none => .ok a
  | some _ => do
    let scene ← a.scene.deleteWire wire
    .ok { a with scene := scene }

def step : Action → Area → Except Fault Area
  | .draw type, a => a.draw type gNotValidGateId 0 0
  | .click hitbox, a => a.click hitbox
  | .deleteWire wire, a => a.deleteWire wire
  | .deleteGate gate, a => a.deleteGate gate
  | .changeTypeInput gate, a => a.changeTypeInput gate
  | .simulate, a => a.simulate
  | .clearSimulate, a => a.clearSimulate
  | .load fuel file reader, a => a.loadProject fuel file reader

/-! ## What one action can do -/

theorem click_ok {a a' : Area} {this : HitBoxPtr} (hp : a.scene.Pending)
    (h : a.click this = .ok a') :
    a' = a ∨ ∃ s, Scene.Clicked this a.scene s ∧ a' = { a with scene := s } := by
  rw [click] at h
  split at h
  · cases h
    exact Or.inl rfl
  · obtain ⟨s, hs, h⟩ := Execution.bind_eq_ok h
    cases h
    exact Or.inr ⟨s, Scene.released_ok hp hs, rfl⟩

theorem deleteWire_ok {a a' : Area} {wire : WirePtr} (hs : a.scene.Consistent)
    (h : a.deleteWire wire = .ok a') :
    ∃ live, a' = { a with scene := a.scene.keep live } := by
  rw [deleteWire] at h
  split at h
  · cases h
    exact ⟨fun _ => true, by rw [Scene.keep_all _ fun _ => rfl]⟩
  · next w hw =>
    rw [Scene.deleteWire_eq hs hw] at h
    cases h
    exact ⟨_, rfl⟩

/-- The area after the hitboxes of a gate went, before `clearSimulate`. -/
theorem deleteGate_ok {a a' : Area} {gate : GatePtr} (ha : a.WellFormed)
    (h : a.deleteGate gate = .ok a') :
    (∀ g ∈ a.m_gates.elems, g.ptr ≠ gate) ∧ a' = a ∨
      ∃ g ∈ a.m_gates.elems, g.ptr = gate ∧ ∃ live,
        let b := { a with
          scene := (a.scene.keep live).without g.hitboxes
          m_gates := a.m_gates.erase gate }
        b.WellFormed ∧ b.clearSimulate = .ok a' := by
  rw [deleteGate] at h
  split at h
  · next hnone =>
    cases h
    exact Or.inl ⟨KeySet.find?_eq_none.mp hnone, rfl⟩
  · next g hg =>
    obtain ⟨hmem, rfl⟩ := KeySet.find?_eq_some.mp hg
    obtain ⟨live, hd, hw⟩ := ha.removed hmem
    rw [hd] at h
    exact Or.inr ⟨g, hmem, rfl, live, hw, h⟩

theorem changeTypeInput_ok {a a' : Area} {gate : GatePtr} (h : a.changeTypeInput gate = .ok a') :
    a' = a ∨
      let b := { a with m_gates := a.m_gates.modify gate Gate.toggle Gate.toggle_ptr }
      a' = b ∨ b.simulate = .ok a' := by
  rw [changeTypeInput] at h
  split at h
  · cases h
    exact Or.inl rfl
  · simp only at h
    split at h
    · exact Or.inr (Or.inr h)
    · cases h
      exact Or.inr (Or.inl rfl)

/-! ## The invariant -/

structure Sound (a : Area) : Prop where
  wellFormed : a.WellFormed
  pending : a.scene.Pending

theorem displayFree_sound : DisplayFree Sound where
  pixmap a gate pixmap ha :=
    ⟨displayFree_wellFormed.pixmap a gate pixmap ha.1,
      displayFree_pending.pixmap a gate pixmap ha.2⟩
  scene a s hs ha :=
    ⟨displayFree_wellFormed.scene a s hs ha.1, displayFree_pending.scene a s hs ha.2⟩
  flag a b ha := ⟨displayFree_wellFormed.flag a b ha.1, displayFree_pending.flag a b ha.2⟩

theorem WellFormed.keep {a : Area} (ha : a.WellFormed) (live : WirePtr → Bool) :
    { a with scene := a.scene.keep live }.WellFormed := by
  refine ⟨ha.consistent.keep live, ha.shaped, fun box => ?_, ha.allocated, ha.input, ha.output⟩
  rw [← ha.alive box]
  simp [Scene.keep]

namespace Sound

variable {a a' : Area} (ha : a.Sound)

include ha

theorem draw {type : CommonGateType} {id : Id} {x y : Qreal} (h : a.draw type id x y = .ok a') :
    a'.Sound := by
  refine ⟨ha.wellFormed.draw h, ?_⟩
  obtain ⟨tmpId, gen, _, _, _, rfl⟩ := draw_ok h
  split
  · exact ha.pending
  · exact ha.pending.withNew _

theorem released {this : HitBoxPtr} {s : Scene} (h : a.scene.released this = .ok s) :
    { a with scene := s }.Sound :=
  have hc := Scene.released_ok ha.pending h
  ⟨ha.wellFormed.clicked hc, hc.pending ha.pending⟩

theorem click {this : HitBoxPtr} (h : a.click this = .ok a') : a'.Sound := by
  rcases click_ok ha.pending h with rfl | ⟨s, hc, rfl⟩
  · exact ha
  · exact ⟨ha.wellFormed.clicked hc, hc.pending ha.pending⟩

theorem deleteWire {wire : WirePtr} (h : a.deleteWire wire = .ok a') : a'.Sound := by
  obtain ⟨live, rfl⟩ := deleteWire_ok ha.wellFormed.consistent h
  exact ⟨ha.wellFormed.keep live, ha.pending.keep live⟩

theorem deleteGate {gate : GatePtr} (h : a.deleteGate gate = .ok a') : a'.Sound := by
  rcases deleteGate_ok ha.wellFormed h with ⟨_, rfl⟩ | ⟨g, _, _, live, hw, h⟩
  · exact ha
  · exact displayFree_sound.clearSimulate ⟨hw, (ha.pending.keep live).without g.hitboxes⟩ h

theorem changeTypeInput {gate : GatePtr} (h : a.changeTypeInput gate = .ok a') : a'.Sound := by
  have hw : { a with m_gates := a.m_gates.modify gate Gate.toggle Gate.toggle_ptr }.Sound :=
    ⟨ha.wellFormed.modify gate Gate.toggle_ptr Gate.toggle_shaped, ha.pending⟩
  rcases changeTypeInput_ok h with rfl | rfl | h
  · exact ha
  · exact hw
  · exact displayFree_sound.simulate hw h

theorem clear (h : a.clear = .ok a') : a'.Sound := by
  obtain ⟨s, hc, hw, _, _, hp⟩ := ha.wellFormed.cleared
  rw [hc] at h
  cases h
  exact ⟨hw, hp ha.pending⟩

end Sound

theorem Sound.decodeLoop {fuel : Nat} {file : List Element} {d d' : Decoder} {a a' : Area}
    (ha : a.Sound) (h : decodeLoop fuel file d a = .ok (d', a')) : a'.Sound :=
  Execution.foldlM_invariant (fun _ _ _ _ hs h => hs.draw h) ha (decodeLoop_ok h).1

/-- The replay of a pair does nothing or clicks twice. -/
theorem connectPair_ok {a a' : Area} {pair : Id × Id} (h : a.connectPair pair = .ok a') :
    a' = a ∨ ∃ i o s s', a.scene.released i = .ok s ∧ s.released o = .ok s' ∧
      a' = { a with scene := s' } := by
  have hemit : ∀ {output : Gate} {slot : HitBoxType}, a.emitReleased output slot pair.2 = .ok a' →
      ∃ i o s s', a.scene.released i = .ok s ∧ s.released o = .ok s' ∧
        a' = { a with scene := s' } := by
    intro output slot h
    rw [emitReleased] at h
    split at h
    · cases h
    · split at h
      · next i o _ _ =>
        obtain ⟨s, hs, h⟩ := Execution.bind_eq_ok h
        obtain ⟨s', hs', h⟩ := Execution.bind_eq_ok h
        cases h
        exact ⟨i, o, s, s', hs, hs', rfl⟩
      · cases h
  rw [connectPair] at h
  split at h
  · cases h
  · obtain ⟨input, _, h⟩ := Execution.bind_eq_ok h
    split at h
    · exact Or.inr (hemit h)
    · split at h
      · exact Or.inr (hemit h)
      · cases h
        exact Or.inl rfl

theorem Sound.connectPair {a a' : Area} (ha : a.Sound) {pair : Id × Id}
    (h : a.connectPair pair = .ok a') : a'.Sound := by
  rcases connectPair_ok h with rfl | ⟨i, o, s, s', hs, hs', rfl⟩
  · exact ha
  · exact (ha.released hs).released hs'

theorem connectPair_gates {a a' : Area} {pair : Id × Id} (h : a.connectPair pair = .ok a') :
    a'.m_gates = a.m_gates := by
  rcases connectPair_ok h with rfl | ⟨_, _, _, _, _, _, rfl⟩
  · rfl
  · rfl

theorem replay_gates {pairs : List (Id × Id)} {a a' : Area}
    (h : pairs.foldlM connectPair a = .ok a') : a'.m_gates = a.m_gates :=
  Execution.foldlM_invariant (I := fun b => b.m_gates = a.m_gates)
    (fun _ _ _ _ hb h => (connectPair_gates h).trans hb) rfl h

theorem Sound.loadProject {fuel : Nat} {file : Option (List Element)} {reader : Element}
    {a a' : Area} (ha : a.Sound) (h : a.loadProject fuel file reader = .ok a') : a'.Sound := by
  obtain ⟨b, hb, h⟩ := Execution.bind_eq_ok h
  have hb := ha.clear hb
  split at h
  · cases h
    exact hb
  · obtain ⟨⟨d, c⟩, hc, h⟩ := Execution.bind_eq_ok h
    exact Execution.foldlM_invariant (fun _ _ _ _ hs h => hs.connectPair h) (hb.decodeLoop hc) h

theorem step_sound {act : Action} {a a' : Area} (ha : a.Sound) (h : step act a = .ok a') :
    a'.Sound := by
  cases act with
  | draw type => exact ha.draw (show a.draw type gNotValidGateId 0 0 = .ok a' from h)
  | click hitbox => exact ha.click h
  | deleteWire wire => exact ha.deleteWire h
  | deleteGate gate => exact ha.deleteGate h
  | changeTypeInput gate => exact ha.changeTypeInput h
  | simulate => exact displayFree_sound.simulate ha h
  | clearSimulate => exact displayFree_sound.clearSimulate ha h
  | load fuel file reader => exact ha.loadProject h

theorem start_sound (gen : List Id) : (start gen).Sound := by
  refine ⟨⟨⟨?_, ?_, ?_, ?_, ?_⟩, ?_, ?_, ?_, ?_, ?_⟩, ?_, ?_, ?_⟩ <;> simp [start, Scene.empty]

/-- The output that the constructor draws is the first action of a run. -/
theorem create_runs (gen : List Id) (acts : List Action) :
    create gen >>= Execution.runs step acts =
      Execution.runs step (.draw .output :: acts) (start gen) := rfl

theorem runs_sound {gen : List Id} {acts : List Action} {a : Area}
    (h : create gen >>= Execution.runs step acts = .ok a) : a.Sound :=
  Execution.runs_invariant (P := fun _ => True) (fun _ _ _ _ => step_sound)
    (fun _ _ => trivial) (start_sound gen) (create_runs gen acts ▸ h)

theorem create_sound {gen : List Id} {a : Area} (h : create gen = .ok a) : a.Sound :=
  @step_sound (.draw .output) (start gen) a (start_sound gen) h

/-- What the actions of a run preserve in a sound area holds after the run. -/
theorem runs_preserve {P : Action → Prop} {I : Area → Prop} {gen : List Id} {acts : List Action}
    {a : Area}
    (hstep : ∀ act a a', P act → a.Sound → I a → step act a = .ok a' → I a')
    (hdraw : P (.draw .output)) (hacts : ∀ act ∈ acts, P act) (hstart : I (start gen))
    (h : create gen >>= Execution.runs step acts = .ok a) : a.Sound ∧ I a := by
  refine Execution.runs_invariant (P := P) (I := fun a => a.Sound ∧ I a) ?_
    (List.forall_mem_cons.mpr ⟨hdraw, hacts⟩) ⟨start_sound gen, hstart⟩ (create_runs gen acts ▸ h)
  rintro act a a' hact ⟨ha, hi⟩ h
  exact ⟨step_sound ha h, hstep act a a' hact ha hi h⟩

/-! ## Distinct ids -/

theorem step_distinctIds {act : Action} {a a' : Area} (hact : act.loads = false) (ha : a.Sound)
    (hd : a.DistinctIds) (h : step act a = .ok a') : a'.DistinctIds := by
  cases act with
  | draw type =>
    obtain ⟨tmpId, gen, _, _, hnew, rfl⟩ :=
      draw_ok (show a.draw type gNotValidGateId 0 0 = .ok a' from h)
    split
    · exact hd
    · exact DistinctIds.drawn (ha.wellFormed.gen gen) hd (hnew rfl)
  | click hitbox =>
    rcases click_ok ha.pending h with rfl | ⟨s, _, rfl⟩
    · exact hd
    · exact hd
  | deleteWire wire =>
    obtain ⟨live, rfl⟩ := deleteWire_ok ha.wellFormed.consistent h
    exact hd
  | deleteGate gate =>
    rcases deleteGate_ok ha.wellFormed h with ⟨_, rfl⟩ | ⟨_, _, _, _, _, h⟩
    · exact hd
    · exact displayFree_distinctIds.clearSimulate (hd.erase gate _) h
  | changeTypeInput gate =>
    have hd' := hd.modify gate Gate.toggle_ptr Gate.toggle_id
    rcases changeTypeInput_ok h with rfl | rfl | h
    · exact hd
    · exact hd'
    · exact displayFree_distinctIds.simulate hd' h
  | simulate => exact displayFree_distinctIds.simulate hd h
  | clearSimulate => exact displayFree_distinctIds.clearSimulate hd h
  | load fuel file reader => cases hact

/-- Without loads the scheme keeps its ids distinct. -/
theorem runs_distinctIds {gen : List Id} {acts : List Action} {a : Area}
    (hacts : ∀ act ∈ acts, act.loads = false)
    (h : create gen >>= Execution.runs step acts = .ok a) : a.Sound ∧ a.DistinctIds :=
  runs_preserve (fun _ _ _ => step_distinctIds) rfl hacts (by rintro g ⟨⟩) h

/-! ## Clicks -/

theorem step_alive {act : Action} {a a' : Area} (hact : act.connects = true) (ha : a.Sound)
    (hl : a.scene.PendingAlive) (h : step act a = .ok a') : a'.scene.PendingAlive := by
  cases act with
  | draw type =>
    obtain ⟨tmpId, gen, _, _, _, rfl⟩ :=
      draw_ok (show a.draw type gNotValidGateId 0 0 = .ok a' from h)
    split
    · exact hl
    · exact hl.withNew _
  | click hitbox =>
    rcases click_ok ha.pending h with rfl | ⟨s, hc, rfl⟩
    · exact hl
    · exact hc.alive hl
  | deleteWire wire =>
    obtain ⟨live, rfl⟩ := deleteWire_ok ha.wellFormed.consistent h
    exact hl.keep live
  | _ => cases hact

theorem click_total {a : Area} (ha : a.Sound) (hl : a.scene.PendingAlive) (this : HitBoxPtr) :
    ∃ a', a.click this = .ok a' := by
  rw [click]
  cases hb : a.scene.hitbox this with
  | none => exact ⟨a, rfl⟩
  | some b =>
    obtain ⟨s, hs⟩ := Scene.released_total hb ha.pending hl
    exact ⟨{ a with scene := s }, by simp [hs, bind, Except.bind]⟩

/-- **Registration.**  However gates are drawn, hitboxes clicked and wires
deleted, both ends of every wire know it and nothing else is registered; a click
succeeds and keeps every wire. -/
theorem runs_registered {gen : List Id} {acts : List Action} {a : Area}
    (hacts : ∀ act ∈ acts, act.connects = true)
    (h : create gen >>= Execution.runs step acts = .ok a) :
    a.scene.Pending ∧ a.scene.Consistent ∧
      ∀ this, ∃ a', a.click this = .ok a' ∧ Scene.Keeps a.scene a'.scene := by
  obtain ⟨ha, hl⟩ : a.Sound ∧ a.scene.PendingAlive :=
    runs_preserve (I := fun a => a.scene.PendingAlive) (fun _ _ _ => step_alive) rfl hacts
      ⟨by rintro box ⟨⟩, by rintro box ⟨⟩⟩ h
  refine ⟨ha.pending, ha.wellFormed.consistent, fun this => ?_⟩
  obtain ⟨a', h'⟩ := click_total ha hl this
  refine ⟨a', h', ?_⟩
  rcases click_ok ha.pending h' with rfl | ⟨s, hc, rfl⟩
  · exact .refl a'.scene
  · exact hc.keeps ha.wellFormed.consistent

/-- A user connects an AND gate to the output and clicks on. -/
def connectedAnd : List Action :=
  [.draw .and, .click ⟨0, .input1⟩, .click ⟨1, .output⟩, .click ⟨1, .input2⟩]

theorem runs_registered_connectedAnd :
    ∃ a, create [7, 8] >>= Execution.runs step connectedAnd = .ok a ∧
      (a.scene.Pending ∧ a.scene.Consistent ∧
        ∀ this, ∃ a', a.click this = .ok a' ∧ Scene.Keeps a.scene a'.scene) ∧
      a.scene.wire 0 = some ⟨⟨0, .input1⟩, ⟨1, .output⟩, .black⟩ ∧
      a.scene.input = some ⟨1, .input2⟩ := by
  have hacts : ∀ act ∈ connectedAnd, act.connects = true := by decide
  exact ⟨_, rfl, @runs_registered [7, 8] connectedAnd _ hacts rfl, rfl, rfl⟩

end Area

end SimGate

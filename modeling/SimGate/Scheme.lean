import SimGate.Clicking
import SimGate.Project

/-!
# What the editor keeps of a scheme

`WellFormed` says that the hitboxes alive are those of the gates and that wires
are registered consistently.  Drawing (`WellFormed.drawn`), deleting a gate
(`WellFormed.removed`), clicking and loading keep it.  Whatever does not depend
on pictures and colours is kept by the simulation too (`DisplayFree`).
-/

namespace SimGate

/-! ## New hitboxes -/

namespace Scene

def withNew (boxes : List HitBoxPtr) (s : Scene) : Scene :=
  { s with hitbox := fun box => if box ∈ boxes then some ⟨none, []⟩ else s.hitbox box }

theorem foldl_new (boxes : List HitBoxPtr) (s : Scene) :
    boxes.foldl new s = s.withNew boxes := by
  induction boxes generalizing s with
  | nil => simp [withNew]
  | cons box boxes ih =>
    rw [List.foldl_cons, ih]
    simp only [withNew, new, put, mk.injEq, and_true]
    funext b
    by_cases hb : b ∈ boxes
    · simp [hb]
    · by_cases hbox : b = box <;> simp [hb, hbox]

theorem Consistent.withNew {s : Scene} (hs : s.Consistent) {boxes : List HitBoxPtr}
    (hboxes : ∀ box ∈ boxes, s.hitbox box = none) : (s.withNew boxes).Consistent where
  ends := hs.ends
  registered p w hw := by
    have hold : ∀ box h, s.hitbox box = some h → (s.withNew boxes).hitbox box = some h := by
      intro box h hb
      have hn : box ∉ boxes := fun hm => by simp [hboxes box hm] at hb
      simp [Scene.withNew, hn, hb]
    obtain ⟨⟨h, hb, hp⟩, h', hb', hc⟩ := hs.registered p w hw
    exact ⟨⟨h, hold _ h hb, hp⟩, h', hold _ h' hb', hc⟩
  ofWire box h p hb hp := by
    simp only [Scene.withNew] at hb
    split at hb
    · cases hb
      cases hp
    · exact hs.ofWire box h p hb hp
  ofOutputs box h p hb hp := by
    simp only [Scene.withNew] at hb
    split at hb
    · cases hb
      cases hp
    · exact hs.ofOutputs box h p hb hp
  fresh := hs.fresh

theorem Pending.withNew {s : Scene} (hp : s.Pending) (boxes : List HitBoxPtr) :
    (s.withNew boxes).Pending := by
  refine hp.mono rfl rfl fun box h' p hb hw => ?_
  simp only [Scene.withNew] at hb
  split at hb
  · cases hb
    cases hw
  · exact ⟨h', hb, hw⟩

theorem PendingAlive.withNew {s : Scene} (ha : s.PendingAlive) (boxes : List HitBoxPtr) :
    (s.withNew boxes).PendingAlive := by
  have hold : ∀ box, (∃ h, s.hitbox box = some h) → ∃ h, (s.withNew boxes).hitbox box = some h := by
    rintro box ⟨h, hb⟩
    simp only [Scene.withNew]
    split
    · exact ⟨_, rfl⟩
    · exact ⟨h, hb⟩
  exact ⟨fun box hbox => hold box (ha.input box hbox),
    fun box hbox => hold box (ha.output box hbox)⟩

/-! ## Colours -/

/-- The same scene with other colours. -/
structure Redrawn (s s' : Scene) : Prop where
  hitbox : s'.hitbox = s.hitbox
  wire : ∀ p i o, (∃ c, s'.wire p = some ⟨i, o, c⟩) ↔ ∃ c, s.wire p = some ⟨i, o, c⟩
  nextWire : s'.nextWire = s.nextWire
  input : s'.input = s.input
  output : s'.output = s.output

theorem Redrawn.refl (s : Scene) : s.Redrawn s := ⟨rfl, fun _ _ _ => Iff.rfl, rfl, rfl, rfl⟩

theorem Redrawn.trans {s t u : Scene} (h : s.Redrawn t) (h' : t.Redrawn u) : s.Redrawn u :=
  ⟨h'.hitbox.trans h.hitbox, fun p i o => (h'.wire p i o).trans (h.wire p i o),
    h'.nextWire.trans h.nextWire, h'.input.trans h.input, h'.output.trans h.output⟩

theorem setColor_redrawn {color : WireColor} {s s' : Scene} {p : WirePtr}
    (h : s.setColor color p = .ok s') : s.Redrawn s' := by
  obtain ⟨⟨wi, wo, wc⟩, hd, h⟩ := Execution.bind_eq_ok h
  have hw := derefWire_ok hd
  cases h
  refine ⟨rfl, fun q i o => ?_, rfl, rfl, rfl⟩
  by_cases hq : q = p
  · subst hq
    simp [hw]
  · simp [hq]

theorem foldlM_setColor {color : WireColor} {l : List WirePtr} {s s' : Scene}
    (h : l.foldlM (setColor color) s = .ok s') : s.Redrawn s' :=
  Execution.foldlM_invariant (I := s.Redrawn)
    (fun _ _ _ _ ht hc => ht.trans (setColor_redrawn hc)) (.refl s) h

theorem Redrawn.wire_of {s s' : Scene} (h : s.Redrawn s') {p : WirePtr} {w : Wire}
    (hw : s'.wire p = some w) :
    ∃ w₀, s.wire p = some w₀ ∧ w₀.input = w.input ∧ w₀.output = w.output := by
  obtain ⟨c, hc⟩ := (h.wire p w.input w.output).mp ⟨w.color, hw⟩
  exact ⟨_, hc, rfl, rfl⟩

theorem Redrawn.symm {s s' : Scene} (h : s.Redrawn s') : s'.Redrawn s :=
  ⟨h.hitbox.symm, fun p i o => (h.wire p i o).symm, h.nextWire.symm, h.input.symm, h.output.symm⟩

theorem Consistent.redrawn {s s' : Scene} (hs : s.Consistent) (h : s.Redrawn s') :
    s'.Consistent where
  ends p w hw := by
    obtain ⟨w₀, hw₀, hi, ho⟩ := h.wire_of hw
    rw [← hi, ← ho]
    exact hs.ends p w₀ hw₀
  registered p w hw := by
    obtain ⟨w₀, hw₀, hi, ho⟩ := h.wire_of hw
    rw [← hi, ← ho, h.hitbox]
    exact hs.registered p w₀ hw₀
  ofWire box b p hb hp := by
    rw [h.hitbox] at hb
    obtain ⟨w, hw, he⟩ := hs.ofWire box b p hb hp
    obtain ⟨w', hw', hi, _⟩ := h.symm.wire_of hw
    exact ⟨w', hw', hi.trans he⟩
  ofOutputs box b p hb hp := by
    rw [h.hitbox] at hb
    obtain ⟨w, hw, he⟩ := hs.ofOutputs box b p hb hp
    obtain ⟨w', hw', _, ho⟩ := h.symm.wire_of hw
    exact ⟨w', hw', ho.trans he⟩
  fresh p w hw := by
    obtain ⟨w₀, hw₀, _⟩ := h.wire_of hw
    rw [h.nextWire]
    exact hs.fresh p w₀ hw₀

theorem Pending.redrawn {s s' : Scene} (hp : s.Pending) (h : s.Redrawn s') : s'.Pending :=
  hp.mono h.input h.output fun _ h' _ hb hw => ⟨h', h.hitbox ▸ hb, hw⟩

end Scene

/-! ## The invariant -/

/-- A gate of the scene, as its constructor and `setId` leave it. -/
structure Gate.Shaped (g : Gate) : Prop where
  type : g.type ≠ .enumSize
  hitboxes : g.hitboxes = (hitBoxTypes g.type).map (HitBoxPtr.mk g.ptr)
  isOutput : g.isOutput = decide (g.type = .output)
  id : g.id ≠ gNotValidGateId

theorem Gate.Shaped.mem_hitboxes {g : Gate} (hg : g.Shaped) {box : HitBoxPtr} :
    box ∈ g.hitboxes ↔ box.owner = g.ptr ∧ box.type ∈ hitBoxTypes g.type := by
  obtain ⟨owner, type⟩ := box
  rw [hg.hitboxes, List.mem_map]
  constructor
  · rintro ⟨t, ht, he⟩
    cases he
    exact ⟨rfl, ht⟩
  · rintro ⟨rfl, ht⟩
    exact ⟨type, ht, rfl⟩

theorem hitBoxTypes_nodup (type : CommonGateType) : (hitBoxTypes type).Nodup := by
  cases type <;> decide

theorem Gate.Shaped.nodup {g : Gate} (hg : g.Shaped) : g.hitboxes.Nodup := by
  rw [hg.hitboxes]
  exact (hitBoxTypes_nodup g.type).map fun _ _ h => (HitBoxPtr.mk.inj h).2

namespace Area

structure WellFormed (a : Area) : Prop where
  consistent : a.scene.Consistent
  shaped : ∀ g ∈ a.m_gates.elems, g.Shaped
  alive : ∀ box, (∃ h, a.scene.hitbox box = some h) ↔ ∃ g ∈ a.m_gates.elems, box ∈ g.hitboxes
  allocated : ∀ g ∈ a.m_gates.elems, g.ptr < a.nextGate
  input : ∀ box, a.scene.input = some box → box.owner < a.nextGate
  output : ∀ box, a.scene.output = some box → box.owner < a.nextGate

def DistinctIds (a : Area) : Prop :=
  ∀ g ∈ a.m_gates.elems, ∀ g' ∈ a.m_gates.elems, g.id = g'.id → g = g'

theorem WellFormed.owner_lt {a : Area} (ha : a.WellFormed) {box : HitBoxPtr} {h : GateHitBox}
    (hb : a.scene.hitbox box = some h) : box.owner < a.nextGate := by
  obtain ⟨g, hg, hbox⟩ := (ha.alive box).mp ⟨h, hb⟩
  rw [((ha.shaped g hg).mem_hitboxes.mp hbox).1]
  exact ha.allocated g hg

/-- A scene without gates has neither hitboxes nor wires. -/
theorem WellFormed.bare {a : Area} (ha : a.WellFormed) (hg : a.m_gates = ∅) :
    (∀ box, a.scene.hitbox box = none) ∧ ∀ p, a.scene.wire p = none := by
  have hbox : ∀ box, a.scene.hitbox box = none := by
    intro box
    refine Option.eq_none_iff_forall_ne_some.mpr fun h hb => ?_
    obtain ⟨g, hmem, _⟩ := (ha.alive box).mp ⟨h, hb⟩
    rw [hg] at hmem
    cases hmem
  refine ⟨hbox, fun p => Option.eq_none_iff_forall_ne_some.mpr fun w hw => ?_⟩
  obtain ⟨⟨h, hb, _⟩, _⟩ := ha.consistent.registered p w hw
  rw [hbox] at hb
  cases hb

end Area

/-! ## Drawing -/

/-- The gate that `draw` adds. -/
def Gate.drawn (ptr : GatePtr) (type : CommonGateType) (id : Id) (x y : Qreal) : Gate :=
  let gate := (Gate.create ptr type (type = .output)).setId id
  if x ≠ 0 ∧ y ≠ 0 then { gate with x := x, y := y } else gate

theorem Gate.drawn_eq (ptr : GatePtr) (type : CommonGateType) (id : Id) (x y : Qreal) :
    Gate.drawn ptr type id x y =
      { Gate.create ptr type (type = .output) with
        id := id
        x := if x ≠ 0 ∧ y ≠ 0 then x else 0
        y := if x ≠ 0 ∧ y ≠ 0 then y else 0 } := by
  have hnew : (Gate.create ptr type (type = .output)).isValid = false := rfl
  simp only [Gate.drawn, Gate.setId, hnew, Bool.false_eq_true, if_false]
  split <;> rfl

theorem Gate.drawn_shaped {ptr : GatePtr} {type : CommonGateType} {id : Id} {x y : Qreal}
    (ht : type ≠ .enumSize) (hid : id ≠ gNotValidGateId) : (Gate.drawn ptr type id x y).Shaped := by
  rw [Gate.drawn_eq]
  exact ⟨ht, rfl, rfl, hid⟩

namespace Area

/-- The scheme with one more gate. -/
def drawn (type : CommonGateType) (id : Id) (x y : Qreal) (a : Area) : Area :=
  { a with
    scene := a.scene.withNew ((hitBoxTypes type).map (HitBoxPtr.mk a.nextGate))
    nextGate := a.nextGate + 1
    m_gates := a.m_gates.insert (Gate.drawn a.nextGate type id x y) }

/-- What is left of a gate that is not valid. -/
def skipped (a : Area) : Area := { a with nextGate := a.nextGate + 1 }

/-- **Drawing** with an id that is given or found. -/
theorem draw_eq {type : CommonGateType} {id : Id} {x y : Qreal} {a : Area}
    (hid : id ≠ gNotValidGateId) :
    a.draw type id x y = .ok (if type = .enumSize then a.skipped else a.drawn type id x y) := by
  have hvalid : ((Gate.create a.nextGate type (type = .output)).setId id).isValid =
      decide (type ≠ .enumSize) := by
    simp [Gate.setId, Gate.create, Gate.isValid, hid]
  simp only [draw, newGate, hid, if_false, bind, Except.bind, hvalid, Scene.foldl_new]
  by_cases ht : type = .enumSize
  · subst ht
    simp [Gate.create, Gate.setId, Gate.isValid, hitBoxTypes, Scene.destroyHitBoxes, skipped,
      Scene.withNew]
  · simp only [ht, ne_eq, not_false_eq_true, decide_true, if_true, if_false]
    rfl

theorem generateId_ok {m_gates : List Gate} {gen gen' : List Id} {id : Id}
    (h : generateId m_gates gen = .ok (id, gen')) :
    id ≠ gNotValidGateId ∧ ∀ g ∈ m_gates, g.id ≠ id := by
  induction gen with
  | nil => cases h
  | cons tmpId gen ih =>
    rw [generateId] at h
    split at h
    · exact ih h
    · next hn =>
      cases h
      rw [not_or] at hn
      exact ⟨hn.1, fun g hg he => hn.2 ⟨g, hg, he⟩⟩

/-- Without an id the gate gets the next new one of the generator. -/
theorem draw_generated {a : Area} {type : CommonGateType} {tmpId : Id} {gen : List Id} (x y : Qreal)
    (hgen : generateId a.m_gates.elems a.gen = .ok (tmpId, gen)) :
    a.draw type gNotValidGateId x y = { a with gen := gen }.draw type tmpId x y := by
  simp only [draw, newGate, if_true, bind, Except.bind, hgen, (generateId_ok hgen).1, if_false]
  rfl

/-- **What drawing can do.**  Without an id the gate gets a new one. -/
theorem draw_ok {type : CommonGateType} {id : Id} {x y : Qreal} {a a' : Area}
    (h : a.draw type id x y = .ok a') :
    ∃ tmpId gen, tmpId ≠ gNotValidGateId ∧ (id ≠ gNotValidGateId → tmpId = id) ∧
      (id = gNotValidGateId → ∀ g ∈ a.m_gates.elems, g.id ≠ tmpId) ∧
      a' = if type = .enumSize then { a with gen := gen }.skipped
        else { a with gen := gen }.drawn type tmpId x y := by
  by_cases hid : id = gNotValidGateId
  · subst hid
    cases hgen : generateId a.m_gates.elems a.gen with
    | error e => simp [draw, newGate, hgen, bind, Except.bind] at h
    | ok r =>
      obtain ⟨tmpId, gen⟩ := r
      obtain ⟨htmp, hnew⟩ := generateId_ok hgen
      rw [draw_generated x y hgen, draw_eq htmp] at h
      exact ⟨tmpId, gen, htmp, fun h => absurd rfl h, fun _ => hnew, (Except.ok.inj h).symm⟩
  · rw [draw_eq hid] at h
    exact ⟨id, a.gen, hid, fun _ => rfl, fun h => absurd h hid, (Except.ok.inj h).symm⟩

theorem WellFormed.mem_drawn {a : Area} (ha : a.WellFormed) {type : CommonGateType} {id : Id}
    {x y : Qreal} {g : Gate} :
    g ∈ (a.drawn type id x y).m_gates.elems ↔
      g ∈ a.m_gates.elems ∨ g = Gate.drawn a.nextGate type id x y := by
  have hptr : (Gate.drawn a.nextGate type id x y).ptr = a.nextGate := by rw [Gate.drawn_eq]; rfl
  have hnew : a.m_gates.find? (Gate.drawn a.nextGate type id x y).ptr = none := by
    rw [hptr]
    exact KeySet.find?_eq_none.mpr fun g hg => Nat.ne_of_lt (ha.allocated g hg)
  exact KeySet.mem_insert.trans (by simp only [hnew, and_true])

theorem WellFormed.drawn {a : Area} (ha : a.WellFormed) {type : CommonGateType} {id : Id}
    {x y : Qreal} (ht : type ≠ .enumSize) (hid : id ≠ gNotValidGateId) :
    (a.drawn type id x y).WellFormed := by
  have hmem : ∀ {g}, g ∈ (a.drawn type id x y).m_gates.elems ↔ _ := ha.mem_drawn
  have hshaped : (Gate.drawn a.nextGate type id x y).Shaped := Gate.drawn_shaped ht hid
  have hboxes : (Gate.drawn a.nextGate type id x y).hitboxes =
      (hitBoxTypes type).map (HitBoxPtr.mk a.nextGate) := by rw [Gate.drawn_eq]; rfl
  refine ⟨ha.consistent.withNew fun box hbox => ?_, fun g hg => ?_, fun box => ?_, fun g hg => ?_,
    fun box hbox => Nat.lt_succ_of_lt (ha.input box hbox),
    fun box hbox => Nat.lt_succ_of_lt (ha.output box hbox)⟩
  · obtain ⟨t, _, rfl⟩ := List.mem_map.mp hbox
    refine Option.eq_none_iff_forall_ne_some.mpr fun h hb => ?_
    exact absurd (ha.owner_lt hb) (Nat.lt_irrefl _)
  · rcases hmem.mp hg with hg | rfl
    · exact ha.shaped g hg
    · exact hshaped
  · by_cases hbox : box ∈ (hitBoxTypes type).map (HitBoxPtr.mk a.nextGate)
    · refine iff_of_true ⟨⟨none, []⟩, if_pos hbox⟩ ⟨_, hmem.mpr (Or.inr rfl), ?_⟩
      rw [hboxes]
      exact hbox
    · have hold : (a.drawn type id x y).scene.hitbox box = a.scene.hitbox box := if_neg hbox
      rw [hold, ha.alive box]
      constructor
      · rintro ⟨g, hg, hb⟩
        exact ⟨g, hmem.mpr (Or.inl hg), hb⟩
      · rintro ⟨g, hg, hb⟩
        rcases hmem.mp hg with hg | rfl
        · exact ⟨g, hg, hb⟩
        · rw [hboxes] at hb
          exact absurd hb hbox
  · rcases hmem.mp hg with hg | rfl
    · exact Nat.lt_succ_of_lt (ha.allocated g hg)
    · rw [Gate.drawn_eq]
      exact Nat.lt_succ_self a.nextGate

theorem WellFormed.skipped {a : Area} (ha : a.WellFormed) : a.skipped.WellFormed :=
  ⟨ha.consistent, ha.shaped, ha.alive, fun g hg => Nat.lt_succ_of_lt (ha.allocated g hg),
    fun box hbox => Nat.lt_succ_of_lt (ha.input box hbox),
    fun box hbox => Nat.lt_succ_of_lt (ha.output box hbox)⟩

/-- The generator does not matter. -/
theorem WellFormed.gen {a : Area} (ha : a.WellFormed) (gen : List Id) :
    { a with gen := gen }.WellFormed :=
  ⟨ha.consistent, ha.shaped, ha.alive, ha.allocated, ha.input, ha.output⟩

theorem WellFormed.draw {a a' : Area} (ha : a.WellFormed) {type : CommonGateType} {id : Id}
    {x y : Qreal} (h : a.draw type id x y = .ok a') : a'.WellFormed := by
  obtain ⟨tmpId, gen, htmp, _, _, rfl⟩ := draw_ok h
  split
  · exact (ha.gen gen).skipped
  · next ht => exact (ha.gen gen).drawn ht htmp

theorem DistinctIds.drawn {a : Area} (ha : a.WellFormed) (hd : a.DistinctIds)
    {type : CommonGateType} {id : Id} {x y : Qreal} (hnew : ∀ g ∈ a.m_gates.elems, g.id ≠ id) :
    (a.drawn type id x y).DistinctIds := by
  have hid : (Gate.drawn a.nextGate type id x y).id = id := by rw [Gate.drawn_eq]
  intro g hg g' hg' he
  rcases ha.mem_drawn.mp hg with hg | rfl <;> rcases ha.mem_drawn.mp hg' with hg' | rfl
  · exact hd g hg g' hg' he
  · exact absurd (he.trans hid) (hnew g hg)
  · exact absurd (he.symm.trans hid) (hnew g' hg')
  · rfl

/-! ## Deleting gates -/

/-- The hitboxes of a gate are alive. -/
theorem WellFormed.hitboxes_alive {a : Area} (ha : a.WellFormed) {g : Gate}
    (hg : g ∈ a.m_gates.elems) : ∀ box ∈ g.hitboxes, ∃ h, a.scene.hitbox box = some h :=
  fun box hbox => (ha.alive box).mpr ⟨g, hg, hbox⟩

/-- **Deleting a gate.**  Exactly the wires with an end on it go. -/
theorem WellFormed.removed {a : Area} (ha : a.WellFormed) {g : Gate} (hg : g ∈ a.m_gates.elems) :
    ∃ live, a.scene.destroyHitBoxes g.hitboxes =
        .ok ((a.scene.keep live).without g.hitboxes) ∧
      { a with
        scene := (a.scene.keep live).without g.hitboxes
        m_gates := a.m_gates.erase g.ptr }.WellFormed := by
  obtain ⟨live, hd, hcons, _⟩ :=
    Scene.destroyHitBoxes_spec ha.consistent (ha.shaped g hg).nodup (ha.hitboxes_alive hg)
  have hmem : ∀ {x}, x ∈ (a.m_gates.erase g.ptr).elems ↔ _ := KeySet.mem_erase
  refine ⟨live, hd, hcons, fun x hx => ha.shaped x (hmem.mp hx).1, fun box => ?_,
    fun x hx => ha.allocated x (hmem.mp hx).1, ha.input, ha.output⟩
  show (∃ h, ((a.scene.keep live).without g.hitboxes).hitbox box = some h) ↔ _
  by_cases hbox : box ∈ g.hitboxes
  · refine iff_of_false ?_ ?_
    · simp [Scene.without, hbox]
    · rintro ⟨x, hx, hb⟩
      obtain ⟨hx, hne⟩ := hmem.mp hx
      exact hne (((ha.shaped x hx).mem_hitboxes.mp hb).1.symm.trans
        ((ha.shaped g hg).mem_hitboxes.mp hbox).1)
  · have hold : (∃ h, ((a.scene.keep live).without g.hitboxes).hitbox box = some h) ↔
        ∃ h, a.scene.hitbox box = some h := by
      simp [Scene.without, hbox, Scene.keep]
    rw [hold, ha.alive box]
    constructor
    · rintro ⟨x, hx, hb⟩
      refine ⟨x, hmem.mpr ⟨hx, fun he => ?_⟩, hb⟩
      rw [KeySet.eq_of_key hx hg he] at hb
      exact hbox hb
    · rintro ⟨x, hx, hb⟩
      exact ⟨x, (hmem.mp hx).1, hb⟩

theorem DistinctIds.erase {a : Area} (hd : a.DistinctIds) (gate : GatePtr) (s : Scene) :
    { a with scene := s, m_gates := a.m_gates.erase gate }.DistinctIds :=
  fun g hg g' hg' he => hd g (KeySet.mem_erase.mp hg).1 g' (KeySet.mem_erase.mp hg').1 he

/-- Clearing empties the scene and keeps the pending pointers. -/
theorem WellFormed.cleared {a : Area} (ha : a.WellFormed) :
    ∃ s, a.clear = .ok { a with scene := s, m_gates := ∅ } ∧
      { a with scene := s, m_gates := ∅ }.WellFormed ∧
      s.input = a.scene.input ∧ s.output = a.scene.output ∧ (a.scene.Pending → s.Pending) := by
  have hloop : ∀ l (hl : l.Pairwise fun g g' : Gate => g.ptr < g'.ptr) (s : Scene),
      { a with scene := s, m_gates := ⟨l, hl⟩ }.WellFormed →
      ∃ s', l.foldlM (fun scene gate => scene.destroyHitBoxes gate.hitboxes) s = .ok s' ∧
        { a with scene := s', m_gates := ∅ }.WellFormed ∧
        s'.input = s.input ∧ s'.output = s.output ∧ (s.Pending → s'.Pending) := by
    intro l
    induction l with
    | nil => exact fun _ s hs => ⟨s, rfl, hs, rfl, rfl, id⟩
    | cons g l ih =>
      intro hl s hs
      obtain ⟨live, hd, hs₁⟩ := hs.removed (g := g) (List.mem_cons_self ..)
      rw [show (⟨g :: l, hl⟩ : KeySet Gate.ptr).erase g.ptr = _ from KeySet.erase_head hl] at hs₁
      obtain ⟨s', hfold, hs', hi, ho, hp⟩ := ih hl.of_cons _ hs₁
      refine ⟨s', ?_, hs', hi, ho, fun h => hp ((h.keep live).without _)⟩
      rw [List.foldlM_cons, show s.destroyHitBoxes g.hitboxes = _ from hd]
      exact hfold
  obtain ⟨s', hfold, hs', hrest⟩ := hloop a.m_gates.elems a.m_gates.sorted a.scene ha
  exact ⟨s', by simp [clear, hfold, bind, Except.bind], hs', hrest⟩

/-! ## Clicking -/

theorem WellFormed.clicked {a : Area} (ha : a.WellFormed) {this : HitBoxPtr} {s : Scene}
    (h : Scene.Clicked this a.scene s) : { a with scene := s }.WellFormed := by
  refine ⟨h.consistent ha.consistent, ha.shaped, fun box => (h.hitboxes box).trans (ha.alive box),
    ha.allocated, ?_, ?_⟩
  · cases h with
    | input _ hb _ _ =>
      rintro box ⟨rfl⟩
      exact ha.owner_lt hb
    | output => exact ha.input
    | _ => rintro box ⟨⟩
  · cases h with
    | input => exact ha.output
    | output _ hb _ =>
      rintro box ⟨rfl⟩
      exact ha.owner_lt hb
    | _ => rintro box ⟨⟩

/-! ## Pictures and colours -/

/-- A property of areas that pictures, colours and the simulation flag do not matter to. -/
structure DisplayFree (P : Area → Prop) : Prop where
  pixmap : ∀ a gate pixmap, P a → P (a.setPixmap gate pixmap)
  scene : ∀ a s, a.scene.Redrawn s → P a → P { a with scene := s }
  flag : ∀ a b, P a → P { a with simulatorFlag := b }

namespace DisplayFree

variable {P : Area → Prop} (hP : DisplayFree P)

include hP

theorem clearGate {a a' : Area} {it : Gate} (ha : P a) (h : a.clearGate it = .ok a') : P a' := by
  have ha₁ : P (if it.isOutput then a.setPixmap it.ptr .output else a) := by
    split
    · exact hP.pixmap a _ _ ha
    · exact ha
  simp only [Area.clearGate] at h
  cases hbox : it.getHitBox .output with
  | none =>
    rw [hbox] at h
    cases h
    exact ha₁
  | some hitbox =>
    rw [hbox] at h
    obtain ⟨b, _, h⟩ := Execution.bind_eq_ok h
    obtain ⟨s, hs, h⟩ := Execution.bind_eq_ok h
    cases h
    exact hP.scene _ s (Scene.foldlM_setColor hs) ha₁

theorem clearSimulate {a a' : Area} (ha : P a) (h : a.clearSimulate = .ok a') : P a' := by
  rw [Area.clearSimulate] at h
  split at h
  · exact Execution.foldlM_invariant (fun _ _ _ _ hs hc => hP.clearGate hs hc)
      (hP.flag a false ha) h
  · cases h
    exact ha

theorem showGate {sim : Simulator} {a a' : Area} {it : Gate} (ha : P a)
    (h : Area.showGate sim a it = .ok a') : P a' := by
  simp only [Area.showGate] at h
  split at h
  · cases h
    exact hP.pixmap a _ _ ha
  · cases hbox : it.getHitBox .output with
    | none => simp [hbox] at h
    | some hitbox =>
      rw [hbox] at h
      obtain ⟨b, _, h⟩ := Execution.bind_eq_ok h
      obtain ⟨s, hs, h⟩ := Execution.bind_eq_ok h
      cases h
      exact hP.scene a s (Scene.foldlM_setColor hs) ha

theorem simulate {a a' : Area} (ha : P a) (h : a.simulate = .ok a') : P a' := by
  obtain ⟨map, _, h⟩ := Execution.bind_eq_ok h
  split at h
  · cases h
  · exact Execution.foldlM_invariant (fun _ _ _ _ hs hc => hP.showGate hs hc)
      (hP.flag a true ha) h

end DisplayFree

theorem WellFormed.modify {a : Area} (ha : a.WellFormed) (gate : GatePtr) {f : Gate → Gate}
    (hf : ∀ g, (f g).ptr = g.ptr)
    (hshaped : ∀ g, g.Shaped → (f g).Shaped ∧ (f g).hitboxes = g.hitboxes) :
    { a with m_gates := a.m_gates.modify gate f hf }.WellFormed := by
  have hmem : ∀ {x}, x ∈ (a.m_gates.modify gate f hf).elems ↔ _ := KeySet.mem_modify
  have hto : ∀ g ∈ a.m_gates.elems, (if g.ptr = gate then f g else g).Shaped ∧
      (if g.ptr = gate then f g else g).hitboxes = g.hitboxes := by
    intro g hg
    split
    · exact hshaped g (ha.shaped g hg)
    · exact ⟨ha.shaped g hg, rfl⟩
  refine ⟨ha.consistent, fun x hx => ?_, fun box => (ha.alive box).trans ?_, fun x hx => ?_,
    ha.input, ha.output⟩
  · obtain ⟨g, hg, rfl⟩ := hmem.mp hx
    exact (hto g hg).1
  · constructor
    · rintro ⟨g, hg, hb⟩
      exact ⟨_, hmem.mpr ⟨g, hg, rfl⟩, (hto g hg).2 ▸ hb⟩
    · rintro ⟨x, hx, hb⟩
      obtain ⟨g, hg, rfl⟩ := hmem.mp hx
      exact ⟨g, hg, (hto g hg).2 ▸ hb⟩
  · obtain ⟨g, hg, rfl⟩ := hmem.mp hx
    show (if g.ptr = gate then f g else g).ptr < a.nextGate
    split
    · rw [hf]
      exact ha.allocated g hg
    · exact ha.allocated g hg

theorem DistinctIds.modify {a : Area} (hd : a.DistinctIds) (gate : GatePtr) {f : Gate → Gate}
    (hf : ∀ g, (f g).ptr = g.ptr) (hid : ∀ g, (f g).id = g.id) :
    { a with m_gates := a.m_gates.modify gate f hf }.DistinctIds := by
  have hto : ∀ g : Gate, (if g.ptr = gate then f g else g).id = g.id := by
    intro g
    split
    · exact hid g
    · rfl
  have hmem : ∀ {x}, x ∈ (a.m_gates.modify gate f hf).elems ↔ _ := KeySet.mem_modify
  intro x hx x' hx' he
  obtain ⟨g, hg, rfl⟩ := hmem.mp hx
  obtain ⟨g', hg', rfl⟩ := hmem.mp hx'
  rw [hto, hto] at he
  rw [hd g hg g' hg' he]

theorem displayFree_wellFormed : DisplayFree WellFormed where
  pixmap _ gate pixmap ha := ha.modify (f := fun g => { g with pixmap := pixmap }) gate
    (fun _ => rfl) fun _ hg => ⟨⟨hg.type, hg.hitboxes, hg.isOutput, hg.id⟩, rfl⟩
  scene _ _ hs ha :=
    ⟨ha.consistent.redrawn hs, ha.shaped, hs.hitbox ▸ ha.alive, ha.allocated, hs.input ▸ ha.input,
      hs.output ▸ ha.output⟩
  flag _ _ ha := ⟨ha.consistent, ha.shaped, ha.alive, ha.allocated, ha.input, ha.output⟩

theorem displayFree_distinctIds : DisplayFree DistinctIds where
  pixmap _ gate pixmap hd := hd.modify (f := fun g => { g with pixmap := pixmap }) gate
    (fun _ => rfl) (fun _ => rfl)
  scene _ _ _ hd := hd
  flag _ _ hd := hd

/-- The scene is the same but for its colours. -/
theorem displayFree_redrawn (s : Scene) : DisplayFree fun a => s.Redrawn a.scene where
  pixmap _ _ _ h := h
  scene _ _ h' h := h.trans h'
  flag _ _ h := h

theorem displayFree_pending : DisplayFree fun a => a.scene.Pending where
  pixmap _ _ _ hp := hp
  scene _ _ hs hp := hp.redrawn hs
  flag _ _ hp := hp

end Area

/-! ## Input states -/

theorem Gate.toggle_id (g : Gate) : g.toggle.id = g.id := by unfold toggle; split <;> rfl

theorem Gate.toggle_shaped (g : Gate) (hg : g.Shaped) :
    g.toggle.Shaped ∧ g.toggle.hitboxes = g.hitboxes := by
  obtain ⟨ht, hh, ho, hid⟩ := hg
  unfold toggle
  split
  · next h =>
    rw [h] at hh ho
    exact ⟨⟨by simp, hh, ho, hid⟩, rfl⟩
  · next h =>
    rw [h] at hh ho
    exact ⟨⟨by simp, hh, ho, hid⟩, rfl⟩
  · exact ⟨⟨ht, hh, ho, hid⟩, rfl⟩

end SimGate

import SimGate.Editor

/-!
# Deleting a gate

The destructor of a hitbox deletes wires, and the destructor of a wire calls back
into the hitboxes at both of its ends.  In a consistent scene the hitboxes of a
gate may go in any order: the wires that end on the gate are deleted, once each,
and every other wire stays as it is (`deleteGate_spec`).
-/

namespace SimGate

/-! ## The wires at some hitboxes -/

def GateHitBox.wires (h : GateHitBox) : List WirePtr := h.wire.toList ++ h.outputWires

namespace Scene

def wiresOf (s : Scene) (box : HitBoxPtr) : List WirePtr :=
  match s.hitbox box with
  | some h => h.wires
  | none => []

/-- The wires registered at some hitboxes, in the order in which these let them go. -/
def wiresAt (boxes : List HitBoxPtr) (s : Scene) : List WirePtr := boxes.flatMap s.wiresOf

namespace Consistent

variable {s : Scene} (hs : s.Consistent)

include hs

theorem mem_wiresOf {box : HitBoxPtr} {p : WirePtr} :
    p ∈ s.wiresOf box ↔ ∃ w, s.wire p = some w ∧ (w.input = box ∨ w.output = box) := by
  simp only [wiresOf]
  constructor
  · intro hp
    cases hb : s.hitbox box with
    | none => simp [hb] at hp
    | some h =>
      simp only [hb, GateHitBox.wires, List.mem_append, Option.mem_toList] at hp
      rcases hp with hp | hp
      · obtain ⟨w, hw, he⟩ := hs.ofWire box h p hb hp
        exact ⟨w, hw, Or.inl he⟩
      · obtain ⟨w, hw, he⟩ := hs.ofOutputs box h p hb hp
        exact ⟨w, hw, Or.inr he⟩
  · rintro ⟨w, hw, he⟩
    obtain ⟨⟨h, hb, hp⟩, h', hb', _⟩ := hs.registered p w hw
    rcases he with rfl | rfl
    · simp [hb, GateHitBox.wires, hp]
    · simp [hb', GateHitBox.wires, hs.mem_of_output hw hb']

theorem mem_wiresAt {boxes : List HitBoxPtr} {p : WirePtr} :
    p ∈ s.wiresAt boxes ↔
      ∃ w, s.wire p = some w ∧ (w.input ∈ boxes ∨ w.output ∈ boxes) := by
  simp only [wiresAt, List.mem_flatMap, hs.mem_wiresOf]
  constructor
  · rintro ⟨box, hbox, w, hw, he⟩
    refine ⟨w, hw, he.imp ?_ ?_⟩ <;> rintro rfl <;> exact hbox
  · rintro ⟨w, hw, hi | ho⟩
    · exact ⟨w.input, hi, w, hw, Or.inl rfl⟩
    · exact ⟨w.output, ho, w, hw, Or.inr rfl⟩

/-- A hitbox has either a wire of its own or a vector of wires. -/
theorem wiresOf_nodup (box : HitBoxPtr) : (s.wiresOf box).Nodup := by
  simp only [wiresOf]
  cases hb : s.hitbox box with
  | none => exact List.nodup_nil
  | some h =>
    cases hi : box.isInput with
    | true =>
      simp only [GateHitBox.wires, hs.input_outputWires hb hi, List.append_nil]
      cases h.wire <;> simp
    | false =>
      simp only [GateHitBox.wires, hs.output_wire hb hi, Option.toList_none, List.nil_append]
      exact hs.outputWires_nodup hb

/-- No wire is registered twice at the hitboxes of one gate: its ends belong to
different gates. -/
theorem wiresAt_nodup {boxes : List HitBoxPtr} (hnd : boxes.Nodup) {gate : GatePtr}
    (howner : ∀ box ∈ boxes, box.owner = gate) : (s.wiresAt boxes).Nodup := by
  rw [wiresAt, List.nodup_flatMap]
  refine ⟨fun box _ => hs.wiresOf_nodup box, hnd.imp_of_mem ?_⟩
  intro box box' hbox hbox' hne
  refine List.disjoint_left.mpr fun p hp hp' => ?_
  obtain ⟨w, hw, he⟩ := hs.mem_wiresOf.mp hp
  obtain ⟨w', hw', he'⟩ := hs.mem_wiresOf.mp hp'
  rw [hw] at hw'
  cases hw'
  obtain ⟨_, _, hends⟩ := hs.ends p w hw
  have hown := howner box hbox
  have hown' := howner box' hbox'
  rcases he with rfl | rfl <;> rcases he' with rfl | rfl
  · exact hne rfl
  · exact hends (hown.trans hown'.symm)
  · exact hends (hown'.trans hown.symm)
  · exact hne rfl

end Consistent

/-! ## Deleting wires one after the other -/

/-- What is kept depends on the wires alone that are alive. -/
theorem Consistent.keep_congr {s : Scene} (hs : s.Consistent) {f g : WirePtr → Bool}
    (h : ∀ p w, s.wire p = some w → f p = g p) : s.keep f = s.keep g := by
  simp only [Scene.keep, mk.injEq, and_true]
  constructor
  · funext box
    refine Option.map_congr fun b hb => ?_
    obtain ⟨wire, outputWires⟩ := b
    simp only [GateHitBox.keep, GateHitBox.mk.injEq]
    constructor
    · cases wire with
      | none => rfl
      | some p =>
        obtain ⟨w, hw, _⟩ := hs.ofWire box _ p hb rfl
        simp only [Option.filter_some, h p w hw]
    · refine List.filter_congr fun p hp => ?_
      obtain ⟨w, hw, _⟩ := hs.ofOutputs box _ p hb hp
      exact h p w hw
  · funext p
    cases hw : s.wire p with
    | none => simp
    | some w => rw [h p w hw]

/-- Each wire is deleted once: a wire that is gone cannot be deleted again. -/
theorem deleteWires_eq {s : Scene} (hs : s.Consistent) {ps : List WirePtr} (hnd : ps.Nodup)
    (halive : ∀ p ∈ ps, ∃ w, s.wire p = some w) :
    ps.foldlM (fun s p => s.deleteWire p) s = .ok (s.keep fun q => q ∉ ps) := by
  induction ps generalizing s with
  | nil => rw [keep_all s fun q => by simp]; rfl
  | cons p ps ih =>
    obtain ⟨hp, hnd⟩ := List.nodup_cons.mp hnd
    obtain ⟨⟨w, hw⟩, halive⟩ := List.forall_mem_cons.mp halive
    have hrest : ∀ q ∈ ps, ∃ v, (s.keep fun q => q ≠ p).wire q = some v := by
      intro q hq
      obtain ⟨v, hv⟩ := halive q hq
      have hne : q ≠ p := fun e => hp (e ▸ hq)
      exact ⟨v, keep_wire.mpr ⟨by simpa using hne, hv⟩⟩
    rw [List.foldlM_cons, deleteWire_eq hs hw]
    rw [← keep_cons]
    exact ih (hs.keep _) hnd hrest

/-- The scene `s` after the hitboxes `boxes` have gone: the wires with an end on
one of them are gone as well, and every other wire and hitbox is as it was. -/
structure Left (boxes : List HitBoxPtr) (s s' : Scene) : Prop where
  wire : ∀ p w, s'.wire p = some w ↔ s.wire p = some w ∧ w.input ∉ boxes ∧ w.output ∉ boxes
  gone : ∀ box ∈ boxes, s'.hitbox box = none
  hitbox : ∀ box, box ∉ boxes →
    s'.hitbox box = (s.hitbox box).map (GateHitBox.keep fun p => (s'.wire p).isSome)
  nextWire : s'.nextWire = s.nextWire
  input : s'.input = s.input
  output : s'.output = s.output

theorem Left.unique {boxes : List HitBoxPtr} {s t t' : Scene} (h : Left boxes s t)
    (h' : Left boxes s t') : t = t' := by
  have hwire : t.wire = t'.wire := by
    funext p
    exact Option.ext fun w => (h.wire p w).trans (h'.wire p w).symm
  have hhitbox : t.hitbox = t'.hitbox := by
    funext box
    by_cases hbox : box ∈ boxes
    · rw [h.gone box hbox, h'.gone box hbox]
    · rw [h.hitbox box hbox, h'.hitbox box hbox, hwire]
  have hnextWire := h.nextWire.trans h'.nextWire.symm
  have hinput := h.input.trans h'.input.symm
  have houtput := h.output.trans h'.output.symm
  cases t
  cases t'
  cases hwire
  cases hhitbox
  cases hnextWire
  cases hinput
  cases houtput
  rfl

theorem Left.perm {boxes boxes' : List HitBoxPtr} {s t : Scene} (h : Left boxes s t)
    (hperm : boxes.Perm boxes') : Left boxes' s t where
  wire p w := by rw [h.wire, hperm.mem_iff, hperm.mem_iff]
  gone box hbox := h.gone box (hperm.mem_iff.mpr hbox)
  hitbox box hbox := h.hitbox box (mt hperm.mem_iff.mp hbox)
  nextWire := h.nextWire
  input := h.input
  output := h.output

/-- **Hitboxes of a gate.**  Destroying them comes down to deleting the wires
registered at them one after the other. -/
theorem destroyHitBoxes_deletes {s : Scene} (hs : s.Consistent) {boxes : List HitBoxPtr}
    (hnd : boxes.Nodup) {gate : GatePtr} (howner : ∀ box ∈ boxes, box.owner = gate)
    (halive : ∀ box ∈ boxes, ∃ h, s.hitbox box = some h) :
    ∃ t, (s.wiresAt boxes).foldlM (fun s p => s.deleteWire p) s = .ok t ∧
      s.destroyHitBoxes boxes = .ok (t.without boxes) ∧ (t.without boxes).Consistent ∧
      Left boxes s (t.without boxes) := by
  obtain ⟨live, hd, hcons, hlive⟩ := destroyHitBoxes_spec hs hnd halive
  have hkeep : s.keep live = s.keep fun q => q ∉ s.wiresAt boxes := by
    refine hs.keep_congr fun p w hw => ?_
    rw [Bool.eq_iff_iff, hlive p w hw, decide_eq_true_eq, hs.mem_wiresAt]
    simp [hw, not_or]
  have hdel : (s.wiresAt boxes).foldlM (fun s p => s.deleteWire p) s = .ok (s.keep live) := by
    rw [hkeep]
    refine deleteWires_eq hs (hs.wiresAt_nodup hnd howner) fun p hp => ?_
    obtain ⟨w, hw, _⟩ := hs.mem_wiresAt.mp hp
    exact ⟨w, hw⟩
  have hwire : ∀ p w, (s.keep live).wire p = some w ↔
      s.wire p = some w ∧ w.input ∉ boxes ∧ w.output ∉ boxes := by
    intro p w
    rw [keep_wire, and_comm]
    exact and_congr_right fun hw => hlive p w hw
  refine ⟨s.keep live, hdel, hd, hcons, hwire, fun box hbox => if_pos hbox, fun box hbox => ?_,
    rfl, rfl, rfl⟩
  show (if box ∈ boxes then none else (s.keep live).hitbox box) = _
  rw [if_neg hbox]
  refine congrFun (congrArg Scene.hitbox (hs.keep_congr fun p w hw => ?_)) box
  show live p = ((s.keep live).wire p).isSome
  cases hl : live p <;> simp [keep, hl, hw]

theorem without_perm {boxes boxes' : List HitBoxPtr} (hperm : boxes.Perm boxes') (s : Scene) :
    s.without boxes = s.without boxes' := by
  simp only [without, hperm.mem_iff]

/-! ## Colouring after the deletion -/

theorem setColor_total {s : Scene} {p : WirePtr} {w : Wire} (hw : s.wire p = some w)
    (color : WireColor) : ∃ s', s.setColor color p = .ok s' :=
  ⟨_, by rw [setColor, derefWire_eq hw]; rfl⟩

/-- The wires of a hitbox can be coloured. -/
theorem Consistent.foldlM_setColor_total {s : Scene} (hs : s.Consistent) {box : HitBoxPtr}
    {h : GateHitBox} (hb : s.hitbox box = some h) (color : WireColor) :
    ∃ s', h.outputWires.foldlM (setColor color) s = .ok s' := by
  have hturn : ∀ p ∈ h.outputWires, ∀ t, s.Redrawn t →
      ∃ t', t.setColor color p = .ok t' ∧ s.Redrawn t' := by
    intro p hp t ht
    obtain ⟨w, hw, _⟩ := hs.ofOutputs box h p hb hp
    obtain ⟨w', hw', _⟩ := ht.symm.wire_of hw
    obtain ⟨t', ht'⟩ := setColor_total hw' color
    exact ⟨t', ht', ht.trans (setColor_redrawn ht')⟩
  obtain ⟨s', hs', _⟩ := Execution.foldlM_total hturn (.refl s)
  exact ⟨s', hs'⟩

end Scene

theorem Gate.mem_of_getHitBox {g : Gate} {slot : HitBoxType} {box : HitBoxPtr}
    (h : g.getHitBox slot = some box) : box ∈ g.hitboxes := by
  unfold Gate.getHitBox at h
  split at h <;> first | exact List.mem_of_getElem? h | cases h

namespace Area

/-- Every gate has hitboxes of its own, and they are alive. -/
structure Owning (a : Area) : Prop where
  nodup : ∀ g ∈ a.m_gates.elems, g.hitboxes.Nodup
  owner : ∀ g ∈ a.m_gates.elems, ∀ box ∈ g.hitboxes, box.owner = g.ptr
  alive : ∀ g ∈ a.m_gates.elems, ∀ box ∈ g.hitboxes, ∃ h, a.scene.hitbox box = some h

theorem WellFormed.owning {a : Area} (ha : a.WellFormed) : a.Owning where
  nodup g hg := (ha.shaped g hg).nodup
  owner g hg _ hbox := ((ha.shaped g hg).mem_hitboxes.mp hbox).1
  alive _ hg := ha.hitboxes_alive hg

theorem clearGate_total {s : Scene} (hs : s.Consistent) {it : Gate}
    (hit : ∀ box ∈ it.hitboxes, ∃ h, s.hitbox box = some h) {a : Area}
    (ha : s.Redrawn a.scene) : ∃ a', a.clearGate it = .ok a' := by
  have hscene : (if it.isOutput then a.setPixmap it.ptr .output else a).scene = a.scene := by
    split <;> rfl
  rw [clearGate]
  cases hbox : it.getHitBox .output with
  | none => exact ⟨_, rfl⟩
  | some box =>
    obtain ⟨h, hb⟩ := hit box (Gate.mem_of_getHitBox hbox)
    have hb' : a.scene.hitbox box = some h := ha.hitbox ▸ hb
    obtain ⟨s', hs'⟩ := (hs.redrawn ha).foldlM_setColor_total hb' .black
    simp only [hscene, Scene.deref_eq hb', bind, Except.bind, hs']
    exact ⟨_, rfl⟩

/-- `clearSimulate` only colours wires. -/
theorem clearSimulate_total {a : Area} (hs : a.scene.Consistent) (ho : a.Owning) :
    ∃ a', a.clearSimulate = .ok a' ∧ a.scene.Redrawn a'.scene ∧
      (a.simulatorFlag = false → a' = a) := by
  rw [clearSimulate]
  cases hflag : a.simulatorFlag with
  | false => exact ⟨a, rfl, .refl a.scene, fun _ => rfl⟩
  | true =>
    have hturn : ∀ it ∈ a.m_gates.elems, ∀ b : Area, a.scene.Redrawn b.scene →
        ∃ b', b.clearGate it = .ok b' ∧ a.scene.Redrawn b'.scene := by
      intro it hit b hb
      obtain ⟨b', hb'⟩ := clearGate_total hs (ho.alive it hit) hb
      exact ⟨b', hb', (displayFree_redrawn a.scene).clearGate hb hb'⟩
    obtain ⟨a', ha', hredrawn⟩ := Execution.foldlM_total hturn
      (s := { a with simulatorFlag := false }) (.refl a.scene)
    exact ⟨a', ha', hredrawn, fun h => by cases h⟩

theorem Owning.erase {a : Area} (ho : a.Owning) {g : Gate} (hg : g ∈ a.m_gates.elems) {s : Scene}
    (hs : Scene.Left g.hitboxes a.scene s) :
    { a with scene := s, m_gates := a.m_gates.erase g.ptr }.Owning where
  nodup x hx := ho.nodup x (KeySet.mem_erase.mp hx).1
  owner x hx := ho.owner x (KeySet.mem_erase.mp hx).1
  alive x hx box hbox := by
    obtain ⟨hx, hne⟩ := KeySet.mem_erase.mp hx
    have hother : box ∉ g.hitboxes := by
      intro hbox'
      exact hne ((ho.owner x hx box hbox).symm.trans (ho.owner g hg box hbox'))
    obtain ⟨h, hb⟩ := ho.alive x hx box hbox
    exact ⟨_, by rw [hs.hitbox box hother, hb]; rfl⟩

/-- **Deleting a gate.**  In whatever order its hitboxes are destroyed, the same
scene is left: exactly the wires with an end on the gate are deleted, each once (a
second `delete` of a wire is a fault), and the registrations are consistent again.
Clearing the simulation afterwards only colours wires. -/
theorem deleteGate_spec {a : Area} (hs : a.scene.Consistent) (ho : a.Owning) {g : Gate}
    (hg : g ∈ a.m_gates.elems) :
    ∃ s, s.Consistent ∧ Scene.Left g.hitboxes a.scene s ∧
      (∀ boxes, boxes.Perm g.hitboxes → a.scene.destroyHitBoxes boxes = .ok s ∧
        ∃ (ps : List WirePtr) (t : Scene), ps.Nodup ∧
          (∀ p, p ∈ ps ↔ ∃ w, a.scene.wire p = some w ∧
            (w.input ∈ g.hitboxes ∨ w.output ∈ g.hitboxes)) ∧
          ps.foldlM (fun s p => s.deleteWire p) a.scene = .ok t ∧ s = t.without g.hitboxes) ∧
      ∃ a', a.deleteGate g.ptr = .ok a' ∧ a'.scene.Consistent ∧ s.Redrawn a'.scene ∧
        (a.simulatorFlag = false → a'.scene = s) := by
  have hnd := ho.nodup g hg
  obtain ⟨t, _, hd, hcons, hleft⟩ :=
    Scene.destroyHitBoxes_deletes hs hnd (ho.owner g hg) (ho.alive g hg)
  refine ⟨t.without g.hitboxes, hcons, hleft, fun boxes hperm => ?_, ?_⟩
  · have howner : ∀ box ∈ boxes, box.owner = g.ptr :=
      fun box hbox => ho.owner g hg box (hperm.mem_iff.mp hbox)
    have hnd' := hperm.nodup_iff.mpr hnd
    obtain ⟨t', hdel, hd', _, hleft'⟩ := Scene.destroyHitBoxes_deletes hs hnd' howner
      fun box hbox => ho.alive g hg box (hperm.mem_iff.mp hbox)
    have hsame : t.without g.hitboxes = t'.without boxes := hleft.unique (hleft'.perm hperm)
    refine ⟨hd'.trans (by rw [hsame]), a.scene.wiresAt boxes, t', hs.wiresAt_nodup hnd' howner,
      fun p => ?_, hdel, hsame.trans (Scene.without_perm hperm t')⟩
    simp only [hs.mem_wiresAt, hperm.mem_iff]
  · have ho' := ho.erase hg hleft
    obtain ⟨a', ha', hredrawn, hflag⟩ := clearSimulate_total
      (a := { a with scene := t.without g.hitboxes, m_gates := a.m_gates.erase g.ptr }) hcons ho'
    refine ⟨a', ?_, hcons.redrawn hredrawn, hredrawn, fun h => by rw [hflag h]⟩
    rw [deleteGate, KeySet.find?_of_mem hg]
    simp only [hd, bind, Except.bind]
    exact ha'

/-- A NOT gate that reads an input state is read by the output and by another NOT
gate; all of it is simulated. -/
def fannedNot : List Action :=
  [.draw .not, .draw .not, .draw .highState, .click ⟨0, .input1⟩, .click ⟨1, .output⟩,
    .click ⟨2, .input1⟩, .click ⟨1, .output⟩, .click ⟨1, .input1⟩, .click ⟨3, .output⟩, .simulate]

theorem deleteGate_spec_fannedNot :
    ∃ a, create [7, 8, 9, 10] >>= Execution.runs step fannedNot = .ok a ∧
      ∃ g ∈ a.m_gates.elems, g.ptr = 1 ∧ g.hitboxes = [⟨1, .input1⟩, ⟨1, .output⟩] ∧
        ∃ s, s.Consistent ∧ Scene.Left g.hitboxes a.scene s ∧
          a.scene.destroyHitBoxes [⟨1, .input1⟩, ⟨1, .output⟩] = .ok s ∧
          a.scene.destroyHitBoxes [⟨1, .output⟩, ⟨1, .input1⟩] = .ok s ∧
          ∃ a', a.deleteGate 1 = .ok a' ∧ s.Redrawn a'.scene := by
  obtain ⟨a, ha, g, hg, hptr, hboxes⟩ :
      ∃ a, create [7, 8, 9, 10] >>= Execution.runs step fannedNot = .ok a ∧
        ∃ g ∈ a.m_gates.elems, g.ptr = 1 ∧ g.hitboxes = [⟨1, .input1⟩, ⟨1, .output⟩] :=
    ⟨_, rfl, _, List.mem_cons_of_mem _ (List.mem_cons_self ..), rfl, rfl⟩
  have hw := (runs_sound ha).wellFormed
  obtain ⟨s, hs, hleft, horder, a', ha', _, hredrawn, _⟩ :=
    deleteGate_spec hw.consistent hw.owning hg
  have hswap : [⟨1, .output⟩, ⟨1, .input1⟩].Perm g.hitboxes := hboxes ▸ List.Perm.swap ..
  refine ⟨a, ha, g, hg, hptr, hboxes, s, hs, hleft, ?_, (horder _ hswap).1, a', hptr ▸ ha',
    hredrawn⟩
  exact (horder _ (hboxes ▸ .refl _)).1

end Area

end SimGate

import SimGate.Circuit
import SimGate.Deleting
import SimGate.Display

/-!
# The editor edits circuits

Hitboxes, wires, their registrations and the display add nothing to the circuit of a
scheme: every action of the user, loads included, is the edit of the circuit that
`Area.edit` names, and it fails exactly where the edit has no next circuit.

* `step_simulated`: one action;
* `runs_circuit`: runs, and every list of edits is carried out by some run.
-/

namespace SimGate

open Execution

/-! ## Reading the circuit -/

namespace Scene

theorem Consistent.source_free {s : Scene} (hs : s.Consistent) {box : HitBoxPtr} {h : GateHitBox}
    (hb : s.hitbox box = some h) : s.source box = none ↔ h.wire = none := by
  cases hw : h.wire with
  | none => simp [source, hb, hw]
  | some p =>
    obtain ⟨w, hp, _⟩ := hs.ofWire box h p hb hw
    simp [source, hb, hw, hp]

/-- An input has one wire. -/
theorem Consistent.eq_of_input {s : Scene} (hs : s.Consistent) {p q : WirePtr} {w v : Wire}
    (hp : s.wire p = some w) (hq : s.wire q = some v) (h : w.input = v.input) : p = q := by
  obtain ⟨⟨b, hb, hbp⟩, _⟩ := hs.registered p w hp
  rw [h] at hb
  rw [hs.wire_of_input hq hb] at hbp
  exact (Option.some.inj hbp).symm

theorem Consistent.keep_source {s : Scene} (hs : s.Consistent) {live : WirePtr → Bool}
    {box : HitBoxPtr} {q : GatePtr} :
    (s.keep live).source box = some q ↔
      ∃ p w, s.wire p = some w ∧ live p = true ∧ w.input = box ∧ w.output.owner = q := by
  rw [(hs.keep live).source_eq_some]
  simp only [keep_wire, and_assoc, and_left_comm (a := live _ = true)]

theorem Redrawn.source {s s' : Scene} (h : s.Redrawn s') (hs : s.Consistent) :
    s'.source = s.source := by
  funext box
  refine Option.ext fun q => ?_
  rw [hs.source_eq_some, (hs.redrawn h).source_eq_some]
  constructor
  · rintro ⟨p, w, hw, hi, ho⟩
    obtain ⟨w₀, hw₀, hi₀, ho₀⟩ := h.wire_of hw
    exact ⟨p, w₀, hw₀, hi₀.trans hi, ho₀ ▸ ho⟩
  · rintro ⟨p, w, hw, hi, ho⟩
    obtain ⟨w₀, hw₀, hi₀, ho₀⟩ := h.symm.wire_of hw
    exact ⟨p, w₀, hw₀, hi₀.trans hi, ho₀ ▸ ho⟩

end Scene

namespace Area

/-- The circuit of a sound scheme. -/
structure Abstracts (a : Area) (c : Circuit) : Prop where
  sound : a.Sound
  circuit : a.circuit = c

variable {a : Area}

theorem WellFormed.hasBox_iff (ha : a.WellFormed) {box : HitBoxPtr} :
    a.circuit.HasBox box ↔ ∃ h, a.scene.hitbox box = some h := by
  rw [ha.alive]
  constructor
  · rintro ⟨p, hp, ho, ht⟩
    obtain ⟨g, hg, rfl⟩ := List.mem_map.mp hp
    exact ⟨g, hg, (ha.shaped g hg).mem_hitboxes.mpr ⟨ho, ht⟩⟩
  · rintro ⟨g, hg, hbox⟩
    exact ⟨g.part, List.mem_map_of_mem hg, (ha.shaped g hg).mem_hitboxes.mp hbox⟩

theorem hasPart_iff {gate : GatePtr} :
    a.circuit.HasPart gate ↔ ∃ g ∈ a.m_gates.elems, g.ptr = gate := by
  constructor
  · rintro ⟨p, hp, rfl⟩
    obtain ⟨g, hg, rfl⟩ := List.mem_map.mp hp
    exact ⟨g, hg, rfl⟩
  · rintro ⟨g, hg, rfl⟩
    exact ⟨g.part, List.mem_map_of_mem hg, rfl⟩

theorem getPart_eq (id : Id) : a.circuit.getPart id = (a.getGate id).map Gate.part := by
  rw [Circuit.getPart, getGate, circuit, List.find?_map]
  rfl

theorem slotId_part (g : Gate) (slot : HitBoxType) :
    a.circuit.slotId g.part slot = a.slotId g slot := by
  have hsource : a.circuit.source ⟨g.part.ptr, slot⟩ = a.scene.source ⟨g.ptr, slot⟩ := rfl
  have hparts : a.circuit.parts = a.m_gates.elems.map Gate.part := rfl
  rw [Circuit.slotId, slotId, hsource]
  cases a.scene.source ⟨g.ptr, slot⟩ with
  | none => rfl
  | some q =>
    simp only [hparts, List.find?_map, Option.map_map]
    rfl

@[simp] theorem entry_id (a : Area) (g : Gate) : (a.entry g).id = g.id := CommonData.create_id ..

@[simp] theorem entry_type (a : Area) (g : Gate) : (a.entry g).first.type = g.type :=
  CommonData.create_type ..

theorem DistinctIds.find_simMap (hd : a.DistinctIds) {g : Gate} (hg : g ∈ a.m_gates.elems) :
    a.simMap.find? g.id = some (a.entry g) := hd.simMap.2 g hg

theorem WellFormed.complete_iff (ha : a.WellFormed) :
    a.circuit.Complete ↔ a.SecondsConnected := by
  constructor
  · intro hc g hg htwo
    exact ha.connected_iff.mpr (hc g.part (List.mem_map_of_mem hg) htwo)
  · intro hc p hp htwo
    obtain ⟨g, hg, rfl⟩ := List.mem_map.mp hp
    exact ha.connected_iff.mp (hc g hg htwo)

/-- What the simulator and the table get is a matter of the circuit. -/
theorem WellFormed.simMap_simulated (ha : a.WellFormed) :
    Simulated Eq a.createSimMap a.circuit.simMap := by
  rw [Circuit.simMap]
  split
  · next hc =>
    rw [ha.createSimMap_eq (ha.complete_iff.mp hc)]
    refine .step (congrArg KeySet.ofList ?_)
    rw [circuit, List.map_map]
    refine List.map_congr_left fun g _ => ?_
    show a.entry g = a.circuit.entry g.part
    rw [entry, Circuit.entry, slotId_part, slotId_part]
    rfl
  · next hc =>
    cases hm : a.createSimMap with
    | error e => exact .stuck e
    | ok map => exact absurd (ha.complete_iff.mpr (ha.secondsConnected_of_map hm)) hc

/-! ## Clicks -/

theorem Sound.pending_cases (ha : a.Sound) :
    a.scene.input = none ∧ a.scene.output = none ∧ a.circuit.pending = none ∨
      (∃ i, a.scene.input = some i ∧ a.scene.output = none ∧ a.circuit.pending = some i ∧
        i.isInput = true) ∨
      ∃ o, a.scene.input = none ∧ a.scene.output = some o ∧ a.circuit.pending = some o ∧
        o.isInput = false := by
  have hp := ha.pending
  cases hin : a.scene.input with
  | none =>
    cases hout : a.scene.output with
    | none => exact Or.inl ⟨rfl, rfl, by simp [circuit, hin, hout]⟩
    | some o => exact Or.inr (Or.inr ⟨o, rfl, rfl, by simp [circuit, hin, hout], hp.output o hout⟩)
  | some i =>
    have hout : a.scene.output = none := hp.one.resolve_left (by simp [hin])
    exact Or.inr (Or.inl ⟨i, rfl, hout, by simp [circuit, hin], (hp.input i hin).1⟩)

/-- The second click of a connection. -/
theorem Sound.connectRef_simulated (ha : a.Sound) {t : Scene} {i o : HitBoxPtr}
    (hin : t.input = some i) (hout : t.output = some o) (ht : t.reset = a.scene.reset)
    (hii : i.isInput = true) (hoo : o.isInput = false)
    (hfree : ∀ h, a.scene.hitbox i = some h → h.wire = none) :
    Simulated (fun s c => { a with scene := s }.circuit = c) t.hitBoxConnectRef
      (if a.circuit.HasBox i ∧ a.circuit.HasBox o then some (a.circuit.plug i o) else none) := by
  have hbox : t.hitbox = a.scene.hitbox :=
    (congrArg Scene.hitbox ht : t.reset.hitbox = a.scene.reset.hitbox)
  have hconn : (t.connect i o).reset = (a.scene.connect i o).reset :=
    (congrArg (Scene.connect i o) ht : t.reset.connect i o = a.scene.reset.connect i o)
  have halive : a.circuit.HasBox i ∧ a.circuit.HasBox o ↔
      (∃ h, a.scene.hitbox i = some h) ∧ ∃ h, a.scene.hitbox o = some h :=
    and_congr ha.wellFormed.hasBox_iff ha.wellFormed.hasBox_iff
  cases hr : t.hitBoxConnectRef with
  | error e =>
    rw [if_neg]
    · exact .stuck e
    · intro hboxes
      obtain ⟨⟨hi, hbi⟩, ho, hbo⟩ := halive.mp hboxes
      rw [Scene.hitBoxConnectRef_eq hin hout hii hoo (hbox ▸ hbi) (hbox ▸ hbo)] at hr
      cases hr
  | ok s =>
    obtain ⟨⟨hi, hbi⟩, ho, hbo⟩ := Scene.hitBoxConnectRef_ok hr hin hout
    rw [Scene.hitBoxConnectRef_eq hin hout hii hoo hbi hbo, ht, hconn] at hr
    rw [hbox] at hbi hbo
    rw [if_pos (halive.mpr ⟨⟨hi, hbi⟩, ho, hbo⟩), ← Except.ok.inj hr, Circuit.plug]
    refine .step ?_
    split
    · rfl
    · next hne =>
      have hsource : (a.scene.connect i o).source =
          Function.update a.scene.source i (some o.owner) := by
        funext box
        rw [Scene.connect_source ha.wellFormed.consistent hii hoo hne hbi (hfree hi hbi) hbo,
          Function.update_apply]
      exact Circuit.ext rfl hsource rfl rfl rfl rfl

/-- **One click.** -/
theorem Sound.released_simulated (ha : a.Sound) {box : HitBoxPtr} {h : GateHitBox}
    (hb : a.scene.hitbox box = some h) :
    Simulated (fun s c => { a with scene := s }.circuit = c) (a.scene.released box)
      (a.circuit.click box) := by
  have hhas : a.circuit.HasBox box := ha.wellFormed.hasBox_iff.mpr ⟨h, hb⟩
  have hsource : a.circuit.source box = none ↔ h.wire = none :=
    ha.wellFormed.consistent.source_free hb
  cases hi : box.isInput with
  | true =>
    cases hw : h.wire with
    | some p =>
      have htaken : a.circuit.source box ≠ none := by simp [hsource, hw]
      rw [Scene.released_taken hb hi hw, Circuit.click_taken hhas hi htaken]
      exact .step rfl
    | none =>
      have hfree := fun _ : box.isInput = true => hsource.mpr hw
      rw [Scene.released_input hb hi hw]
      rcases ha.pending_cases with
        ⟨hin, hout, hp⟩ | ⟨i, hin, hout, hp, hii⟩ | ⟨o, hin, hout, hp, hoo⟩
      · have hnone := Scene.hitBoxConnectRef_none (s := { a.scene with input := some box })
          (Or.inr hout)
        rw [Circuit.click_first hhas hfree hp, hin, hnone]
        exact .step rfl
      · rw [Circuit.click_same hhas hfree hp (hii.trans hi.symm), hin]
        exact .step rfl
      · have hself : ∀ h', a.scene.hitbox box = some h' → h'.wire = none := by
          intro h' hb'
          rw [hb] at hb'
          cases hb'
          exact hw
        have hconn := ha.connectRef_simulated (t := { a.scene with input := some box }) rfl hout rfl
          hi hoo hself
        simp only [hhas, true_and] at hconn
        rw [Circuit.click_second hhas hfree hp (by simp [hi, hoo]), hin]
        simpa only [hi, if_true, Option.isSome_none, Bool.false_eq_true, if_false] using hconn
  | false =>
    have hfree : box.isInput = true → a.circuit.source box = none := by simp [hi]
    rw [Scene.released_output hb hi]
    rcases ha.pending_cases with ⟨hin, hout, hp⟩ | ⟨i, hin, hout, hp, hii⟩ | ⟨o, hin, hout, hp, hoo⟩
    · have hnone := Scene.hitBoxConnectRef_none (s := { a.scene with output := some box })
        (Or.inl hin)
      rw [Circuit.click_first hhas hfree hp, hout, hnone]
      exact .step (congrArg (fun i : Option HitBoxPtr =>
        { a.circuit with pending := i.or (some box) }) hin)
    · have hconn := ha.connectRef_simulated (t := { a.scene with output := some box }) hin rfl rfl
        hii hi (ha.pending.input i hin).2
      simp only [hhas, and_true] at hconn
      rw [Circuit.click_second hhas hfree hp (by simp [hi, hii]), hout]
      simpa only [hi, Option.isSome_none, Bool.false_eq_true, if_false] using hconn
    · rw [Circuit.click_same hhas hfree hp (hoo.trans hi.symm), hout]
      exact .step rfl

theorem click_simulated {c : Circuit} (h : Abstracts a c) (box : HitBoxPtr) :
    Simulated Abstracts (a.click box) (c.click box) := by
  obtain ⟨ha, rfl⟩ := h
  rw [click]
  cases hb : a.scene.hitbox box with
  | none =>
    have hmiss : ¬ a.circuit.HasBox box := by simp [ha.wellFormed.hasBox_iff, hb]
    rw [Circuit.click, if_pos hmiss]
    exact .step ⟨ha, rfl⟩
  | some b =>
    have hclick := ha.released_simulated hb
    cases hr : a.scene.released box with
    | error e =>
      rw [hclick.of_error hr]
      exact .stuck e
    | ok s =>
      obtain ⟨c, hc, hs⟩ := hclick.of_ok hr
      rw [hc]
      exact .step ⟨ha.released hr, hs⟩

/-! ## Drawing -/

theorem taken_circuit (a : Area) : a.Taken (a.circuit.parts.map Part.id) := by
  intro id
  rw [circuit, List.map_map, List.mem_map]
  rfl

theorem drawEntity_eq {taken : List Id} (ht : a.Taken taken) {e : Entity} {id : Id}
    {gen : List Id} (hg : e.given taken a.gen = some (id, gen)) :
    a.drawEntity e = .ok (if e.type = .enumSize then { a with gen := gen }.skipped
      else { a with gen := gen }.drawn e.type id e.x e.y) := by
  unfold Entity.given at hg
  unfold drawEntity
  split at hg
  · next hid =>
    have hgen := generateId_eq ht a.gen
    rw [hg] at hgen
    rw [hid, draw_generated _ _ hgen, draw_eq (generateId_ok hgen).1]
  · next hid =>
    cases hg
    exact draw_eq hid

theorem withNew_source {s : Scene} {boxes : List HitBoxPtr}
    (hboxes : ∀ box ∈ boxes, s.hitbox box = none) : (s.withNew boxes).source = s.source := by
  funext box
  unfold Scene.source
  simp only [Scene.withNew]
  split
  · next hbox =>
    rw [hboxes box hbox]
    rfl
  · rfl

theorem WellFormed.circuit_drawn (ha : a.WellFormed) (type : CommonGateType) (id : Id)
    (x y : Qreal) :
    (a.drawn type id x y).circuit = { a.circuit with
      parts := a.circuit.parts ++ [⟨a.nextGate, type, id⟩]
      next := a.nextGate + 1 } := by
  have hpart : (Gate.drawn a.nextGate type id x y).part = ⟨a.nextGate, type, id⟩ := by
    rw [Gate.drawn_eq]
    rfl
  have hlast : (a.m_gates.insert (Gate.drawn a.nextGate type id x y)).elems =
      a.m_gates.elems ++ [Gate.drawn a.nextGate type id x y] := by
    refine KeySet.elems_insert_last fun g hg => ?_
    rw [Gate.drawn_eq]
    exact ha.allocated g hg
  have hnew : ∀ box ∈ (hitBoxTypes type).map (HitBoxPtr.mk a.nextGate),
      a.scene.hitbox box = none := by
    intro box hbox
    obtain ⟨t, _, rfl⟩ := List.mem_map.mp hbox
    refine Option.eq_none_iff_forall_ne_some.mpr fun h hb => ?_
    exact absurd (ha.owner_lt hb) (Nat.lt_irrefl _)
  refine Circuit.ext ?_ (withNew_source hnew) rfl rfl rfl rfl
  show (a.m_gates.insert _).elems.map Gate.part = a.m_gates.elems.map Gate.part ++ _
  rw [hlast, List.map_append, List.map_cons, hpart, List.map_nil]

theorem drawEntity_simulated {c : Circuit} (h : Abstracts a c) (e : Entity) :
    Simulated Abstracts (a.drawEntity e) (c.drawEntity e) := by
  obtain ⟨ha, rfl⟩ := h
  have ht := taken_circuit a
  have hgen : a.circuit.gen = a.gen := rfl
  rw [Circuit.drawEntity, hgen]
  cases hg : e.given (a.circuit.parts.map Part.id) a.gen with
  | none =>
    cases hd : a.drawEntity e with
    | error err => exact .stuck err
    | ok a' =>
      obtain ⟨_, _, hg', _⟩ := drawEntity_given ht hd
      rw [hg] at hg'
      cases hg'
  | some r =>
    obtain ⟨id, gen⟩ := r
    have hd := drawEntity_eq ht hg
    have hsound : ∀ a', a.drawEntity e = .ok a' → a'.Sound := fun a' h => ha.draw h
    rw [hd] at hsound ⊢
    refine .step ⟨hsound _ rfl, ?_⟩
    split
    · rfl
    · rw [(ha.wellFormed.gen gen).circuit_drawn]
      rfl

/-! ## Deleting -/

theorem deleteWire_simulated {c : Circuit} (h : Abstracts a c) (wire : WirePtr) :
    Simulated Abstracts (a.deleteWire wire) (c.step (a.edit (.deleteWire wire))) := by
  obtain ⟨ha, rfl⟩ := h
  have hs := ha.wellFormed.consistent
  rw [deleteWire, edit]
  cases hw : a.scene.wire wire with
  | none => exact .step ⟨ha, rfl⟩
  | some w =>
    simp only [Scene.deleteWire_eq hs hw, bind, Except.bind]
    refine .step ⟨⟨ha.wellFormed.keep _, ha.pending.keep _⟩, ?_⟩
    have hsource : (a.scene.keep fun q => q ≠ wire).source =
        Function.update a.scene.source w.input none := by
      funext box
      refine Option.ext fun q => ?_
      rw [hs.keep_source, Function.update_apply]
      by_cases hbox : box = w.input
      · rw [if_pos hbox]
        refine iff_of_false ?_ (by simp)
        rintro ⟨p, v, hv, hlive, hi, _⟩
        exact absurd (hs.eq_of_input hv hw (hi.trans hbox)) (by simpa using hlive)
      · rw [if_neg hbox, hs.source_eq_some]
        constructor
        · rintro ⟨p, v, hv, _, hends⟩
          exact ⟨p, v, hv, hends⟩
        · rintro ⟨p, v, hv, hi, ho⟩
          refine ⟨p, v, hv, ?_, hi, ho⟩
          have hne : p ≠ wire := by
            rintro rfl
            rw [hw] at hv
            cases hv
            exact hbox hi.symm
          simpa using hne
    exact Circuit.ext rfl hsource rfl rfl rfl rfl

/-- The circuit apart from the flag of the simulator. -/
theorem displayFree_circuit (c : Circuit) : DisplayFree fun a =>
    a.WellFormed ∧ { a.circuit with simulated := false } = c where
  pixmap a gate pixmap h := by
    refine ⟨displayFree_wellFormed.pixmap a gate pixmap h.1, ?_⟩
    rw [← h.2]
    have hparts : (a.setPixmap gate pixmap).m_gates.elems.map Gate.part =
        a.m_gates.elems.map Gate.part := by
      show (a.m_gates.elems.map _).map Gate.part = _
      rw [List.map_map]
      refine List.map_congr_left fun g _ => ?_
      simp only [Function.comp_apply]
      split <;> rfl
    exact Circuit.ext hparts rfl rfl rfl rfl rfl
  scene a s hs h := by
    refine ⟨displayFree_wellFormed.scene a s hs h.1, ?_⟩
    rw [← h.2]
    have hpending : s.input.or s.output = a.scene.input.or a.scene.output := by
      rw [hs.input, hs.output]
    exact Circuit.ext rfl (hs.source h.1.consistent) hpending rfl rfl rfl
  flag a b h := ⟨displayFree_wellFormed.flag a b h.1, h.2⟩

theorem clearSimulate_flag (ha : a.WellFormed) {a' : Area} (h : a.clearSimulate = .ok a') :
    a'.simulatorFlag = false := by
  rw [clearSimulate] at h
  split at h
  · exact (paintAll_displays (fun _ => .unknown) clearGate_ok
      (displayFree_wellFormed.flag a false ha) h).2
  · next hflag =>
    cases h
    simpa using hflag

theorem clearSimulate_circuit (ha : a.WellFormed) {a' : Area} (h : a.clearSimulate = .ok a') :
    a'.circuit = { a.circuit with simulated := false } := by
  rw [← ((displayFree_circuit _).clearSimulate (a := a) ⟨ha, rfl⟩ h).2]
  exact Circuit.ext rfl rfl rfl (clearSimulate_flag ha h) rfl rfl

theorem clearSimulate_simulated {c : Circuit} (h : Abstracts a c) :
    Simulated Abstracts a.clearSimulate (some { c with simulated := false }) := by
  obtain ⟨ha, rfl⟩ := h
  obtain ⟨a', h', _⟩ := clearSimulate_total ha.wellFormed.consistent ha.wellFormed.owning
  rw [h']
  exact .step ⟨displayFree_sound.clearSimulate ha h', clearSimulate_circuit ha.wellFormed h'⟩

theorem WellFormed.mem_hitboxes (ha : a.WellFormed) {g : Gate} (hg : g ∈ a.m_gates.elems)
    {box : HitBoxPtr} {h : GateHitBox} (hb : a.scene.hitbox box = some h) :
    box ∈ g.hitboxes ↔ box.owner = g.ptr := by
  constructor
  · intro hbox
    exact ((ha.shaped g hg).mem_hitboxes.mp hbox).1
  · intro howner
    obtain ⟨g', hg', hbox⟩ := (ha.alive box).mp ⟨h, hb⟩
    have hsame := KeySet.eq_of_key hg' hg (((ha.shaped g' hg').mem_hitboxes.mp hbox).1.symm.trans
      howner)
    exact hsame ▸ hbox

/-- What is read when the hitboxes of a gate are gone. -/
theorem WellFormed.source_removed (ha : a.WellFormed) {g : Gate} (hg : g ∈ a.m_gates.elems)
    {s : Scene} (hd : a.scene.destroyHitBoxes g.hitboxes = .ok s) :
    s.source = fun box =>
      if box.owner = g.ptr ∨ a.scene.source box = some g.ptr then none else a.scene.source box := by
  have hs := ha.consistent
  obtain ⟨live, hd', hcons, hlive⟩ :=
    Scene.destroyHitBoxes_spec hs (ha.shaped g hg).nodup (ha.hitboxes_alive hg)
  cases hd.symm.trans hd'
  have hends : ∀ p w, a.scene.wire p = some w →
      (live p = true ↔ w.input.owner ≠ g.ptr ∧ w.output.owner ≠ g.ptr) := by
    intro p w hw
    obtain ⟨⟨hi, hbi, _⟩, ho, hbo, _⟩ := hs.registered p w hw
    rw [hlive p w hw, ha.mem_hitboxes hg hbi, ha.mem_hitboxes hg hbo]
  funext box
  refine Option.ext fun q => ?_
  rw [hcons.source_eq_some]
  constructor
  · rintro ⟨p, w, hw, rfl, rfl⟩
    obtain ⟨hl, hw⟩ := Scene.keep_wire.mp hw
    obtain ⟨hi, ho⟩ := (hends p w hw).mp hl
    have hsource := hs.source_eq_some.mpr ⟨p, w, hw, rfl, rfl⟩
    rw [hsource, if_neg]
    rintro (h | h)
    · exact hi h
    · exact ho (Option.some.inj h)
  · intro h
    split at h
    · cases h
    · next hne =>
      obtain ⟨p, w, hw, rfl, rfl⟩ := hs.source_eq_some.mp h
      rw [h, not_or] at hne
      have hl := (hends p w hw).mpr ⟨hne.1, fun he => hne.2 (congrArg some he)⟩
      exact ⟨p, w, Scene.keep_wire.mpr ⟨hl, hw⟩, rfl, rfl⟩

theorem deleteGate_simulated {c : Circuit} (h : Abstracts a c) (gate : GatePtr) :
    Simulated Abstracts (a.deleteGate gate) (some (c.remove gate)) := by
  obtain ⟨ha, rfl⟩ := h
  rw [Circuit.remove, deleteGate]
  cases hg : a.m_gates.find? gate with
  | none =>
    rw [if_neg]
    · exact .step ⟨ha, rfl⟩
    · rw [hasPart_iff]
      rintro ⟨g, hmem, hptr⟩
      exact KeySet.find?_eq_none.mp hg g hmem hptr
  | some g =>
    obtain ⟨hmem, rfl⟩ := KeySet.find?_eq_some.mp hg
    rw [if_pos (hasPart_iff.mpr ⟨g, hmem, rfl⟩)]
    obtain ⟨live, hd, hw⟩ := ha.wellFormed.removed hmem
    have hsource := ha.wellFormed.source_removed hmem hd
    have hparts : (a.m_gates.erase g.ptr).elems.map Gate.part =
        (a.m_gates.elems.map Gate.part).filter fun p : Part => p.ptr ≠ g.ptr := by
      rw [List.filter_map]
      rfl
    have hcircuit : { a with
        scene := (a.scene.keep live).without g.hitboxes
        m_gates := a.m_gates.erase g.ptr }.circuit =
        ⟨(a.m_gates.elems.map Gate.part).filter fun p => p.ptr ≠ g.ptr,
          fun box => if box.owner = g.ptr ∨ a.scene.source box = some g.ptr then none
            else a.scene.source box,
          a.circuit.pending, a.simulatorFlag, a.nextGate, a.gen⟩ :=
      Circuit.ext hparts hsource rfl rfl rfl rfl
    simp only [hd, bind, Except.bind]
    exact clearSimulate_simulated
      ⟨⟨hw, (ha.pending.keep live).without g.hitboxes⟩, hcircuit⟩

/-! ## Simulating -/

theorem run_ready {map : SimMap} (hready : map.Ready) :
    ∃ s, SimState.run (map.size + 1) (.start map) = .ok s := by
  obtain ⟨t, ht, _, _⟩ := traversal_total map
  obtain ⟨s, hs, _⟩ := simLoop_refines hready (.start map) (Demand.Done.start _) ht
  exact ⟨s, hs⟩

theorem showGate_total {s : Scene} (hs : s.Consistent) {it : Gate} (hit : it.Shaped)
    (halive : ∀ box ∈ it.hitboxes, ∃ h, s.hitbox box = some h) (sim : Simulator)
    (ha : s.Redrawn a.scene) : ∃ a', showGate sim a it = .ok a' := by
  rw [showGate]
  cases ho : it.isOutput with
  | true => exact ⟨_, rfl⟩
  | false =>
    have hslot : HitBoxType.output ∈ hitBoxTypes it.type := by
      have hne : it.type ≠ .output := by simpa [hit.isOutput] using ho
      have ht := hit.type
      cases h : it.type <;> simp_all [hitBoxTypes]
    have hbox := hit.getHitBox hslot
    obtain ⟨h, hb⟩ := halive _ (Gate.mem_of_getHitBox hbox)
    have hb' : a.scene.hitbox ⟨it.ptr, .output⟩ = some h := ha.hitbox ▸ hb
    obtain ⟨s', hs'⟩ :=
      (hs.redrawn ha).foldlM_setColor_total hb' (valueColor (sim.getValue it.id))
    simp only [Bool.false_eq_true, if_false, hbox, Scene.deref_eq hb', bind, Except.bind, hs']
    exact ⟨_, rfl⟩

theorem simulate_total (ha : a.WellFormed) (hc : a.SecondsConnected) :
    ∃ a', a.simulate = .ok a' := by
  have hmap : a.createSimMap = .ok a.simMap := ha.createSimMap_eq hc
  obtain ⟨s, hs⟩ := run_ready (simMap_ready a)
  have hturn : ∀ it ∈ a.m_gates.elems, ∀ b : Area, a.scene.Redrawn b.scene →
      ∃ b', showGate s.sim b it = .ok b' ∧ a.scene.Redrawn b'.scene := by
    intro it hit b hb
    obtain ⟨b', hb'⟩ := showGate_total ha.consistent (ha.shaped it hit)
      (ha.owning.alive it hit) s.sim hb
    exact ⟨b', hb', (displayFree_redrawn a.scene).showGate hb hb'⟩
  obtain ⟨a', ha', _⟩ := Execution.foldlM_total hturn
    (s := { a with simulatorFlag := true }) (.refl a.scene)
  refine ⟨a', ?_⟩
  simp only [simulate, hmap, bind, Except.bind, hs]
  exact ha'

theorem simulate_flag (ha : a.WellFormed) {a' : Area} (h : a.simulate = .ok a') :
    a'.simulatorFlag = true := by
  obtain ⟨map, hm, h⟩ := bind_eq_ok h
  split at h
  · cases h
  · next s _ =>
    exact (paintAll_displays s.sim.getValue (showGate_ok s.sim)
      (displayFree_wellFormed.flag a true ha) h).2

/-- **Simulating** fails exactly when a second input is free. -/
theorem simulate_simulated {c : Circuit} (h : Abstracts a c) :
    Simulated Abstracts a.simulate c.simulate := by
  obtain ⟨ha, rfl⟩ := h
  have hw := ha.wellFormed
  rw [Circuit.simulate]
  split
  · next hc =>
    obtain ⟨a', h'⟩ := simulate_total hw (hw.complete_iff.mp hc)
    rw [h']
    refine .step ⟨displayFree_sound.simulate ha h', ?_⟩
    have hfree := ((displayFree_circuit _).simulate (a := a) ⟨hw, rfl⟩ h').2
    have hflag : a'.circuit = { ({ a'.circuit with simulated := false } : Circuit) with
        simulated := true } := Circuit.ext rfl rfl rfl (simulate_flag hw h') rfl rfl
    rw [hflag, hfree]
  · next hc =>
    cases hs : a.simulate with
    | error e => exact .stuck e
    | ok a' =>
      obtain ⟨map, hm, _⟩ := bind_eq_ok hs
      exact absurd (hw.complete_iff.mpr (hw.secondsConnected_of_map hm)) hc

theorem toggle_simulated {c : Circuit} (h : Abstracts a c) (gate : GatePtr) :
    Simulated Abstracts (a.changeTypeInput gate) (c.toggle gate) := by
  obtain ⟨ha, rfl⟩ := h
  rw [Circuit.toggle, changeTypeInput]
  cases hg : a.m_gates.find? gate with
  | none =>
    have hnone : ¬ a.circuit.HasPart gate := by
      rw [hasPart_iff]
      rintro ⟨g, hmem, hptr⟩
      exact KeySet.find?_eq_none.mp hg g hmem hptr
    rw [if_neg hnone]
    exact .step ⟨ha, rfl⟩
  | some g =>
    obtain ⟨hmem, rfl⟩ := KeySet.find?_eq_some.mp hg
    have hparts : (a.m_gates.modify g.ptr Gate.toggle Gate.toggle_ptr).elems.map Gate.part =
        (a.m_gates.elems.map Gate.part).map fun p : Part =>
          if p.ptr = g.ptr then p.toggle else p := by
      show (a.m_gates.elems.map _).map Gate.part = _
      rw [List.map_map, List.map_map]
      refine List.map_congr_left fun x _ => ?_
      have htoggle : x.toggle.part = x.part.toggle := by
        obtain ⟨_, type, _, _, _, _, _, _, _⟩ := x
        cases type <;> rfl
      show Gate.part (if x.ptr = g.ptr then x.toggle else x) =
        if x.ptr = g.ptr then x.part.toggle else x.part
      split
      · exact htoggle
      · rfl
    have hb : Abstracts { a with m_gates := a.m_gates.modify g.ptr Gate.toggle Gate.toggle_ptr }
        ⟨(a.m_gates.elems.map Gate.part).map fun p => if p.ptr = g.ptr then p.toggle else p,
          a.scene.source, a.circuit.pending, a.simulatorFlag, a.nextGate, a.gen⟩ :=
      ⟨⟨ha.wellFormed.modify g.ptr Gate.toggle_ptr Gate.toggle_shaped, ha.pending⟩,
        Circuit.ext hparts rfl rfl rfl rfl rfl⟩
    rw [if_pos (hasPart_iff.mpr ⟨g, hmem, rfl⟩)]
    show Simulated _ (if a.simulatorFlag then _ else _) (if a.simulatorFlag then _ else _)
    split
    · exact simulate_simulated hb
    · exact .step hb

/-! ## Loading -/

theorem connectSlot_simulated {c : Circuit} (h : Abstracts a c) {g : Gate}
    (hg : g ∈ a.m_gates.elems) (slot : HitBoxType) (id : Id) :
    Simulated Abstracts (a.emitReleased g slot id) (c.connectSlot g.part slot id) := by
  obtain ⟨ha, rfl⟩ := h
  rw [ha.wellFormed.emitReleased_eq hg, Circuit.connectSlot, getPart_eq]
  cases hx : a.getGate id with
  | none => exact .stuck _
  | some x =>
    show Simulated _ (if slot ∈ hitBoxTypes g.type ∧ .output ∈ hitBoxTypes x.type then _ else _)
      (if slot ∈ hitBoxTypes g.type ∧ .output ∈ hitBoxTypes x.type then _ else _)
    split
    · next hboxes =>
      obtain ⟨_, hbi⟩ := (ha.wellFormed.alive_iff hg slot).mpr hboxes.1
      have hfirst := ha.released_simulated hbi
      cases hi : a.scene.released ⟨g.ptr, slot⟩ with
      | error e =>
        rw [Scene.clickPair, hi]
        show Simulated _ (.error e) (a.circuit.click ⟨g.ptr, slot⟩ >>= _)
        rw [hfirst.of_error hi]
        exact .stuck e
      | ok s =>
        obtain ⟨c, hc, rfl⟩ := hfirst.of_ok hi
        have hsound := ha.released hi
        obtain ⟨_, hbo⟩ := (hsound.wellFormed.alive_iff (mem_of_getGate hx) .output).mpr hboxes.2
        have hsecond := hsound.released_simulated hbo
        rw [Scene.clickPair, hi]
        show Simulated _ (s.released ⟨x.ptr, .output⟩ >>= _) (a.circuit.click ⟨g.ptr, slot⟩ >>= _)
        rw [hc]
        show Simulated _ _ (Circuit.click ⟨x.ptr, .output⟩ _)
        cases ho : s.released ⟨x.ptr, .output⟩ with
        | error e =>
          rw [hsecond.of_error ho]
          exact .stuck e
        | ok s' =>
          obtain ⟨c', hc', hs'⟩ := hsecond.of_ok ho
          rw [hc']
          exact .step ⟨hsound.released ho, hs'⟩
    · exact .stuck _

theorem connectPair_simulated {c : Circuit} (h : Abstracts a c) (pair : Id × Id) :
    Simulated Abstracts (a.connectPair pair) (c.connectPair pair) := by
  have habs := h
  obtain ⟨ha, rfl⟩ := h
  rw [ha.wellFormed.connectPair_eq, Circuit.connectPair, getPart_eq]
  cases hg : a.getGate pair.1 with
  | none => exact .stuck _
  | some g =>
    have hmem := mem_of_getGate hg
    show Simulated _ (if a.scene.source ⟨g.ptr, .input1⟩ = none then _ else _)
      (if a.scene.source ⟨g.ptr, .input1⟩ = none then _ else _)
    split
    · exact connectSlot_simulated habs hmem .input1 pair.2
    · show Simulated _ (if .input2 ∈ hitBoxTypes g.type then _ else _)
        (if .input2 ∈ hitBoxTypes g.type then _ else _)
      split
      · exact connectSlot_simulated habs hmem .input2 pair.2
      · exact .step habs

theorem clear_simulated {c : Circuit} (h : Abstracts a c) :
    ∃ a', a.clear = .ok a' ∧ Abstracts a' c.clear := by
  obtain ⟨ha, rfl⟩ := h
  obtain ⟨s, hclear, hw, hin, hout, hp⟩ := ha.wellFormed.cleared
  have hsource : s.source = fun _ => none := by
    funext box
    have hbox : s.hitbox box = none := (hw.bare rfl).1 box
    simp [Scene.source, hbox]
  have hpending : s.input.or s.output = a.scene.input.or a.scene.output := by rw [hin, hout]
  exact ⟨_, hclear, ⟨hw, hp ha.pending⟩, Circuit.ext rfl hsource hpending rfl rfl rfl⟩

/-- Only a file that ends is read to its end. -/
theorem ends_of_decodeLoop {fuel : Nat} {file : List Element} {d : Decoder} {r : Decoder × Area}
    (h : decodeLoop fuel file d a = .ok r) : Circuit.Ends fuel file d.reader := by
  induction fuel generalizing file d a with
  | zero => cases h
  | succ fuel ih =>
    cases file with
    | nil =>
      refine Or.inr ⟨rfl, ?_, Nat.succ_pos fuel⟩
      by_contra hreader
      exact decodeLoop_endless List.not_mem_nil (fun _ => hreader) _ _ _ h
    | cons e file =>
      rw [decodeLoop_succ, List.headD_cons, List.tail_cons] at h
      refine Or.inl ?_
      rw [List.take_succ_cons, List.mem_cons]
      by_cases he : e = .endFile
      · exact Or.inl he.symm
      · have hrest : ∀ b : Area, decodeLoop fuel file (d.read e) b = .ok r →
            Element.endFile ∈ file.take fuel := by
          intro b hb
          refine (ih hb).resolve_right ?_
          rintro ⟨_, hread, _⟩
          exact he ((Decoder.read_reader d e).symm.trans hread)
        by_cases hent : e = .endEntity
        · simp only [if_neg he, if_pos hent] at h
          obtain ⟨b, _, hb⟩ := bind_eq_ok h
          exact Or.inr (hrest b hb)
        · simp only [if_neg he, if_neg hent] at h
          exact Or.inr (hrest a h)

theorem decodeLoop_ends {fuel : Nat} {file : List Element} {d : Decoder}
    (h : Circuit.Ends fuel file d.reader) (a : Area) :
    decodeLoop fuel file d a =
      (d.entities file).foldlM drawEntity a >>= fun c => .ok (d.readAll file, c) := by
  induction file generalizing fuel d a with
  | nil =>
    obtain ⟨_, hreader, hfuel⟩ := h.resolve_left (by simp)
    obtain ⟨fuel, rfl⟩ := Nat.exists_eq_add_of_lt hfuel
    have hread : d.read .endFile = d := by rw [Decoder.read, ← hreader]
    simp only [Nat.zero_add, decodeLoop_succ, List.headD_nil, hreader, if_true, hread]
    rfl
  | cons e file ih =>
    have hmem := h.resolve_right (by simp)
    obtain ⟨fuel, rfl⟩ : ∃ k, fuel = k + 1 := by
      cases fuel with
      | zero => simp at hmem
      | succ k => exact ⟨k, rfl⟩
    rw [decodeLoop_succ, List.headD_cons, List.tail_cons, Decoder.entities, Decoder.readAll]
    by_cases hf : e = .endFile
    · simp only [if_pos hf]
      rfl
    · rw [List.take_succ_cons, List.mem_cons] at hmem
      have hrest : ∀ (d : Decoder) (a : Area), decodeLoop fuel file d a =
          (d.entities file).foldlM drawEntity a >>= fun c => .ok (d.readAll file, c) :=
        fun _ => ih (Or.inl (hmem.resolve_left (Ne.symm hf)))
      simp only [if_neg hf]
      by_cases he : e = .endEntity
      · simp only [if_pos he, List.foldlM_cons, bind_assoc]
        congr 1
        funext b
        exact hrest _ b
      · simp only [if_neg he]
        exact hrest _ a

/-- **Loading.** -/
theorem load_simulated {c : Circuit} (h : Abstracts a c) (fuel : Nat)
    (file : Option (List Element)) (reader : Element) :
    Simulated Abstracts (a.loadProject fuel file reader) (c.load fuel file reader) := by
  obtain ⟨a₀, hclear, h₀⟩ := clear_simulated h
  rw [loadProject, hclear]
  cases file with
  | none => exact .step h₀
  | some file =>
    show Simulated _ (decodeLoop fuel file (.start reader) a₀ >>= _) (if _ then _ else _)
    split
    · next hends =>
      rw [decodeLoop_ends (d := .start reader) hends, bind_assoc]
      refine (Simulated.foldlM (fun e _ _ _ hd => drawEntity_simulated hd e) h₀).bind ?_
      intro b c hb
      exact Simulated.foldlM (fun pair _ _ _ hd => connectPair_simulated hd pair) hb
    · next hends =>
      cases hd : decodeLoop fuel file (.start reader) a₀ with
      | error e => exact .stuck e
      | ok r => exact absurd (ends_of_decodeLoop hd) hends

/-! ## Actions and runs -/

/-- **One action** is the edit it stands for. -/
theorem step_simulated {c : Circuit} (act : Action) (h : Abstracts a c) :
    Simulated Abstracts (step act a) (c.step (a.edit act)) := by
  cases act with
  | draw type => exact drawEntity_simulated h ⟨type, gNotValidGateId, 0, 0⟩
  | click hitbox => exact click_simulated h hitbox
  | deleteWire wire => exact deleteWire_simulated h wire
  | deleteGate gate => exact deleteGate_simulated h gate
  | changeTypeInput gate => exact toggle_simulated h gate
  | simulate => exact simulate_simulated h
  | clearSimulate => exact clearSimulate_simulated h
  | load fuel file reader => exact load_simulated h fuel file reader

/-- No wire is allocated yet at `nextWire`. -/
theorem WellFormed.edit_idle (ha : a.WellFormed) :
    a.edit (.deleteWire a.scene.nextWire) = .idle := by
  rw [edit]
  cases hw : a.scene.wire a.scene.nextWire with
  | none => rfl
  | some w => exact absurd (ha.consistent.fresh _ w hw) (Nat.lt_irrefl _)

/-- Every edit is the one of some action: a connected input has a wire to delete. -/
theorem step_realized {c : Circuit} (e : Edit) (h : Abstracts a c) :
    ∃ act : Action, act.loads = e.loads ∧ Simulated Abstracts (step act a) (c.step e) := by
  have hstep := fun act => step_simulated act h
  obtain ⟨ha, rfl⟩ := h
  have hs := ha.wellFormed.consistent
  have hidle := ha.wellFormed.edit_idle
  cases e with
  | draw type => exact ⟨.draw type, rfl, hstep _⟩
  | click hitbox => exact ⟨.click hitbox, rfl, hstep _⟩
  | unplug input =>
    cases hsource : a.scene.source input with
    | none =>
      refine ⟨.deleteWire a.scene.nextWire, rfl, ?_⟩
      have hsame : a.circuit.unplug input = a.circuit :=
        Circuit.ext rfl (Function.update_eq_self_iff.mpr hsource.symm) rfl rfl rfl rfl
      have h := hstep (.deleteWire a.scene.nextWire)
      rw [hidle] at h
      rw [Circuit.step, hsame]
      exact h
    | some q =>
      obtain ⟨p, w, hw, rfl, _⟩ := hs.source_eq_some.mp hsource
      refine ⟨.deleteWire p, rfl, ?_⟩
      have h := hstep (.deleteWire p)
      simp only [edit, hw] at h
      exact h
  | remove gate => exact ⟨.deleteGate gate, rfl, hstep _⟩
  | toggle gate => exact ⟨.changeTypeInput gate, rfl, hstep _⟩
  | simulate => exact ⟨.simulate, rfl, hstep _⟩
  | clearSimulate => exact ⟨.clearSimulate, rfl, hstep _⟩
  | load fuel file reader => exact ⟨.load fuel file reader, rfl, hstep _⟩
  | idle => exact ⟨.deleteWire a.scene.nextWire, rfl, hidle ▸ hstep _⟩

theorem start_abstracts (gen : List Id) : Abstracts (start gen) (Circuit.start gen) :=
  ⟨start_sound gen, rfl⟩

theorem runs_abstracts (gen : List Id) (acts : List Action) :
    Simulated Abstracts (create gen >>= runs step acts)
      ((labels step edit (.draw .output :: acts) (start gen)).foldlM Circuit.step
        (Circuit.start gen)) := by
  rw [create_runs]
  exact Simulated.runs (fun act _ _ h => step_simulated act h) _ (start_abstracts gen)

theorem realize_abstracts (gen : List Id) (es : List Edit) :
    ∃ acts : List Action, (∀ act ∈ acts, ∃ e ∈ es, act.loads = e.loads) ∧
      Simulated Abstracts (create gen >>= runs step acts)
        ((.draw .output :: es).foldlM Circuit.step (Circuit.start gen)) := by
  have hfirst : Simulated Abstracts (create gen) ((Circuit.start gen).step (.draw .output)) :=
    step_simulated (.draw .output) (start_abstracts gen)
  rw [List.foldlM_cons]
  cases hc : create gen with
  | error e =>
    rw [hfirst.of_error hc]
    exact ⟨[], by simp, .stuck e⟩
  | ok a₀ =>
    obtain ⟨c₀, hc₀, h₀⟩ := hfirst.of_ok hc
    rw [hc₀]
    exact Simulated.realize (fun e _ _ h => step_realized e h) es h₀

end Area

end SimGate

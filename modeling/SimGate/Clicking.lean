import SimGate.Lib.Execution
import SimGate.Wiring

/-!
# Clicks

`Pending` is the invariant of the two static pointers of the click handler.
`Clicked` lists what a click can do (`released_ok`): reset both pointers, set
one of them, or add a wire between two hitboxes of different gates.
-/

namespace SimGate

namespace Scene

/-! ## The two pointers -/

/-- At most one of the two pending pointers is set, each on a hitbox of its
kind, and a pending input has no wire. -/
structure Pending (s : Scene) : Prop where
  one : s.input = none ∨ s.output = none
  input : ∀ box, s.input = some box →
    box.isInput = true ∧ ∀ h, s.hitbox box = some h → h.wire = none
  output : ∀ box, s.output = some box → box.isInput = false

/-- The pending hitboxes have not been destroyed. -/
structure PendingAlive (s : Scene) : Prop where
  input : ∀ box, s.input = some box → ∃ h, s.hitbox box = some h
  output : ∀ box, s.output = some box → ∃ h, s.hitbox box = some h

/-- Where no input gets a wire, the invariant stays. -/
theorem Pending.mono {s s' : Scene} (hp : s.Pending) (hin : s'.input = s.input)
    (hout : s'.output = s.output)
    (hwire : ∀ box h' p, s'.hitbox box = some h' → h'.wire = some p →
      ∃ h, s.hitbox box = some h ∧ h.wire = some p) : s'.Pending := by
  refine ⟨?_, fun box hbox => ?_, fun box hbox => hp.output box (hout ▸ hbox)⟩
  · rw [hin, hout]
    exact hp.one
  · obtain ⟨hi, hfree⟩ := hp.input box (hin ▸ hbox)
    refine ⟨hi, fun h' hb' => Option.eq_none_iff_forall_ne_some.mpr fun p hwp => ?_⟩
    obtain ⟨h, hb, hwp⟩ := hwire box h' p hb' hwp
    rw [hfree h hb] at hwp
    cases hwp

theorem Pending.keep {s : Scene} (hp : s.Pending) (live : WirePtr → Bool) :
    (s.keep live).Pending := by
  refine hp.mono rfl rfl fun box h' p hb hw => ?_
  obtain ⟨h, hb', rfl⟩ := keep_hitbox.mp hb
  exact ⟨h, hb', (Option.filter_eq_some_iff.mp hw).1⟩

theorem Pending.without {s : Scene} (hp : s.Pending) (boxes : List HitBoxPtr) :
    (s.without boxes).Pending := by
  refine hp.mono rfl rfl fun box h' p hb hw => ?_
  simp only [Scene.without] at hb
  split at hb
  · cases hb
  · exact ⟨h', hb, hw⟩

theorem PendingAlive.keep {s : Scene} (ha : s.PendingAlive) (live : WirePtr → Bool) :
    (s.keep live).PendingAlive where
  input box hbox := by
    obtain ⟨h, hb⟩ := ha.input box hbox
    exact ⟨_, keep_hitbox.mpr ⟨h, hb, rfl⟩⟩
  output box hbox := by
    obtain ⟨h, hb⟩ := ha.output box hbox
    exact ⟨_, keep_hitbox.mpr ⟨h, hb, rfl⟩⟩

/-! ## Cases of a click -/

/-- What a click on `this` can do. -/
inductive Clicked (this : HitBoxPtr) (s : Scene) : Scene → Prop
  | reset : Clicked this s s.reset
  | input {h : GateHitBox} : this.isInput = true → s.hitbox this = some h → h.wire = none →
      s.output = none → Clicked this s { s with input := some this }
  | output {h : GateHitBox} : this.isInput = false → s.hitbox this = some h →
      s.input = none → Clicked this s { s with output := some this }
  | connect {i o : HitBoxPtr} {hi ho : GateHitBox} : i.isInput = true → o.isInput = false →
      i.owner ≠ o.owner → s.hitbox i = some hi → hi.wire = none → s.hitbox o = some ho →
      Clicked this s (s.connect i o).reset

theorem hitBoxConnectRef_eq {s : Scene} {i o : HitBoxPtr} {hi ho : GateHitBox}
    (hin : s.input = some i) (hout : s.output = some o) (hii : i.isInput = true)
    (hoo : o.isInput = false) (hbi : s.hitbox i = some hi) (hbo : s.hitbox o = some ho) :
    s.hitBoxConnectRef =
      .ok (if i.owner = o.owner then s.reset else (s.connect i o).reset) := by
  have hne : o ≠ i := by
    rintro rfl
    rw [hii] at hoo
    cases hoo
  simp only [hitBoxConnectRef, hin, hout, deref_eq hbi, deref_eq hbo, bind, Except.bind]
  split
  · rfl
  · have h1 : (s.newWire i o).setupWire i s.nextWire =
        .ok ((s.newWire i o).put i { hi with wire := some s.nextWire }) := by
      have hb : (s.newWire i o).hitbox i = some hi := hbi
      simp [setupWire, deref_eq hb, hii, bind, Except.bind]
    have h2 : ((s.newWire i o).put i { hi with wire := some s.nextWire }).setupWire o s.nextWire =
        .ok (((s.newWire i o).put i { hi with wire := some s.nextWire }).put o
          { ho with outputWires := ho.outputWires ++ [s.nextWire] }) := by
      have hb : ((s.newWire i o).put i { hi with wire := some s.nextWire }).hitbox o = some ho := by
        rw [put_hitbox, if_neg hne]
        exact hbo
      simp [setupWire, deref_eq hb, hoo, bind, Except.bind]
    simp only [h1, h2]
    congr 1
    simp only [reset, connect, put, newWire, mk.injEq, and_true]
    funext box
    by_cases hbox : box = o
    · simp [hbox, hne, hbo]
    · by_cases hbox' : box = i
      · simp [hbox', Ne.symm hne, hbi]
      · simp only [Function.update_of_ne hbox, Function.update_of_ne hbox', hbox, hbox', if_false]
        cases s.hitbox box <;> rfl

theorem released_taken {s : Scene} {this : HitBoxPtr} {h : GateHitBox} {p : WirePtr}
    (hb : s.hitbox this = some h) (hi : this.isInput = true) (hp : h.wire = some p) :
    s.released this = .ok s.reset := by
  simp [released, deref_eq hb, hi, hp, bind, Except.bind]

theorem released_input {s : Scene} {this : HitBoxPtr} {h : GateHitBox}
    (hb : s.hitbox this = some h) (hi : this.isInput = true) (hp : h.wire = none) :
    s.released this =
      if s.input.isSome then .ok s.reset else { s with input := some this }.hitBoxConnectRef := by
  cases hin : s.input <;> simp [released, deref_eq hb, hi, hp, hin, bind, Except.bind]

theorem released_output {s : Scene} {this : HitBoxPtr} {h : GateHitBox}
    (hb : s.hitbox this = some h) (ho : this.isInput = false) :
    s.released this =
      if s.output.isSome then .ok s.reset else { s with output := some this }.hitBoxConnectRef := by
  cases hout : s.output <;> simp [released, deref_eq hb, ho, hout, bind, Except.bind]

theorem hitBoxConnectRef_none {s : Scene} (h : s.input = none ∨ s.output = none) :
    s.hitBoxConnectRef = .ok s := by
  unfold hitBoxConnectRef
  rcases h with h | h
  · rw [h]
  · rw [h]
    cases s.input <;> rfl

/-- Connecting reads both pending hitboxes. -/
theorem hitBoxConnectRef_ok {s s' : Scene} (h : s.hitBoxConnectRef = .ok s') {i o : HitBoxPtr}
    (hin : s.input = some i) (hout : s.output = some o) :
    (∃ hi, s.hitbox i = some hi) ∧ ∃ ho, s.hitbox o = some ho := by
  simp only [hitBoxConnectRef, hin, hout] at h
  obtain ⟨hi, h1, h⟩ := Execution.bind_eq_ok h
  obtain ⟨ho, h2, _⟩ := Execution.bind_eq_ok h
  exact ⟨⟨hi, deref_ok h1⟩, ho, deref_ok h2⟩

/-- A click on `this` wires `i` to `o`: one of them is clicked, the other is pending. -/
structure Connecting (this i o : HitBoxPtr) (s : Scene) : Prop where
  pending : this = i ∧ s.output = some o ∨ this = o ∧ s.input = some i
  input : i.isInput = true
  output : o.isInput = false
  owner : i.owner ≠ o.owner
  free : ∃ h, s.hitbox i = some h ∧ h.wire = none
  alive : ∃ h, s.hitbox o = some h

/-- What a click can do to the wires: nothing, or add one. -/
def ClickedWires (this : HitBoxPtr) (s s' : Scene) : Prop :=
  Clicked this s s' ∧ s'.hitbox = s.hitbox ∧ s'.wire = s.wire ∨
    ∃ i o, Connecting this i o s ∧ s' = (s.connect i o).reset

/-- A connection attempt between two pending hitboxes. -/
theorem clickedWires_of_connect {this : HitBoxPtr} {s t s' : Scene} {i o : HitBoxPtr}
    (hpending : this = i ∧ s.output = some o ∨ this = o ∧ s.input = some i)
    (hin : t.input = some i) (hout : t.output = some o) (hreset : t.reset = s.reset)
    (hconn : (t.connect i o).reset = (s.connect i o).reset) (hbox : t.hitbox = s.hitbox)
    (hii : i.isInput = true) (hoo : o.isInput = false)
    (hw : ∀ h, s.hitbox i = some h → h.wire = none) (h : t.hitBoxConnectRef = .ok s') :
    ClickedWires this s s' := by
  obtain ⟨⟨hi, hbi⟩, ho, hbo⟩ := hitBoxConnectRef_ok h hin hout
  rw [hitBoxConnectRef_eq hin hout hii hoo hbi hbo, hreset, hconn] at h
  rw [hbox] at hbi hbo
  split at h
  · cases h
    exact Or.inl ⟨.reset, rfl, rfl⟩
  · next hne =>
    cases h
    exact Or.inr ⟨i, o, ⟨hpending, hii, hoo, hne, ⟨hi, hbi, hw hi hbi⟩, ho, hbo⟩, rfl⟩

/-- **One click** and the wires. -/
theorem released_wires {s s' : Scene} {this : HitBoxPtr} (hp : s.Pending)
    (h : s.released this = .ok s') : ClickedWires this s s' := by
  cases hb : s.hitbox this with
  | none => simp [released, deref, hb, bind, Except.bind] at h
  | some b =>
    cases hi : this.isInput with
    | true =>
      cases hw : b.wire with
      | some p =>
        rw [released_taken hb hi hw] at h
        cases h
        exact Or.inl ⟨.reset, rfl, rfl⟩
      | none =>
        rw [released_input hb hi hw] at h
        split at h
        · cases h
          exact Or.inl ⟨.reset, rfl, rfl⟩
        · cases hout : s.output with
          | none =>
            rw [hitBoxConnectRef_none (s := { s with input := some this }) (Or.inr hout)] at h
            cases h
            exact Or.inl ⟨.input hi hb hw hout, rfl, rfl⟩
          | some o =>
            refine clickedWires_of_connect (t := { s with input := some this })
              (Or.inl ⟨rfl, hout⟩) rfl hout rfl rfl rfl hi (hp.output o hout) (fun h' hb' => ?_) h
            rw [hb] at hb'
            cases hb'
            exact hw
    | false =>
      rw [released_output hb hi] at h
      split at h
      · cases h
        exact Or.inl ⟨.reset, rfl, rfl⟩
      · cases hin : s.input with
        | none =>
          rw [hitBoxConnectRef_none (s := { s with output := some this }) (Or.inl hin)] at h
          cases h
          exact Or.inl ⟨.output hi hb hin, rfl, rfl⟩
        | some i =>
          exact clickedWires_of_connect (t := { s with output := some this })
            (Or.inr ⟨rfl, hin⟩) hin rfl rfl rfl rfl (hp.input i hin).1 hi (hp.input i hin).2 h

/-- Nothing else than the cases of `Clicked` happens. -/
theorem released_ok {s s' : Scene} {this : HitBoxPtr} (hp : s.Pending)
    (h : s.released this = .ok s') : Clicked this s s' := by
  rcases released_wires hp h with ⟨hc, _⟩ | ⟨i, o, hc, rfl⟩
  · exact hc
  · obtain ⟨_, hb, hw⟩ := hc.free
    obtain ⟨_, hbo⟩ := hc.alive
    exact .connect hc.input hc.output hc.owner hb hw hbo

namespace Clicked

variable {this : HitBoxPtr} {s s' : Scene} (h : Clicked this s s')

include h

theorem consistent (hs : s.Consistent) : s'.Consistent := by
  cases h with
  | reset => exact hs.pending none none
  | input => exact hs.pending (some this) s.output
  | output => exact hs.pending s.input (some this)
  | connect hii hoo hne hbi hiw hbo =>
    exact (hs.connect hii hoo hne hbi hiw hbo).pending none none

theorem pending (hp : s.Pending) : s'.Pending := by
  cases h with
  | reset => exact ⟨Or.inl rfl, by simp [Scene.reset], by simp [Scene.reset]⟩
  | input hi hb hw hout =>
    refine ⟨Or.inr hout, fun box hbox => ?_, fun box hbox => hp.output box hbox⟩
    cases hbox
    refine ⟨hi, fun h' hb' => ?_⟩
    rw [show s.hitbox this = _ from hb] at hb'
    cases hb'
    exact hw
  | output ho _ hin =>
    refine ⟨Or.inl hin, fun box hbox => hp.input box hbox, fun box hbox => ?_⟩
    cases hbox
    exact ho
  | connect => exact ⟨Or.inl rfl, by simp [Scene.reset], by simp [Scene.reset]⟩

theorem alive (ha : s.PendingAlive) : s'.PendingAlive := by
  cases h with
  | reset => exact ⟨by simp [Scene.reset], by simp [Scene.reset]⟩
  | input _ hb _ _ =>
    refine ⟨fun box hbox => ?_, ha.output⟩
    cases hbox
    exact ⟨_, hb⟩
  | output _ hb _ =>
    refine ⟨ha.input, fun box hbox => ?_⟩
    cases hbox
    exact ⟨_, hb⟩
  | connect => exact ⟨by simp [Scene.reset], by simp [Scene.reset]⟩

/-- A click neither replaces nor drops a wire. -/
theorem keeps (hs : s.Consistent) : Keeps s s' := by
  have hid : ∀ t : Scene, t.hitbox = s.hitbox → t.wire = s.wire → Keeps s t := by
    intro t hb hw
    exact ⟨fun p w h => by rw [hw]; exact h, fun box h p hbox hp => ⟨h, by rw [hb]; exact hbox, hp⟩,
      fun box h p hbox hp => ⟨h, by rw [hb]; exact hbox, hp⟩⟩
  cases h with
  | reset => exact hid _ rfl rfl
  | input => exact hid _ rfl rfl
  | output => exact hid _ rfl rfl
  | connect _ _ hne hbi hiw _ => exact connect_keeps hs (fun h => hne (by rw [h])) hbi hiw

/-- The same hitboxes are alive. -/
theorem hitboxes (box : HitBoxPtr) :
    (∃ b, s'.hitbox box = some b) ↔ ∃ b, s.hitbox box = some b := by
  cases h with
  | @connect i o =>
    show (∃ b, (s.connect i o).hitbox box = some b) ↔ _
    rw [connect_hitbox]
    cases s.hitbox box <;> simp
  | _ => rfl

end Clicked

/-- A click on a hitbox that is alive succeeds if the pending ones are alive too. -/
theorem released_total {s : Scene} {this : HitBoxPtr} {b : GateHitBox}
    (hb : s.hitbox this = some b) (hp : s.Pending) (ha : s.PendingAlive) :
    ∃ s', s.released this = .ok s' := by
  cases hi : this.isInput with
  | true =>
    cases hw : b.wire with
    | some p => exact ⟨_, released_taken hb hi hw⟩
    | none =>
      rw [released_input hb hi hw]
      split
      · exact ⟨_, rfl⟩
      · rcases Option.eq_none_or_eq_some s.output with hout | ⟨o, hout⟩
        · exact ⟨_, hitBoxConnectRef_none (s := { s with input := some this }) (Or.inr hout)⟩
        · obtain ⟨ho, hbo⟩ := ha.output o hout
          exact ⟨_, hitBoxConnectRef_eq (s := { s with input := some this }) rfl hout hi
            (hp.output o hout) hb hbo⟩
  | false =>
    rw [released_output hb hi]
    split
    · exact ⟨_, rfl⟩
    · rcases Option.eq_none_or_eq_some s.input with hin | ⟨i, hin⟩
      · exact ⟨_, hitBoxConnectRef_none (s := { s with output := some this }) (Or.inl hin)⟩
      · obtain ⟨hi', hbi⟩ := ha.input i hin
        exact ⟨_, hitBoxConnectRef_eq (s := { s with output := some this }) hin rfl
          (hp.input i hin).1 hi hbi hb⟩

end Scene

end SimGate

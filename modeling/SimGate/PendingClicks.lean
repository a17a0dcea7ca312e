import SimGate.Replaying

/-!
# The pending click over whole runs

The pending pointers of the click handler outlive the gates.  Deleting a gate
and clearing the scheme forget its wires but not a pending click on it.

* `alive_deleteGate_iff`, `alive_load_iff`: when the pending hitbox survives a
  deletion and a load;
* `runs_pending_iff`: the exact condition on the steps of a run under which the
  pending pointers stay on hitboxes of the scene.
-/

namespace SimGate

namespace Scene

theorem PendingAlive.redrawn_iff {s s' : Scene} (h : s.Redrawn s') :
    s'.PendingAlive ↔ s.PendingAlive := by
  constructor <;> rintro ⟨hi, ho⟩
  · exact ⟨h.hitbox ▸ h.input ▸ hi, h.hitbox ▸ h.output ▸ ho⟩
  · exact ⟨by rw [h.input, h.hitbox]; exact hi, by rw [h.output, h.hitbox]; exact ho⟩

/-- Hitboxes that are gone may not be pending. -/
theorem pendingAlive_gone {s : Scene} (hi : ∀ box, s.input = some box → s.hitbox box = none)
    (ho : ∀ box, s.output = some box → s.hitbox box = none) :
    s.PendingAlive ↔ s.output = none ∧ s.input = none := by
  constructor
  · rintro ⟨hli, hlo⟩
    refine ⟨Option.eq_none_iff_forall_ne_some.mpr fun box hbox => ?_,
      Option.eq_none_iff_forall_ne_some.mpr fun box hbox => ?_⟩
    · obtain ⟨b, hb⟩ := hlo box hbox
      rw [ho box hbox] at hb
      cases hb
    · obtain ⟨b, hb⟩ := hli box hbox
      rw [hi box hbox] at hb
      cases hb
  · rintro ⟨hno, hni⟩
    exact ⟨by simp [hni], by simp [hno]⟩

theorem Holds.alive {s : Scene} {held : Held} (h : s.Holds held)
    (hheld : held = .nothing ∨ ∃ y, held = .output y) : s.PendingAlive := by
  rcases hheld with rfl | ⟨y, rfl⟩
  · exact ⟨by simp [h.1], by simp [h.2]⟩
  · obtain ⟨hin, hout, hy⟩ := h
    refine ⟨by simp [hin], fun box hbox => ?_⟩
    rw [hout] at hbox
    cases hbox
    exact hy

end Scene

namespace Area

/-! ## The property -/

/-- Every pending pointer is a hitbox of a gate of the scheme, and clicks make wires
between such hitboxes only. -/
structure PendingInScene (a : Area) : Prop where
  pending : ∀ box, a.scene.input = some box ∨ a.scene.output = some box →
    ∃ g ∈ a.m_gates.elems, box ∈ g.hitboxes
  click : ∀ this, ∃ a', a.click this = .ok a' ∧ ∀ p w, a'.scene.wire p = some w →
    (∃ g ∈ a'.m_gates.elems, w.input ∈ g.hitboxes) ∧ ∃ g ∈ a'.m_gates.elems, w.output ∈ g.hitboxes

theorem Sound.pendingInScene_iff {a : Area} (ha : a.Sound) :
    a.PendingInScene ↔ a.scene.PendingAlive := by
  constructor
  · intro h
    exact ⟨fun box hbox => (ha.wellFormed.alive box).mpr (h.pending box (Or.inl hbox)),
      fun box hbox => (ha.wellFormed.alive box).mpr (h.pending box (Or.inr hbox))⟩
  · intro h
    refine ⟨fun box hbox => (ha.wellFormed.alive box).mp ?_, fun this => ?_⟩
    · rcases hbox with hbox | hbox
      · exact h.input box hbox
      · exact h.output box hbox
    · obtain ⟨a', h'⟩ := click_total ha h this
      have hw := (ha.click h').wellFormed
      refine ⟨a', h', fun p w hwire => ?_⟩
      obtain ⟨⟨b, hb, _⟩, b', hb', _⟩ := hw.consistent.registered p w hwire
      exact ⟨(hw.alive w.input).mp ⟨b, hb⟩, (hw.alive w.output).mp ⟨b', hb'⟩⟩

/-! ## Deleting a gate -/

theorem alive_deleteGate_iff {a a' : Area} {gate : GatePtr} (ha : a.Sound)
    (hl : a.scene.PendingAlive) (h : a.deleteGate gate = .ok a') :
    a'.scene.PendingAlive ↔
      ∀ box, a.scene.input = some box ∨ a.scene.output = some box → box.owner ≠ gate := by
  have howner : ∀ box, a.scene.input = some box ∨ a.scene.output = some box →
      ∃ g ∈ a.m_gates.elems, box ∈ g.hitboxes := (ha.pendingInScene_iff.mpr hl).pending
  have hmem : ∀ {box g}, g ∈ a.m_gates.elems → box ∈ g.hitboxes → box.owner = g.ptr :=
    fun hg hbox => ((ha.wellFormed.shaped _ hg).mem_hitboxes.mp hbox).1
  rcases deleteGate_ok ha.wellFormed h with ⟨hnone, rfl⟩ | ⟨g, hg, rfl, live, hw, hclear⟩
  · refine iff_of_true hl fun box hbox => ?_
    obtain ⟨g, hg, hb⟩ := howner box hbox
    rw [hmem hg hb]
    exact hnone g hg
  · have hredrawn := (displayFree_redrawn _).clearSimulate (Scene.Redrawn.refl _) hclear
    rw [Scene.PendingAlive.redrawn_iff hredrawn]
    have halive : ∀ box, a.scene.input = some box ∨ a.scene.output = some box →
        ((∃ h, ((a.scene.keep live).without g.hitboxes).hitbox box = some h) ↔
          box.owner ≠ g.ptr) := by
      intro box hbox
      obtain ⟨g', hg', hb⟩ := howner box hbox
      obtain ⟨b, hbox'⟩ := (ha.wellFormed.alive box).mpr ⟨g', hg', hb⟩
      by_cases hin : box ∈ g.hitboxes
      · exact iff_of_false (by simp [Scene.without, hin]) fun hne => hne (hmem hg hin)
      · refine iff_of_true (by simp [Scene.without, hin, Scene.keep, hbox']) fun he => hin ?_
        rwa [KeySet.eq_of_key hg hg' (he.symm.trans (hmem hg' hb))]
    constructor
    · rintro ⟨hi, ho⟩ box (hbox | hbox)
      · exact (halive box (Or.inl hbox)).mp (hi box hbox)
      · exact (halive box (Or.inr hbox)).mp (ho box hbox)
    · exact fun hne => ⟨fun box hbox => (halive box (Or.inl hbox)).mpr (hne box (Or.inl hbox)),
        fun box hbox => (halive box (Or.inr hbox)).mpr (hne box (Or.inr hbox))⟩

/-! ## Loading -/

theorem connectPair_alive {a a' : Area} (ha : a.Sound) (hl : a.scene.PendingAlive)
    {pair : Id × Id} (h : a.connectPair pair = .ok a') : a'.scene.PendingAlive := by
  rcases connectPair_ok h with rfl | ⟨i, o, s, s', hs, hs', rfl⟩
  · exact hl
  · have hc := Scene.released_ok ha.pending hs
    exact (Scene.released_ok (hc.pending ha.pending) hs').alive (hc.alive hl)

/-- In a scheme without wires the loader clicks a free input first: an input that was
pending is dropped, and an output that is gone is followed. -/
theorem replayPair_first {getGate : Id → Option Gate} {held : Held} {pair : Id × Id}
    {r : Sources × Held} (h : replayPair getGate (fun _ => none) held pair = some r) :
    held ≠ .gone ∧ (r.2 = .nothing ∨ ∃ y, r.2 = .output y) := by
  unfold replayPair at h
  split at h
  · cases h
  · rw [if_pos rfl, emitPair] at h
    split at h
    · cases h
    · split at h
      · cases held <;> simp only [clickTwice, ne_eq, not_true_eq_false, if_false,
          Option.some.injEq, reduceCtorEq] at h <;> subst h <;> simp
      · cases h

/-- **A load** that ends leaves the pending pointers on hitboxes of the scene exactly
when no output was pending and a pending input was dropped by the replay. -/
theorem alive_load_iff {fuel : Nat} {file : List Element} {reader : Element} {a a' : Area}
    (ha : a.Sound) (h : a.loadProject fuel (some file) reader = .ok a') :
    a'.scene.PendingAlive ↔ a.scene.output = none ∧ (a.scene.input = none ∨
      ((Decoder.start reader).readAll file).connVec ≠ []) := by
  obtain ⟨s, c, hw, hi, ho, hp, hdraw, hreplay⟩ := loadProject_ok ha.wellFormed h
  have hc := drawAll_draws hw hdraw
  have hsound : c.Sound :=
    Execution.foldlM_invariant (fun _ _ _ _ hs h => hs.draw h) ⟨hw, hp ha.pending⟩ hdraw
  have hin : c.scene.input = a.scene.input := hc.input.trans hi
  have hout : c.scene.output = a.scene.output := hc.output.trans ho
  cases hconn : ((Decoder.start reader).readAll file).connVec with
  | nil =>
    rw [hconn] at hreplay
    cases hreplay
    rw [Scene.pendingAlive_gone (fun box h => hc.gone rfl (ha.wellFormed.input box (hin ▸ h)))
      (fun box h => hc.gone rfl (ha.wellFormed.output box (hout ▸ h))), hin, hout]
    simp
  | cons pair pairs =>
    rw [hconn] at hreplay
    obtain ⟨c₁, h₁, hreplay⟩ := Execution.bind_eq_ok hreplay
    have hspec := replayPair_spec hsound.wellFormed (hc.holds hw rfl) pair
    rw [hc.source hw rfl] at hspec
    cases hr : replayPair c.getGate (fun _ => none) (heldCleared s) pair with
    | none =>
      rw [hr] at hspec
      exact absurd h₁ (hspec c₁)
    | some r =>
      rw [hr] at hspec
      obtain ⟨c₂, h₂, _, hholds⟩ := hspec
      rw [h₁] at h₂
      cases h₂
      obtain ⟨hgone, hheld⟩ := replayPair_first hr
      have hall := Execution.foldlM_invariant (I := fun a => a.Sound ∧ a.scene.PendingAlive)
        (fun _ _ _ _ hs h => ⟨hs.1.connectPair h, connectPair_alive hs.1 hs.2 h⟩)
        ⟨hsound.connectPair h₁, hholds.alive hheld⟩ hreplay
      refine iff_of_true hall.2 ⟨?_, Or.inr (by simp)⟩
      -- otherwise the first click would have followed the pending output
      rcases ha.pending.one with hni | hno
      · by_contra hno
        refine hgone ?_
        rw [heldCleared, hi, ho, hni, if_neg (by simp),
          if_pos (Option.isSome_iff_ne_none.mpr hno)]
      · exact hno

/-! ## Runs -/

/-- What a step must not do: delete the gate of a pending hitbox, or load while an
output is pending, or while an input is pending that the replay does not drop. -/
def KeepsPending (act : Action) (a : Area) : Prop :=
  match act with
  | .deleteGate gate =>
    ∀ box, a.scene.input = some box ∨ a.scene.output = some box → box.owner ≠ gate
  | .load _ file _ =>
    a.scene.output = none ∧ (a.scene.input = none ∨ ∃ elements value, file = some elements ∧
      .input value ∈ elements.takeWhile (· ≠ .endFile) ∧ value ≠ gNotValidGateId)
  | _ => True

theorem step_pending_iff {act : Action} {a a' : Area} (ha : a.Sound) (hi : a.PendingInScene)
    (h : step act a = .ok a') : a'.PendingInScene ↔ KeepsPending act a := by
  have hl := ha.pendingInScene_iff.mp hi
  rw [(step_sound ha h).pendingInScene_iff]
  have hsame : a.scene.Redrawn a'.scene → a'.scene.PendingAlive := fun hr =>
    (Scene.PendingAlive.redrawn_iff hr).mpr hl
  cases act with
  | draw type => exact iff_of_true (step_alive rfl ha hl h) trivial
  | click hitbox => exact iff_of_true (step_alive rfl ha hl h) trivial
  | deleteWire wire => exact iff_of_true (step_alive rfl ha hl h) trivial
  | deleteGate gate => exact alive_deleteGate_iff ha hl h
  | changeTypeInput gate =>
    refine iff_of_true (hsame ?_) trivial
    rcases changeTypeInput_ok h with rfl | rfl | h
    · exact .refl _
    · exact .refl _
    · refine (displayFree_redrawn a.scene).simulate ?_ h
      exact Scene.Redrawn.refl a.scene
  | simulate =>
    exact iff_of_true (hsame ((displayFree_redrawn _).simulate (Scene.Redrawn.refl _) h)) trivial
  | clearSimulate =>
    exact iff_of_true (hsame ((displayFree_redrawn _).clearSimulate (Scene.Redrawn.refl _) h))
      trivial
  | load fuel file reader =>
    cases file with
    | none =>
      obtain ⟨s, hc, hw, hin, hout, _⟩ := ha.wellFormed.cleared
      rw [step, loadProject, hc] at h
      cases h
      obtain ⟨hbare, _⟩ := WellFormed.bare hw rfl
      show s.PendingAlive ↔ _
      rw [Scene.pendingAlive_gone (fun box _ => hbare box) (fun box _ => hbare box), hin, hout]
      simp [KeepsPending]
    | some file =>
      rw [alive_load_iff ha h, KeepsPending, Ne, Decoder.readAll_connVec_eq_nil]
      simp [Decoder.start]

/-- **Pending clicks.**  In every area of a run the pending pointers are on hitboxes
of gates of the scheme exactly when no step along the run breaks them. -/
theorem runs_pending_iff {gen : List Id} {acts : List Action} {a₀ : Area}
    (h : create gen = .ok a₀) :
    (∀ pre a, pre <+: acts → Execution.runs step pre a₀ = .ok a → a.PendingInScene) ↔
      Execution.Along step KeepsPending acts a₀ := by
  have hrun : create gen >>= Execution.runs step [] = .ok a₀ := by rw [h]; rfl
  have ha := runs_sound hrun
  obtain ⟨_, hl⟩ : a₀.Sound ∧ a₀.scene.PendingAlive :=
    runs_preserve (I := fun a => a.scene.PendingAlive) (P := fun act => act.connects = true)
      (fun _ _ _ => step_alive) rfl (by simp) ⟨by rintro box ⟨⟩, by rintro box ⟨⟩⟩ hrun
  exact Execution.runs_iff_along (J := Sound) (fun _ _ _ => step_sound)
    (fun _ _ _ => step_pending_iff) ha (ha.pendingInScene_iff.mpr hl)

/-- An input stays pending while another gate is drawn and deleted. -/
theorem runs_pending_otherGate :
    ∃ a₀, create [7, 8] = .ok a₀ ∧
      ∀ pre a, pre <+: [.click ⟨0, .input1⟩, .draw .not, .deleteGate 1] →
        Execution.runs step pre a₀ = .ok a → a.PendingInScene := by
  obtain ⟨a₀, a₁, a₂, h, h₁, h₂, hin, hout⟩ : ∃ a₀ a₁ a₂, create [7, 8] = .ok a₀ ∧
      step (.click ⟨0, .input1⟩) a₀ = .ok a₁ ∧ step (.draw .not) a₁ = .ok a₂ ∧
      a₂.scene.input = some ⟨0, .input1⟩ ∧ a₂.scene.output = none :=
    ⟨_, _, _, rfl, rfl, rfl, rfl, rfl⟩
  refine ⟨a₀, h, (runs_pending_iff h).mpr fun t ht => ⟨trivial, fun u hu => ⟨trivial, ?_⟩⟩⟩
  rw [h₁] at ht
  cases ht
  rw [h₂] at hu
  cases hu
  refine fun v _ => ⟨fun box hbox => ?_, trivial⟩
  rw [hin, hout] at hbox
  rcases hbox with hbox | hbox
  · cases hbox
    decide
  · cases hbox

/-- **A pending input that is gone.**  The gate is deleted between the two clicks; the
second one follows the pointer. -/
theorem deletedPending_dangling :
    ∃ a₀ a, create [7, 8] = .ok a₀ ∧
      Execution.runs step [.click ⟨0, .input1⟩, .deleteGate 0] a₀ = .ok a ∧
      a.scene.input = some ⟨0, .input1⟩ ∧ a.m_gates.elems = [] ∧ ¬ a.PendingInScene ∧
      Execution.runs step [.draw .and, .click ⟨1, .output⟩] a = .error .dangling := by
  refine ⟨_, _, rfl, rfl, rfl, rfl, fun hp => ?_, rfl⟩
  obtain ⟨g, hg, _⟩ := hp.pending ⟨0, .input1⟩ (Or.inl rfl)
  cases hg

end Area

end SimGate

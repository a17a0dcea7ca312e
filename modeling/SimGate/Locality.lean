import SimGate.Levels
import SimGate.Screen

/-!
# Edits far away

An output shows what it reads, directly or not: its cone.  Edits that leave the cone alone
leave what is shown of it alone, even where the rest of the display falls behind.

* `step_sameCone`: an edit that touches no part of a cone keeps the cone;
* `step_unpainted`: an action that does not simulate paints nothing;
* `edits_local`: what the screen shows of a cone after such edits.
-/

namespace SimGate

open Execution Relation

namespace Circuit

/-! ## Cones -/

/-- `d` has the parts and connections that `g` reads in `c`, directly or not. -/
structure SameCone (g : GatePtr) (c d : Circuit) : Prop where
  parts : ∀ x : Part, ReflTransGen c.Reads g x.ptr → (x ∈ d.parts ↔ x ∈ c.parts)
  source : ∀ box : HitBoxPtr, ReflTransGen c.Reads g box.owner → d.source box = c.source box

namespace SameCone

variable {g p : GatePtr} {c d e : Circuit}

theorem of_eq (hparts : d.parts = c.parts) (hsource : d.source = c.source) : SameCone g c d :=
  ⟨fun x _ => by rw [hparts], fun box _ => by rw [hsource]⟩

theorem refl (g : GatePtr) (c : Circuit) : SameCone g c c := .of_eq rfl rfl

theorem forth (h : SameCone g c d) (hp : ReflTransGen c.Reads g p) :
    ReflTransGen d.Reads g p := by
  induction hp with
  | refl => exact .refl
  | tail hq hr ih =>
    obtain ⟨slot, hs⟩ := hr
    exact ih.tail ⟨slot, (h.source _ hq).trans hs⟩

theorem back (h : SameCone g c d) (hp : ReflTransGen d.Reads g p) :
    ReflTransGen c.Reads g p := by
  induction hp with
  | refl => exact .refl
  | tail _ hr ih =>
    obtain ⟨slot, hs⟩ := hr
    exact ih.tail ⟨slot, (h.source ⟨_, slot⟩ ih).symm.trans hs⟩

theorem symm (h : SameCone g c d) : SameCone g d c :=
  ⟨fun x hx => (h.parts x (h.back hx)).symm, fun box hbox => (h.source box (h.back hbox)).symm⟩

theorem trans (h : SameCone g c d) (h' : SameCone g d e) : SameCone g c e :=
  ⟨fun x hx => (h'.parts x (h.forth hx)).trans (h.parts x hx),
    fun box hbox => (h'.source box (h.forth hbox)).trans (h.source box hbox)⟩

/-- The cone of what `g` reads. -/
theorem of_reads (h : SameCone g c d) (hp : ReflTransGen c.Reads g p) : SameCone p c d :=
  ⟨fun x hx => h.parts x (hp.trans hx), fun box hbox => h.source box (hp.trans hbox)⟩

theorem level (h : SameCone g c d) {q : Option GatePtr} {b : Bool} (hl : c.Level q b)
    (hq : ∀ p, q = some p → ReflTransGen c.Reads g p) : d.Level q b := by
  induction hl with
  | free => exact .free
  | high hp ht => exact .high ((h.parts _ (hq _ rfl)).mpr hp) ht
  | low hp ht => exact .low ((h.parts _ (hq _ rfl)).mpr hp) ht
  | @part p x y hp hh hl _ _ ihx ihy =>
    have hcone := hq p.ptr rfl
    refine .part ((h.parts p hcone).mpr hp) hh hl ?_ ?_
    · rw [h.source ⟨p.ptr, .input1⟩ hcone]
      exact ihx fun r hr => hcone.tail ⟨_, hr⟩
    · rw [h.source ⟨p.ptr, .input2⟩ hcone]
      exact ihy fun r hr => hcone.tail ⟨_, hr⟩

theorem level_iff (h : SameCone g c d) {b : Bool} :
    d.Level (some g) b ↔ c.Level (some g) b := by
  constructor
  · intro hl
    refine h.symm.level hl ?_
    rintro _ ⟨⟩
    exact .refl
  · intro hl
    refine h.level hl ?_
    rintro _ ⟨⟩
    exact .refl

theorem loop (h : SameCone g c d) {q : GatePtr} (hq : ReflTransGen c.Reads g q)
    (hloop : TransGen d.Reads q p) : TransGen c.Reads q p := by
  induction hloop with
  | single hr =>
    obtain ⟨slot, hs⟩ := hr
    exact .single ⟨slot, (h.source ⟨q, slot⟩ hq).symm.trans hs⟩
  | tail _ hr ih =>
    obtain ⟨slot, hs⟩ := hr
    exact ih.tail ⟨slot, (h.source ⟨_, slot⟩ (hq.trans ih.to_reflTransGen)).symm.trans hs⟩

theorem loopFree (h : SameCone g c d) (hfree : c.LoopFree g) : d.LoopFree g :=
  fun q hq hloop => hfree q (h.back hq) (h.loop (h.back hq) hloop)

/-- Only an input outside of the cone reads something else. -/
theorem rewired {input : HitBoxPtr} {r : Option GatePtr} (hparts : d.parts = c.parts)
    (hsource : d.source = Function.update c.source input r)
    (hout : ¬ ReflTransGen c.Reads g input.owner) : SameCone g c d := by
  refine ⟨fun x _ => by rw [hparts], fun box hbox => ?_⟩
  have hne : box ≠ input := fun he => hout (he ▸ hbox)
  rw [hsource, Function.update_of_ne hne]

end SameCone

/-! ## One edit -/

/-- What the edit may change is `p` or an input of it. -/
def touches (c : Circuit) (e : Edit) (p : GatePtr) : Prop :=
  match e with
  | .click box => ∃ i, (i = box ∨ c.pending = some i) ∧ i.isInput = true ∧ i.owner = p
  | .unplug input => input.owner = p
  | .remove gate | .toggle gate => gate = p
  | .load .. => True
  | _ => False

variable {g : GatePtr} {c d : Circuit}

theorem plug_sameCone {input output : HitBoxPtr}
    (hout : ¬ ReflTransGen c.Reads g input.owner) : SameCone g c (c.plug input output) := by
  by_cases hsame : input.owner = output.owner
  · exact .of_eq rfl (if_pos hsame)
  · exact .rewired rfl (if_neg hsame) hout

theorem click_sameCone {box : HitBoxPtr} (h : c.click box = some d)
    (hspare : ∀ p, ReflTransGen c.Reads g p → ¬ c.touches (.click box) p) : SameCone g c d := by
  have hinput : ∀ {i : HitBoxPtr}, (i = box ∨ c.pending = some i) → i.isInput = true →
      ¬ ReflTransGen c.Reads g i.owner :=
    fun hi hin hcone => hspare _ hcone ⟨_, hi, hin, rfl⟩
  rw [click] at h
  split at h
  · cases h
    exact .refl g c
  · split at h
    · cases h
      exact .of_eq rfl rfl
    · split at h
      · cases h
        exact .of_eq rfl rfl
      · next other hp =>
        split at h
        · cases h
          exact .of_eq rfl rfl
        · next hne =>
          split at h
          · cases h
          · cases h
            split
            · next hin => exact plug_sameCone (hinput (.inl rfl) hin)
            · next hin =>
              refine plug_sameCone (hinput (.inr hp) ?_)
              simpa [hin] using hne

theorem remove_sameCone {gate : GatePtr} (hout : ¬ ReflTransGen c.Reads g gate) :
    SameCone g c (c.remove gate) := by
  rw [remove]
  split
  · refine ⟨fun x hx => ?_, fun box hbox => if_neg ?_⟩
    · have hne : x.ptr ≠ gate := fun he => hout (he ▸ hx)
      simp [hne]
    · rintro (he | hs)
      · exact hout (he ▸ hbox)
      · exact hout (hbox.tail ⟨box.type, hs⟩)
  · exact .refl g c

theorem toggle_sameCone {gate : GatePtr} (h : c.toggle gate = some d)
    (hout : ¬ ReflTransGen c.Reads g gate) : SameCone g c d := by
  have htoggled : SameCone g c
      { c with parts := c.parts.map fun p : Part => if p.ptr = gate then p.toggle else p } := by
    refine ⟨fun x hx => ?_, fun _ _ => rfl⟩
    have hne : x.ptr ≠ gate := fun he => hout (he ▸ hx)
    rw [List.mem_map]
    constructor
    · rintro ⟨y, hy, rfl⟩
      split at hne
      · next hgate => exact absurd (y.toggle_ptr.trans hgate) hne
      · next hgate => rwa [if_neg hgate]
    · exact fun hmem => ⟨x, hmem, if_neg hne⟩
  rw [toggle] at h
  split at h
  · dsimp only at h
    split at h
    · rw [simulate] at h
      split at h
      · cases h
        exact ⟨htoggled.parts, htoggled.source⟩
      · cases h
    · cases h
      exact htoggled
  · cases h
    exact .refl g c

/-- **An edit** that touches nothing of a cone keeps it. -/
theorem step_sameCone {e : Edit} (h : c.step e = some d)
    (hspare : ∀ p, ReflTransGen c.Reads g p → ¬ c.touches e p)
    (hnew : ¬ ReflTransGen c.Reads g c.next) : SameCone g c d := by
  cases e with
  | draw type =>
    rw [step, drawEntity] at h
    split at h
    · cases h
    · next id gen _ =>
      cases h
      refine ⟨fun x hx => ?_, fun _ _ => rfl⟩
      have hne : x ≠ ⟨c.next, type, id⟩ :=
        fun he => hnew ((show x.ptr = c.next from congrArg Part.ptr he) ▸ hx)
      split
      · rfl
      · simp [hne]
  | click box => exact click_sameCone h hspare
  | unplug input =>
    cases h
    exact .rewired rfl rfl fun hcone => hspare _ hcone rfl
  | remove gate =>
    cases h
    exact remove_sameCone fun hcone => hspare _ hcone rfl
  | toggle gate => exact toggle_sameCone h fun hcone => hspare _ hcone rfl
  | simulate =>
    rw [step, simulate] at h
    split at h
    · cases h
      exact .of_eq rfl rfl
    · cases h
  | clearSimulate =>
    cases h
    exact .of_eq rfl rfl
  | load fuel file reader => exact absurd trivial (hspare g .refl)
  | idle =>
    cases h
    exact .refl g c

end Circuit

namespace Area

variable {a b : Area}

/-! ## Actions that spare a cone -/

/-- The action touches nothing that `g` reads, directly or not. -/
def Spares (g : GatePtr) (act : Action) (a : Area) : Prop :=
  ∀ p, ReflTransGen a.circuit.Reads g p → ¬ a.circuit.touches (a.edit act) p

theorem WellFormed.cone_part (ha : a.WellFormed) {g : Gate} (hg : g ∈ a.m_gates.elems)
    {p : GatePtr} (hp : ReflTransGen a.circuit.Reads g.ptr p) :
    ∃ x ∈ a.m_gates.elems, x.ptr = p := by
  induction hp with
  | refl => exact ⟨g, hg, rfl⟩
  | tail _ hr _ =>
    obtain ⟨slot, hs⟩ := hr
    exact ha.source_mem hs

theorem Spares.loads {g : GatePtr} {act : Action} (h : Spares g act a) : act.loads = false := by
  cases act with
  | load fuel file reader => exact absurd trivial (h g .refl)
  | _ => rfl

/-- An action that spares a cone keeps it. -/
theorem Spares.sameCone {act : Action} {g : Gate} (ha : a.Sound) (hg : g ∈ a.m_gates.elems)
    (hspare : Spares g.ptr act a) (h : step act a = .ok b) :
    Circuit.SameCone g.ptr a.circuit b.circuit := by
  obtain ⟨c, hc, _, rfl⟩ := (step_simulated act ⟨ha, rfl⟩).of_ok h
  refine Circuit.step_sameCone hc hspare fun hnext => ?_
  -- the new gate would be one of the old ones
  obtain ⟨x, hx, hptr⟩ := ha.wellFormed.cone_part hg hnext
  exact Nat.lt_irrefl _ (hptr ▸ ha.wellFormed.allocated x hx)

/-! ## What is not painted -/

/-- The gates keep their pictures, and the wires keep their colours where `P` says. -/
structure Unpainted (P : HitBoxPtr → Prop) (a b : Area) : Prop where
  gates : ∀ g ∈ a.m_gates.elems, g ∈ b.m_gates.elems
  wires : ∀ p w, P w.input → (b.scene.wire p = some w ↔ a.scene.wire p = some w)

theorem Unpainted.refl (P : HitBoxPtr → Prop) (a : Area) : Unpainted P a a :=
  ⟨fun _ hg => hg, fun _ _ _ => Iff.rfl⟩

theorem Unpainted.colorAt {P : HitBoxPtr → Prop} (h : Unpainted P a b) (ha : a.Sound)
    (hb : b.Sound) {box : HitBoxPtr} (hbox : P box) :
    b.scene.colorAt box = a.scene.colorAt box := by
  apply Option.ext
  intro color
  rw [hb.wellFormed.consistent.colorAt_eq_some, ha.wellFormed.consistent.colorAt_eq_some]
  constructor
  · rintro ⟨p, w, hw, rfl, rfl⟩
    exact ⟨p, w, (h.wires p w hbox).mp hw, rfl, rfl⟩
  · rintro ⟨p, w, hw, rfl, rfl⟩
    exact ⟨p, w, (h.wires p w hbox).mpr hw, rfl, rfl⟩

/-- What the action does not touch. -/
def Untouching (act : Action) (a : Area) (box : HitBoxPtr) : Prop :=
  ¬ a.circuit.touches (a.edit act) box.owner

theorem draw_unpainted {type : CommonGateType} {x y : Qreal} {P : HitBoxPtr → Prop} (ha : a.Sound)
    (h : a.draw type gNotValidGateId x y = .ok b) :
    b.simulatorFlag = a.simulatorFlag ∧ Unpainted P a b := by
  obtain ⟨_, gen, _, _, _, rfl⟩ := draw_ok h
  split
  · exact ⟨rfl, fun _ hg => hg, fun _ _ _ => Iff.rfl⟩
  · refine ⟨rfl, fun g hg => ?_, fun _ _ _ => Iff.rfl⟩
    exact (ha.wellFormed.gen gen).mem_drawn.mpr (Or.inl hg)

theorem click_unpainted {hitbox : HitBoxPtr} (ha : a.Sound) (h : a.click hitbox = .ok b) :
    b.simulatorFlag = a.simulatorFlag ∧ Unpainted (Untouching (.click hitbox) a) a b := by
  rw [click] at h
  split at h
  · cases h
    exact ⟨rfl, .refl _ _⟩
  · obtain ⟨s, hs, h⟩ := bind_eq_ok h
    cases h
    refine ⟨rfl, fun _ hg => hg, fun p w hw => ?_⟩
    rcases Scene.released_wires ha.pending hs with ⟨_, _, hwire⟩ | ⟨i, o, hc, rfl⟩
    · show s.wire p = some w ↔ _
      rw [hwire]
    · show (a.scene.connect i o).wire p = some w ↔ _
      rw [Scene.connect_wire]
      split
      · next hp =>
        -- the new wire ends at the input that was clicked or pending
        subst hp
        constructor
        · intro h
          cases h
          refine absurd ⟨i, ?_, hc.input, rfl⟩ hw
          rcases hc.pending with ⟨rfl, _⟩ | ⟨rfl, hin⟩
          · exact Or.inl rfl
          · exact Or.inr (by simp [circuit, hin])
        · intro h
          exact absurd (ha.wellFormed.consistent.fresh _ w h) (Nat.lt_irrefl _)
      · exact Iff.rfl

theorem deleteWire_unpainted {wire : WirePtr} (ha : a.Sound) (h : a.deleteWire wire = .ok b) :
    b.simulatorFlag = a.simulatorFlag ∧ Unpainted (Untouching (.deleteWire wire) a) a b := by
  rw [deleteWire] at h
  split at h
  · cases h
    exact ⟨rfl, .refl _ _⟩
  · next w₀ hw₀ =>
    rw [Scene.deleteWire_eq ha.wellFormed.consistent hw₀] at h
    cases h
    refine ⟨rfl, fun _ hg => hg, fun p w hw => ?_⟩
    refine Scene.keep_wire.trans ⟨fun h => h.2, fun h => ⟨decide_eq_true ?_, h⟩⟩
    rintro rfl
    rw [hw₀] at h
    cases h
    rw [Untouching, edit, hw₀] at hw
    exact hw rfl

/-- **An action** that leaves a simulation shown has shown it anew, or paints nothing. -/
theorem step_unpainted {act : Action} (ha : a.Sound) (hact : act.loads = false)
    (h : step act a = .ok b) (hflag : b.simulatorFlag = true) :
    b.InStep ∨ a.simulatorFlag = true ∧ Unpainted (Untouching act a) a b := by
  cases act with
  | draw type =>
    obtain ⟨hsame, hkeep⟩ :=
      draw_unpainted ha (show a.draw type gNotValidGateId 0 0 = .ok b from h)
    exact Or.inr ⟨hsame ▸ hflag, hkeep⟩
  | click hitbox =>
    obtain ⟨hsame, hkeep⟩ := click_unpainted ha h
    exact Or.inr ⟨hsame ▸ hflag, hkeep⟩
  | deleteWire wire =>
    obtain ⟨hsame, hkeep⟩ := deleteWire_unpainted ha h
    exact Or.inr ⟨hsame ▸ hflag, hkeep⟩
  | deleteGate gate =>
    rcases deleteGate_ok ha.wellFormed h with ⟨_, rfl⟩ | ⟨_, _, _, _, hw, h⟩
    · exact Or.inr ⟨hflag, .refl _ _⟩
    · rw [clearSimulate_flag hw h] at hflag
      cases hflag
  | changeTypeInput gate =>
    have hw := ha.wellFormed.modify gate Gate.toggle_ptr Gate.toggle_shaped
    rw [step, changeTypeInput] at h
    split at h
    · cases h
      exact Or.inr ⟨hflag, .refl _ _⟩
    · simp only at h
      split at h
      · exact Or.inl (simulate_inStep hw h)
      · next hclear =>
        cases h
        exact absurd hflag hclear
  | simulate => exact Or.inl (simulate_inStep ha.wellFormed h)
  | clearSimulate =>
    rw [clearSimulate_flag ha.wellFormed h] at hflag
    cases hflag
  | load fuel file reader => cases hact

/-! ## What is shown of a cone -/

theorem ShowsLevels.pixmap_eq {g k : Gate} (ha : a.ShowsLevels) (hb : b.ShowsLevels)
    (hcone : Circuit.SameCone g.ptr a.circuit b.circuit) (hg : g ∈ a.m_gates.elems)
    (hk : k ∈ b.m_gates.elems) (hpart : k.part = g.part) (ht : g.type = .output)
    (hfree : a.circuit.LoopFree g.ptr) : k.pixmap = g.pixmap := by
  have hptr : k.ptr = g.ptr := congrArg Part.ptr hpart
  have htype : k.type = g.type := congrArg Part.type hpart
  obtain ⟨x, hx, hpix⟩ := ha.output g hg ht hfree
  obtain ⟨y, hy, hpix'⟩ := hb.output k hk (htype.trans ht) (hptr ▸ hcone.loopFree hfree)
  have hxy : x = y := (hy x).mp (hptr ▸ hcone.level_iff.mpr ((hx x).mpr rfl))
  rw [hpix, hpix', hxy]

theorem ShowsLevels.colorAt_le {g : GatePtr} (ha : a.ShowsLevels) (hb : b.ShowsLevels)
    (hca : a.scene.Consistent) (hcb : b.scene.Consistent)
    (hcone : Circuit.SameCone g a.circuit b.circuit) (hobs : a.circuit.Observed g)
    (hobs' : b.circuit.Observed g) (hfree : a.circuit.LoopFree g) {box : HitBoxPtr}
    {color : WireColor} (hbox : ReflTransGen a.circuit.Reads g box.owner)
    (h : a.scene.colorAt box = some color) : b.scene.colorAt box = some color := by
  obtain ⟨p, w, hw, rfl, rfl⟩ := hca.colorAt_eq_some.mp h
  have hsource : a.scene.source w.input = some w.output.owner :=
    hca.source_eq_some.mpr ⟨p, w, hw, rfl, rfl⟩
  obtain ⟨p', w', hw', hin, hout⟩ :=
    hcb.source_eq_some.mp ((hcone.source w.input hbox).trans hsource)
  refine hcb.colorAt_eq_some.mpr ⟨p', w', hw', hin, ?_⟩
  -- both wires come from one part of the cone
  have hread : ReflTransGen a.circuit.Reads g w.output.owner := hbox.tail ⟨w.input.type, hsource⟩
  have hread' := hcone.forth hread
  have hpart := hcone.of_reads hread
  have hfree' : a.circuit.LoopFree w.output.owner := fun q hq => hfree q (hread.trans hq)
  rw [← hout] at hread' hpart hfree'
  obtain ⟨o, ho, hto, hog⟩ := hobs
  obtain ⟨o', ho', hto', hog'⟩ := hobs'
  obtain ⟨x, hx, hcolor⟩ := ha.wire p w hw ⟨o, ho, hto, hog.trans hread⟩ (hout ▸ hfree')
  obtain ⟨y, hy, hcolor'⟩ := hb.wire p' w' hw' ⟨o', ho', hto', hog'.trans hread'⟩
    (hpart.loopFree hfree')
  rw [← hout] at hx
  have hxy : x = y := (hy x).mp (hpart.level_iff.mpr ((hx x).mpr rfl))
  rw [hcolor, hcolor', hxy]

/-- The cone of `g` is in `b` as in `a`, and shown alike if a simulation is shown. -/
structure ConeKept (g : Gate) (a b : Area) : Prop where
  cone : Circuit.SameCone g.ptr a.circuit b.circuit
  picture : b.simulatorFlag = true → ∃ k ∈ b.m_gates.elems, k.part = g.part ∧ k.pixmap = g.pixmap
  wires : b.simulatorFlag = true → ∀ box : HitBoxPtr,
    ReflTransGen a.circuit.Reads g.ptr box.owner → b.scene.colorAt box = a.scene.colorAt box

section

variable {c : Area} {g : Gate} (ha : a.Sound) (hla : a.ShowsLevels) (hg : g ∈ a.m_gates.elems)
  (ht : g.type = .output) (hfree : a.circuit.LoopFree g.ptr)

include ha hla hg ht hfree

/-- Two areas that show their levels show a common cone alike. -/
theorem ShowsLevels.coneKept (hb : b.Sound) (hlb : b.ShowsLevels)
    (hcone : Circuit.SameCone g.ptr a.circuit b.circuit) : ConeKept g a b := by
  have hpart : g.part ∈ a.circuit.parts := mem_parts.mpr ⟨g, hg, rfl⟩
  have hpart' : g.part ∈ b.circuit.parts := (hcone.parts g.part .refl).mpr hpart
  obtain ⟨k, hk, hkg⟩ := mem_parts.mp hpart'
  refine ⟨hcone, fun _ => ⟨k, hk, hkg, hla.pixmap_eq hlb hcone hg hk hkg ht hfree⟩,
    fun _ box hbox => ?_⟩
  have hobs : a.circuit.Observed g.ptr := ⟨g.part, hpart, ht, .refl⟩
  have hobs' : b.circuit.Observed g.ptr := ⟨g.part, hpart', ht, .refl⟩
  have hca := ha.wellFormed.consistent
  have hcb := hb.wellFormed.consistent
  refine Option.ext fun color => ⟨?_, ?_⟩
  · exact hlb.colorAt_le hla hcb hca hcone.symm hobs' hobs (hcone.loopFree hfree)
      (hcone.forth hbox)
  · exact hla.colorAt_le hlb hca hcb hcone hobs hobs' hfree hbox

theorem step_coneKept {act : Action} (hb : b.Sound) (hd : b.DistinctIds) (hkept : ConeKept g a b)
    (hspare : Spares g.ptr act b) (h : step act b = .ok c) :
    c.Sound ∧ c.DistinctIds ∧ ConeKept g a c := by
  have hc := step_sound hb h
  have hdc := step_distinctIds hspare.loads hb hd h
  refine ⟨hc, hdc, ?_⟩
  have hcone : Circuit.SameCone g.ptr a.circuit c.circuit := by
    have hpart := (hkept.cone.parts g.part .refl).mpr (mem_parts.mpr ⟨g, hg, rfl⟩)
    obtain ⟨k, hk, hkg⟩ := mem_parts.mp hpart
    have hptr : k.ptr = g.ptr := congrArg Part.ptr hkg
    exact hkept.cone.trans (hptr ▸ Spares.sameCone hb hk (hptr.symm ▸ hspare) h)
  cases hflag : c.simulatorFlag with
  | false =>
    have hclear : ¬ c.simulatorFlag = true := by simp [hflag]
    exact ⟨hcone, fun hset => absurd hset hclear, fun hset => absurd hset hclear⟩
  | true =>
    rcases step_unpainted hb hspare.loads h hflag with hi | ⟨hset, hkeep⟩
    · exact hla.coneKept ha hg ht hfree hc (hi.showsLevels hc hdc hflag) hcone
    · refine ⟨hcone, fun _ => ?_, fun _ box hbox => ?_⟩
      · obtain ⟨k, hk, hshown⟩ := hkept.picture hset
        exact ⟨k, hkeep.gates k hk, hshown⟩
      · exact (hkeep.colorAt hb hc (hspare _ (hkept.cone.forth hbox))).trans
          (hkept.wires hset box hbox)

end

/-- **Edits far away.**  A scheme with distinct ids is simulated and its display is in step.
After any run without loads that touches no part of the cone of an output that reads no
feedback, if a simulation is shown then, the output and the wires of its cone show what they
showed, whether or not the rest of the display is in step. -/
theorem edits_local {gen : List Id} {acts more : List Action} {g : Gate}
    (h : create gen >>= runs step acts = .ok a) (hi : a.InStep) (hd : a.DistinctIds)
    (hflag : a.simulatorFlag = true) (hg : g ∈ a.m_gates.elems) (ht : g.type = .output)
    (hfree : a.circuit.LoopFree g.ptr) (hspare : Along step (Spares g.ptr) more a)
    (hb : runs step more a = .ok b) (hflag' : b.simulatorFlag = true) :
    (∃ k ∈ b.m_gates.elems, k.part = g.part ∧ k.pixmap = g.pixmap) ∧
      ∀ box : HitBoxPtr, ReflTransGen a.circuit.Reads g.ptr box.owner →
        b.scene.colorAt box = a.scene.colorAt box := by
  have ha := runs_sound h
  have hla := hi.showsLevels ha hd hflag
  have hstart : ConeKept g a a := hla.coneKept ha hg ht hfree ha hla (.refl g.ptr a.circuit)
  obtain ⟨_, _, hkept⟩ := runs_along (I := fun s => s.Sound ∧ s.DistinctIds ∧ ConeKept g a s)
    (fun _ _ _ hs hact hstep => step_coneKept ha hla hg ht hfree hs.1 hs.2.1 hs.2.2 hact hstep)
    hspare ⟨ha, hd, hstart⟩ more b (List.prefix_refl _) hb
  exact ⟨hkept.picture hflag', hkept.wires hflag'⟩

/-- Part `0` reads part `1` at most, which reads nothing. -/
theorem cone_pair {c : Circuit} (h : ∀ slot ∈ [HitBoxType.input1, .input2, .output],
      (c.source ⟨0, slot⟩ = none ∨ c.source ⟨0, slot⟩ = some 1) ∧ c.source ⟨1, slot⟩ = none) :
    (∀ p, ReflTransGen c.Reads 0 p → p = 0 ∨ p = 1) ∧ c.LoopFree 0 := by
  have hreads : ∀ {p q : Nat}, p = 0 ∨ p = 1 → c.Reads p q → p = 0 ∧ q = 1 := by
    rintro p q hp ⟨slot, hs⟩
    have hslots := h slot (by cases slot <;> decide)
    rcases hp with rfl | rfl
    · rcases hslots.1 with hnone | hone
      · rw [hnone] at hs
        cases hs
      · rw [hone] at hs
        exact ⟨rfl, (Option.some.inj hs).symm⟩
    · rw [hslots.2] at hs
      cases hs
  have hcone : ∀ p, ReflTransGen c.Reads 0 p → p = 0 ∨ p = 1 := by
    intro p hp
    induction hp with
    | refl => exact .inl rfl
    | tail _ hr ih => exact .inr (hreads ih hr).2
  refine ⟨hcone, fun q hq hloop => ?_⟩
  obtain ⟨r, hr, _⟩ := TransGen.head'_iff.mp hloop
  obtain ⟨s, hqs, hs⟩ := TransGen.tail'_iff.mp hloop
  obtain ⟨rfl, rfl⟩ := hreads (hcone q hq) hr
  -- the loop would end at part `1`
  obtain ⟨_, hend⟩ := hreads (hcone s hqs) hs
  cases hend

/-- Beside the output an input state is drawn, toggled and deleted, and then another output
is drawn that is not simulated. -/
def besideOutput : List Action :=
  [.draw .lowState, .changeTypeInput 2, .clearSimulate, .deleteGate 2, .simulate, .draw .output]

theorem edits_local_besideOutput :
    ∃ a b, create [7, 8, 9, 10] >>= runs step (highOutput ++ [.simulate]) = .ok a ∧
      runs step besideOutput a = .ok b ∧ a.scene.colorAt ⟨0, .input1⟩ = some (valueColor .high) ∧
      (∃ k ∈ b.m_gates.elems, k.part = ⟨0, .output, 7⟩ ∧ k.pixmap = .highState) ∧
      ∀ box : HitBoxPtr, ReflTransGen a.circuit.Reads 0 box.owner →
        b.scene.colorAt box = a.scene.colorAt box := by
  obtain ⟨a₃, a, b₁, b₂, b₃, b₄, b₅, b, hrun, h₃, hsim, k₁, k₂, k₃, k₄, k₅, k₆, hflag, hflag',
      hcolor, hids, hreads, hgate⟩ :
      ∃ a₃ a b₁ b₂ b₃ b₄ b₅ b,
        create [7, 8, 9, 10] >>= runs step (highOutput ++ [.simulate]) = .ok a ∧
        create [7, 8, 9, 10] >>= runs step highOutput = .ok a₃ ∧ a₃.simulate = .ok a ∧
        step (.draw .lowState) a = .ok b₁ ∧ step (.changeTypeInput 2) b₁ = .ok b₂ ∧
        step .clearSimulate b₂ = .ok b₃ ∧ step (.deleteGate 2) b₃ = .ok b₄ ∧
        step .simulate b₄ = .ok b₅ ∧ step (.draw .output) b₅ = .ok b ∧
        a.simulatorFlag = true ∧ b.simulatorFlag = true ∧
        a.scene.colorAt ⟨0, .input1⟩ = some (valueColor .high) ∧
        a.m_gates.elems.map Gate.id = [7, 8] ∧
        (∀ c ∈ [a, b₁, b₃], ∀ slot ∈ [HitBoxType.input1, .input2, .output],
          (c.circuit.source ⟨0, slot⟩ = none ∨ c.circuit.source ⟨0, slot⟩ = some 1) ∧
            c.circuit.source ⟨1, slot⟩ = none) ∧
        ∃ g ∈ a.m_gates.elems, g.part = ⟨0, .output, 7⟩ ∧ g.pixmap = .highState :=
    ⟨_, _, _, _, _, _, _, _, rfl, rfl, rfl, rfl, rfl, rfl, rfl, rfl, rfl, rfl, rfl, by decide,
      by decide, by decide, by decide⟩
  have hi : a.InStep := simulate_inStep (runs_sound h₃).wellFormed hsim
  have hrun' : runs step besideOutput a = .ok b := by
    simp only [besideOutput, runs, k₁, k₂, k₃, k₄, k₅, k₆, bind, Except.bind]
  have hspare : Along step (Spares 0) besideOutput a := by
    refine .cons k₁ (fun _ _ => id) (.cons k₂ ?_ (.cons k₃ (fun _ _ => id) (.cons k₄ ?_
      (.cons k₅ (fun _ _ => id) (.cons k₆ (fun _ _ => id) trivial)))))
    · rintro p hp (rfl : 2 = p)
      exact absurd ((cone_pair (hreads b₁ (by simp))).1 2 hp) (by decide)
    · rintro p hp (rfl : 2 = p)
      exact absurd ((cone_pair (hreads b₃ (by simp))).1 2 hp) (by decide)
  have hd : a.DistinctIds := by
    have hnodup : (a.m_gates.elems.map Gate.id).Nodup := hids ▸ by decide
    exact fun g hg g' hg' he => List.inj_on_of_nodup_map hnodup hg hg' he
  obtain ⟨g, hg, hpart, hpix⟩ := hgate
  have hptr : g.ptr = 0 := congrArg Part.ptr hpart
  have htype : g.type = .output := congrArg Part.type hpart
  have hfree : a.circuit.LoopFree g.ptr := by
    rw [hptr]
    exact (cone_pair (hreads a (by simp))).2
  obtain ⟨hk, hcolors⟩ :=
    edits_local hrun hi hd hflag hg htype hfree (hptr ▸ hspare) hrun' hflag'
  exact ⟨a, b, hrun, hrun', hcolor, hpart ▸ hpix ▸ hk, hptr ▸ hcolors⟩

end Area

end SimGate

import SimGate.Levels
import SimGate.Screen

/-!
# The random ids

A gate gets its id from the random generator, and the simulator visits the gates in the
order of their ids.  The user does not see an id, and outside of feedback does not see
what the order does either.

* `step_anon`: an edit without a load does the same to a circuit whatever its ids are;
* `ids_unseen`: two runs with the same edits, each with random ids of its own, look alike.
-/

namespace SimGate

open Execution Relation

/-! ## Circuits without ids -/

def Part.anon (p : Part) : Part := { p with id := gNotValidGateId }

@[simp] theorem Part.anon_ptr (p : Part) : p.anon.ptr = p.ptr := rfl

@[simp] theorem Part.anon_type (p : Part) : p.anon.type = p.type := rfl

theorem Part.anon_toggle (p : Part) : p.toggle.anon = p.anon.toggle := by
  obtain ⟨_, type, _⟩ := p
  cases type <;> rfl

namespace Circuit

/-- The circuit without its ids, those to come included. -/
def anon (c : Circuit) : Circuit := { c with parts := c.parts.map Part.anon, gen := [] }

variable {c d : Circuit}

theorem mem_anon {P : Part → Prop} (hP : ∀ p, P p.anon ↔ P p) :
    (∃ p ∈ c.anon.parts, P p) ↔ ∃ p ∈ c.parts, P p := by
  constructor
  · rintro ⟨p, hp, h⟩
    obtain ⟨x, hx, rfl⟩ := List.mem_map.mp hp
    exact ⟨x, hx, (hP x).mp h⟩
  · rintro ⟨p, hp, h⟩
    exact ⟨p.anon, List.mem_map_of_mem hp, (hP p).mpr h⟩

theorem hasPart_anon {gate : GatePtr} : c.anon.HasPart gate ↔ c.HasPart gate :=
  mem_anon fun _ => Iff.rfl

theorem hasBox_anon {box : HitBoxPtr} : c.anon.HasBox box ↔ c.HasBox box :=
  mem_anon fun _ => Iff.rfl

theorem complete_anon : c.anon.Complete ↔ c.Complete := by
  show (∀ p ∈ c.parts.map Part.anon, _) ↔ _
  rw [List.forall_mem_map]
  exact Iff.rfl

/-! ## Edits -/

theorem click_anon (box : HitBoxPtr) (c : Circuit) :
    (c.click box).map anon = c.anon.click box := by
  have hsource : c.anon.source = c.source := rfl
  have hpending : c.anon.pending = c.pending := rfl
  rw [click, click, hsource, hpending]
  simp only [hasBox_anon]
  split
  · rfl
  · split
    · rfl
    · cases c.pending with
      | none => rfl
      | some other =>
        show Option.map anon (if _ then _ else _) = if _ then _ else _
        split
        · rfl
        · split
          · rfl
          · split <;> rfl

theorem remove_anon (gate : GatePtr) (c : Circuit) :
    (c.remove gate).anon = c.anon.remove gate := by
  rw [remove, remove]
  simp only [hasPart_anon]
  split
  · refine Circuit.ext ?_ rfl rfl rfl rfl rfl
    show (c.parts.filter _).map Part.anon = (c.parts.map Part.anon).filter _
    rw [List.filter_map]
    rfl
  · rfl

theorem simulate_anon (c : Circuit) : c.simulate.map anon = c.anon.simulate := by
  rw [simulate, simulate]
  simp only [complete_anon]
  split <;> rfl

theorem toggle_anon (gate : GatePtr) (c : Circuit) :
    (c.toggle gate).map anon = c.anon.toggle gate := by
  have hparts : (c.parts.map fun p : Part => if p.ptr = gate then p.toggle else p).map Part.anon =
      (c.parts.map Part.anon).map fun p : Part => if p.ptr = gate then p.toggle else p := by
    rw [List.map_map, List.map_map]
    refine List.map_congr_left fun p _ => ?_
    show Part.anon (if p.ptr = gate then _ else _) = if p.ptr = gate then _ else _
    split
    · exact Part.anon_toggle p
    · rfl
  have htoggled : anon { c with
      parts := c.parts.map fun p : Part => if p.ptr = gate then p.toggle else p } =
      { c.anon with
        parts := c.anon.parts.map fun p : Part => if p.ptr = gate then p.toggle else p } :=
    Circuit.ext hparts rfl rfl rfl rfl rfl
  rw [toggle, toggle]
  simp only [hasPart_anon]
  split
  · show Option.map anon (if c.simulated then _ else _) = if c.simulated then _ else _
    split
    · rw [simulate_anon, htoggled]
    · exact congrArg some htoggled
  · rfl

theorem drawn_anon {type : CommonGateType} (h : c.step (.draw type) = some d) :
    d.anon = { c.anon with
      parts := if type = .enumSize then c.anon.parts
        else c.anon.parts ++ [⟨c.anon.next, type, gNotValidGateId⟩]
      next := c.anon.next + 1 } := by
  rw [step, drawEntity] at h
  split at h
  · cases h
  · next id gen _ =>
    cases h
    refine Circuit.ext ?_ rfl rfl rfl rfl rfl
    show (if type = .enumSize then _ else _ : List Part).map Part.anon = if _ then _ else _
    split
    · rfl
    · exact List.map_append

/-- **An edit** does the same to circuits with other ids. -/
theorem step_anon {c c' d d' : Circuit} {e : Edit} (he : e.loads = false)
    (hc : c.anon = c'.anon) (h : c.step e = some d) (h' : c'.step e = some d') :
    d.anon = d'.anon := by
  have hmap : ∀ {f : Circuit → Option Circuit}, (∀ c, (f c).map anon = f c.anon) →
      f c = some d → f c' = some d' → d.anon = d'.anon := by
    intro f hf hd hd'
    have heq := hf c
    rw [hc, ← hf c', hd, hd'] at heq
    exact Option.some.inj heq
  cases e with
  | draw type => rw [drawn_anon h, drawn_anon h', hc]
  | click hitbox => exact hmap (click_anon hitbox) h h'
  | unplug input => exact hmap (f := fun c => some (c.unplug input)) (fun _ => rfl) h h'
  | remove gate =>
    exact hmap (f := fun c => some (c.remove gate))
      (fun c => congrArg some (remove_anon gate c)) h h'
  | toggle gate => exact hmap (toggle_anon gate) h h'
  | simulate => exact hmap simulate_anon h h'
  | clearSimulate =>
    exact hmap (f := fun c => some { c with simulated := false }) (fun _ => rfl) h h'
  | load fuel file reader => cases he
  | idle => exact hmap (f := some) (fun _ => rfl) h h'

theorem run_anon {es : List Edit} (hes : ∀ e ∈ es, e.loads = false) {c c' d d' : Circuit}
    (hc : c.anon = c'.anon) (h : es.foldlM step c = some d) (h' : es.foldlM step c' = some d') :
    d.anon = d'.anon := by
  induction es generalizing c c' with
  | nil =>
    cases h
    cases h'
    exact hc
  | cons e es ih =>
    obtain ⟨he, hes⟩ := List.forall_mem_cons.mp hes
    rw [List.foldlM_cons] at h h'
    obtain ⟨x, hx, h⟩ := Option.bind_eq_some_iff.mp h
    obtain ⟨x', hx', h'⟩ := Option.bind_eq_some_iff.mp h'
    exact ih hes (step_anon he hc hx hx') h h'

/-! ## Levels -/

theorem Level.anon {q : Option GatePtr} {b : Bool} (h : c.Level q b) : c.anon.Level q b := by
  have hmem : ∀ {p : Part}, p ∈ c.parts → p.anon ∈ c.anon.parts := List.mem_map_of_mem
  induction h with
  | free => exact .free
  | @high p hp ht => exact .high (p := p.anon) (hmem hp) ht
  | @low p hp ht => exact .low (p := p.anon) (hmem hp) ht
  | @part p _ _ hp hh hl _ _ ihx ihy => exact .part (p := p.anon) (hmem hp) hh hl ihx ihy

theorem Level.of_anon {q : Option GatePtr} {b : Bool} (h : c.anon.Level q b) : c.Level q b := by
  induction h with
  | free => exact .free
  | high hp ht =>
    obtain ⟨x, hx, rfl⟩ := List.mem_map.mp hp
    exact .high (p := x) hx ht
  | low hp ht =>
    obtain ⟨x, hx, rfl⟩ := List.mem_map.mp hp
    exact .low (p := x) hx ht
  | part hp hh hl _ _ ihx ihy =>
    obtain ⟨x, hx, rfl⟩ := List.mem_map.mp hp
    exact .part (p := x) hx hh hl ihx ihy

theorem level_anon {q : Option GatePtr} {b : Bool} : c.anon.Level q b ↔ c.Level q b :=
  ⟨Level.of_anon, Level.anon⟩

theorem observed_anon {p : GatePtr} : c.anon.Observed p ↔ c.Observed p :=
  mem_anon fun _ => Iff.rfl

end Circuit

/-! ## Runs with other ids -/

namespace Area

variable {a b : Area}

/-- The gates have the same pictures and the wires the same colours, except where a
feedback is read. -/
structure LooksAlike (a b : Area) : Prop where
  gates : a.m_gates.elems.map (fun g => (g.ptr, g.type)) =
    b.m_gates.elems.map fun g => (g.ptr, g.type)
  source : a.scene.source = b.scene.source
  picture : ∀ g ∈ a.m_gates.elems, ∀ h ∈ b.m_gates.elems, g.ptr = h.ptr →
    (g.type = .output → a.circuit.LoopFree g.ptr) → g.pixmap = h.pixmap
  color : ∀ p w q v, a.scene.wire p = some w → b.scene.wire q = some v → w.input = v.input →
    (a.circuit.Observed w.output.owner → a.circuit.LoopFree w.output.owner) → w.color = v.color

theorem parts_anon (h : a.circuit.anon = b.circuit.anon) :
    a.m_gates.elems.map (fun g => (g.ptr, g.type)) =
      b.m_gates.elems.map fun g => (g.ptr, g.type) := by
  have hkey : ∀ c : Area, c.m_gates.elems.map (fun g => (g.ptr, g.type)) =
      c.circuit.anon.parts.map fun p => (p.ptr, p.type) := by
    intro c
    show _ = ((c.m_gates.elems.map Gate.part).map Part.anon).map _
    rw [List.map_map, List.map_map]
    rfl
  rw [hkey, hkey, h]

theorem type_anon (h : a.circuit.anon = b.circuit.anon) {g k : Gate} (hg : g ∈ a.m_gates.elems)
    (hk : k ∈ b.m_gates.elems) (hptr : g.ptr = k.ptr) : g.type = k.type := by
  have hmem : (g.ptr, g.type) ∈ b.m_gates.elems.map fun g => (g.ptr, g.type) := by
    rw [← parts_anon h]
    exact List.mem_map_of_mem hg
  obtain ⟨k', hk', heq⟩ := List.mem_map.mp hmem
  obtain ⟨hp, ht⟩ := Prod.mk.inj heq
  rw [KeySet.eq_of_key hk hk' (hptr.symm.trans hp.symm), ht]

theorem loopFree_anon (h : a.circuit.anon = b.circuit.anon) {gate : GatePtr} :
    a.circuit.LoopFree gate ↔ b.circuit.LoopFree gate := by
  have hsource : a.circuit.source = b.circuit.source :=
    (congrArg Circuit.source h : a.circuit.anon.source = b.circuit.anon.source)
  have hreads : a.circuit.Reads = b.circuit.Reads := by
    funext p q
    simp only [Circuit.Reads, hsource]
  rw [Circuit.LoopFree, Circuit.LoopFree, hreads]

/-- What is shown of a gate has nothing to do with the ids. -/
theorem Shown.value_eq (ha : a.Shown) (hb : b.Shown) (hda : a.DistinctIds) (hdb : b.DistinctIds)
    (h : a.circuit.anon = b.circuit.anon) {g k : Gate} (hg : g ∈ a.m_gates.elems)
    (hk : k ∈ b.m_gates.elems) (hptr : g.ptr = k.ptr)
    (hfree : a.circuit.Observed g.ptr → a.circuit.LoopFree g.ptr) {v w : CommonValueOutput}
    (hv : a.Level g.id v) (hw : b.Level k.id w) : v = w := by
  have hwa := ha.sound.wellFormed
  have hwb := hb.sound.wellFormed
  have hflag : a.simulatorFlag = b.simulatorFlag := congrArg Circuit.simulated h
  have hobs : a.circuit.Observed g.ptr ↔ b.circuit.Observed k.ptr := by
    rw [← Circuit.observed_anon, h, Circuit.observed_anon, hptr]
  have hlevel : ∀ c, a.circuit.Level (some g.ptr) c ↔ b.circuit.Level (some k.ptr) c := by
    intro c
    rw [← Circuit.level_anon, h, Circuit.level_anon, hptr]
  unfold Level at hv hw
  rw [← hflag] at hw
  split at hv
  · next hf =>
    rw [if_pos hf] at hw
    by_cases ho : a.circuit.Observed g.ptr
    · obtain ⟨x, hx, rfl⟩ := hwa.reports_level hda hg ho (hfree ho) hv
      have hfree' : b.circuit.LoopFree k.ptr := hptr ▸ (loopFree_anon h).mp (hfree ho)
      obtain ⟨y, hy, rfl⟩ := hwb.reports_level hdb hk (hobs.mp ho) hfree' hw
      rw [(hx y).mp ((hlevel y).mpr ((hy y).mpr rfl))]
    · have ha' := reports_unread (simMap_ready a) (mt (hwa.observed_iff hda hg).mpr ho)
      have hb' := reports_unread (simMap_ready b)
        (mt (hwb.observed_iff hdb hk).mpr (mt hobs.mpr ho))
      rw [reports_unique hv ha', reports_unique hw hb']
  · next hf =>
    rw [if_neg hf] at hw
    exact hv.trans hw.symm

theorem Shown.looksAlike (ha : a.Shown) (hb : b.Shown) (hda : a.DistinctIds)
    (hdb : b.DistinctIds) (h : a.circuit.anon = b.circuit.anon) : a.LooksAlike b where
  gates := parts_anon h
  source := (congrArg Circuit.source h : a.circuit.anon.source = b.circuit.anon.source)
  picture g hg k hk hptr hfree := by
    have htype := type_anon h hg hk hptr
    have hsa := ha.sound.wellFormed.shaped g hg
    have hsb := hb.sound.wellFormed.shaped k hk
    have hout : g.isOutput = k.isOutput := by rw [hsa.isOutput, hsb.isOutput, htype]
    cases ho : g.isOutput with
    | true =>
      have ht : g.type = .output := by simpa [hsa.isOutput] using ho
      obtain ⟨v, hv, hpix⟩ := (ha.inStep.displays ha.sound.wellFormed).output g hg ho
      obtain ⟨w, hw, hpix'⟩ := (hb.inStep.displays hb.sound.wellFormed).output k hk (hout ▸ ho)
      rw [hpix, hpix', ha.value_eq hb hda hdb h hg hk hptr (fun _ => hfree ht) hv hw]
    | false => rw [ha.pictured g hg ho, hb.pictured k hk (hout ▸ ho), htype]
  color p w q v hw hv hin hfree := by
    have hca := ha.sound.wellFormed.consistent
    have hcb := hb.sound.wellFormed.consistent
    have hsource : a.scene.source = b.scene.source :=
      (congrArg Circuit.source h : a.circuit.anon.source = b.circuit.anon.source)
    have hread : some w.output.owner = some v.output.owner := by
      rw [← hca.source_eq_some.mpr ⟨p, w, hw, hin, rfl⟩, hsource]
      exact hcb.source_eq_some.mpr ⟨q, v, hv, rfl, rfl⟩
    obtain ⟨g, hg, hptr, x, hx, hcolor⟩ := (ha.inStep.displays ha.sound.wellFormed).wire p w hw
    obtain ⟨k, hk, hptr', y, hy, hcolor'⟩ := (hb.inStep.displays hb.sound.wellFormed).wire q v hv
    have hgk : g.ptr = k.ptr := by rw [hptr, hptr', Option.some.inj hread]
    rw [hcolor, hcolor', ha.value_eq hb hda hdb h hg hk hgk (hptr ▸ hfree) hx hy]

/-- The edits of a run are loads as its actions are. -/
theorem labels_loads {acts : List Action} (hacts : ∀ act ∈ acts, act.loads = false) (a : Area) :
    ∀ e ∈ labels step edit acts a, e.loads = false := by
  induction acts generalizing a with
  | nil => simp [labels]
  | cons act acts ih =>
    obtain ⟨hact, hacts⟩ := List.forall_mem_cons.mp hacts
    rw [labels]
    refine List.forall_mem_cons.mpr ⟨?_, ?_⟩
    · cases act with
      | deleteWire wire =>
        rw [edit]
        cases a.scene.wire wire <;> rfl
      | load fuel file reader => cases hact
      | _ => rfl
    · cases step act a with
      | ok b => exact ih hacts b
      | error e => simp

/-- **The random ids are not seen.**  Two runs that make the same edits and keep their
display in step look alike, whatever ids their gates were given. -/
theorem ids_unseen {gen gen' : List Id} {acts acts' : List Action} {a₀ b₀ : Area}
    (ha₀ : create gen = .ok a₀) (hkeep : Along step KeepsDisplay acts a₀)
    (ha : runs step acts a₀ = .ok a)
    (hb₀ : create gen' = .ok b₀) (hkeep' : Along step KeepsDisplay acts' b₀)
    (hb : runs step acts' b₀ = .ok b)
    (hacts : ∀ act ∈ acts, act.loads = false) (hacts' : ∀ act ∈ acts', act.loads = false)
    (hedits : labels step edit acts a₀ = labels step edit acts' b₀) : a.LooksAlike b := by
  have hrun : create gen >>= runs step acts = .ok a := by
    rw [ha₀]
    exact ha
  have hrun' : create gen' >>= runs step acts' = .ok b := by
    rw [hb₀]
    exact hb
  have hlabels : ∀ {gen acts} {c : Area}, create gen = .ok c →
      labels step edit (.draw .output :: acts) (start gen) =
        .draw .output :: labels step edit acts c := by
    intro gen acts c hc
    rw [labels, show step (.draw .output) (start gen) = .ok c from hc]
    rfl
  obtain ⟨c, hc, _, hac⟩ := (runs_abstracts gen acts).of_ok hrun
  obtain ⟨d, hd, _, hbd⟩ := (runs_abstracts gen' acts').of_ok hrun'
  rw [hlabels ha₀] at hc
  rw [hlabels hb₀, ← hedits] at hd
  have hanon : a.circuit.anon = b.circuit.anon := by
    have hstart : (Circuit.start gen).anon = (Circuit.start gen').anon := rfl
    rw [hac, hbd]
    exact Circuit.run_anon (List.forall_mem_cons.mpr ⟨rfl, labels_loads hacts a₀⟩) hstart hc hd
  exact (runs_shown ha₀ hkeep ha).looksAlike (runs_shown hb₀ hkeep' hb)
    (runs_distinctIds hacts hrun).2 (runs_distinctIds hacts' hrun').2 hanon

/-- The output reads an input state; the generator gives the ids in either order. -/
theorem ids_unseen_highOutput :
    ∃ a₀ a b₀ b, create [7, 8] = .ok a₀ ∧ runs step (highOutput ++ [.simulate]) a₀ = .ok a ∧
      create [8, 7] = .ok b₀ ∧ runs step (highOutput ++ [.simulate]) b₀ = .ok b ∧
      a.m_gates.elems.map Gate.id = [7, 8] ∧ b.m_gates.elems.map Gate.id = [8, 7] ∧
      a.LooksAlike b := by
  have hshow : ∀ {gen : List Id} {a₀ a₁ a₂ a₃ a : Area}, create gen = .ok a₀ →
      step (.draw .highState) a₀ = .ok a₁ → step (.click ⟨0, .input1⟩) a₁ = .ok a₂ →
      step (.click ⟨1, .output⟩) a₂ = .ok a₃ → step .simulate a₃ = .ok a →
      a₀.simulatorFlag = false → a₁.simulatorFlag = false → a₂.simulatorFlag = false →
      Along step KeepsDisplay (highOutput ++ [.simulate]) a₀ ∧
        runs step (highOutput ++ [.simulate]) a₀ = .ok a := by
    intro gen a₀ a₁ a₂ a₃ a h h₁ h₂ h₃ h₄ hf₀ hf₁ hf₂
    refine ⟨.cons h₁ (keeps_of_clear hf₀) (.cons h₂ (keeps_of_clear hf₁)
      (.cons h₃ (keeps_of_clear hf₂) (.cons h₄ (fun _ => trivial) trivial))), ?_⟩
    simp only [highOutput, List.cons_append, List.nil_append, runs, h₁, h₂, h₃, h₄, bind,
      Except.bind]
  obtain ⟨a₀, a₁, a₂, a₃, a, h, h₁, h₂, h₃, h₄, hf₀, hf₁, hf₂, hids, hedits⟩ :
      ∃ a₀ a₁ a₂ a₃ a, create [7, 8] = .ok a₀ ∧ step (.draw .highState) a₀ = .ok a₁ ∧
        step (.click ⟨0, .input1⟩) a₁ = .ok a₂ ∧ step (.click ⟨1, .output⟩) a₂ = .ok a₃ ∧
        step .simulate a₃ = .ok a ∧ a₀.simulatorFlag = false ∧ a₁.simulatorFlag = false ∧
        a₂.simulatorFlag = false ∧ a.m_gates.elems.map Gate.id = [7, 8] ∧
        labels step edit (highOutput ++ [.simulate]) a₀ =
          [.draw .highState, .click ⟨0, .input1⟩, .click ⟨1, .output⟩, .simulate] :=
    ⟨_, _, _, _, _, rfl, rfl, rfl, rfl, rfl, rfl, rfl, rfl, by decide, rfl⟩
  obtain ⟨b₀, b₁, b₂, b₃, b, k, k₁, k₂, k₃, k₄, kf₀, kf₁, kf₂, kids, kedits⟩ :
      ∃ b₀ b₁ b₂ b₃ b, create [8, 7] = .ok b₀ ∧ step (.draw .highState) b₀ = .ok b₁ ∧
        step (.click ⟨0, .input1⟩) b₁ = .ok b₂ ∧ step (.click ⟨1, .output⟩) b₂ = .ok b₃ ∧
        step .simulate b₃ = .ok b ∧ b₀.simulatorFlag = false ∧ b₁.simulatorFlag = false ∧
        b₂.simulatorFlag = false ∧ b.m_gates.elems.map Gate.id = [8, 7] ∧
        labels step edit (highOutput ++ [.simulate]) b₀ =
          [.draw .highState, .click ⟨0, .input1⟩, .click ⟨1, .output⟩, .simulate] :=
    ⟨_, _, _, _, _, rfl, rfl, rfl, rfl, rfl, rfl, rfl, rfl, by decide, rfl⟩
  obtain ⟨hkeep, hrun⟩ := hshow h h₁ h₂ h₃ h₄ hf₀ hf₁ hf₂
  obtain ⟨kkeep, krun⟩ := hshow k k₁ k₂ k₃ k₄ kf₀ kf₁ kf₂
  exact ⟨a₀, a, b₀, b, h, hrun, k, krun, hids, kids, ids_unseen h hkeep hrun k kkeep krun
    (by decide) (by decide) (hedits.trans kedits.symm)⟩

end Area

end SimGate

import SimGate.Loadable
import SimGate.Relocation
import SimGate.Resaving

/-!
# Working on with a loaded project

Saving and loading a project puts its gates at other addresses and its wires in other
places.  What is done with the original can be done with what was loaded, and it comes to
the same.

* `reload_relocated`: what was loaded is the saved circuit at other addresses;
* `reload_continues`: the same edits of the two end alike.
-/

namespace SimGate

open Execution

/-! ## Where the gates go -/

section

/-- The gates of `l` are copied in order from `start` on, and so are, after them, all gates
from `next` on; a gate that is gone goes to 0, which no gate is any more. -/
def reloadedAt (l : List Nat) (next start p : Nat) : Nat :=
  if next ≤ p then start + l.length + (p - next)
  else if p ∈ l then start + l.idxOf p else 0

variable {l : List Nat} {next start : Nat} (hstart : 0 < start)

theorem reloadedAt_new (k : Nat) : reloadedAt l next start (next + k) = start + l.length + k := by
  rw [reloadedAt, if_pos (Nat.le_add_right next k), Nat.add_sub_cancel_left]

theorem reloadedAt_old (hlt : ∀ p ∈ l, p < next) {p : Nat} (hp : p ∈ l) :
    reloadedAt l next start p = start + l.idxOf p := by
  rw [reloadedAt, if_neg (Nat.not_le.mpr (hlt p hp)), if_pos hp]

include hstart

theorem apart_new (k : Nat) : Apart (reloadedAt l next start) (next + k) := by
  intro (q : Nat) (hq : reloadedAt l next start q = reloadedAt l next start (next + k))
  show q = next + k
  rw [reloadedAt_new] at hq
  unfold reloadedAt at hq
  split at hq
  · omega
  · split at hq
    · next hmem =>
      have hlt := List.idxOf_lt_length_of_mem hmem
      omega
    · omega

theorem apart_old (hlt : ∀ p ∈ l, p < next) {p : Nat} (hp : p ∈ l) :
    Apart (reloadedAt l next start) p := by
  intro (q : Nat) (hq : reloadedAt l next start q = reloadedAt l next start p)
  have hidx := List.idxOf_lt_length_of_mem hp
  rw [reloadedAt_old hlt hp] at hq
  unfold reloadedAt at hq
  split at hq
  · omega
  · split at hq
    · next hmem => exact List.idxOf_inj hmem |>.mp (Nat.add_left_cancel hq)
    · omega

end

/-! ## Gates that were drawn -/

namespace Circuit

variable {c d : Circuit}

theorem click_next {box : HitBoxPtr} (h : c.click box = some d) : d.next = c.next := by
  grind [click, plug]

theorem connectSlot_next {p : Part} {slot : HitBoxType} {id : Id}
    (h : c.connectSlot p slot id = some d) : d.next = c.next := by
  rw [connectSlot] at h
  split at h
  · cases h
  · split at h
    · obtain ⟨e, he, h⟩ := Option.bind_eq_some_iff.mp h
      exact (click_next h).trans (click_next he)
    · cases h

theorem connectPair_next {pair : Id × Id} (h : c.connectPair pair = some d) :
    d.next = c.next := by
  grind [connectPair, connectSlot_next]

theorem drawEntity_next {e : Entity} (h : c.drawEntity e = some d) : d.next = c.next + 1 := by
  grind [drawEntity]

theorem load_next {fuel : Nat} {file : Option (List Element)} {reader : Element}
    (h : c.load fuel file reader = some d) : c.next ≤ d.next := by
  cases file with
  | none =>
    cases h
    exact Nat.le_refl c.next
  | some file =>
    rw [load] at h
    split at h
    · obtain ⟨e, he, h⟩ := Option.bind_eq_some_iff.mp h
      have hdrawn : c.next ≤ e.next := foldlM_some (I := fun d => c.next ≤ d.next)
        (fun _ _ _ hle hd => drawEntity_next hd ▸ Nat.le_succ_of_le hle) (Nat.le_refl c.next) he
      exact foldlM_some (I := fun d => c.next ≤ d.next)
        (fun _ _ _ hle hd => connectPair_next hd ▸ hle) hdrawn h
    · cases h

/-- Pointers are not used again. -/
theorem step_next {e : Edit} (h : c.step e = some d) : c.next ≤ d.next := by
  cases e with
  | draw type => exact drawEntity_next h ▸ Nat.le_succ c.next
  | click box => exact (click_next h).ge
  | remove gate =>
    cases h
    rw [remove]
    split <;> exact Nat.le_refl c.next
  | toggle gate => grind [step, toggle, simulate]
  | simulate => grind [step, simulate]
  | load fuel file reader => exact load_next h
  | _ =>
    cases h
    exact Nat.le_refl c.next

end Circuit

namespace Area

variable {a : Area}

/-- The first gate of a project is at 0. -/
theorem runs_next {gen : List Id} {acts : List Action}
    (h : create gen >>= runs step acts = .ok a) : 0 < a.nextGate := by
  obtain ⟨c, hc, _, rfl⟩ := (runs_abstracts gen acts).of_ok h
  rw [labels, List.foldlM_cons] at hc
  obtain ⟨d, hd, hc⟩ := Option.bind_eq_some_iff.mp hc
  have hfirst : d.next = 0 + 1 := Circuit.drawEntity_next hd
  refine foldlM_some (I := fun c : Circuit => 0 < c.next) ?_ (hfirst ▸ Nat.one_pos) hc
  exact fun _ _ _ hpos hstep => Nat.lt_of_lt_of_le hpos (Circuit.step_next hstep)

/-! ## What a load leaves -/

theorem Decoder.entity_input (d : Decoder) (value : Id) :
    (d.read (.input value)).entity = d.entity := by
  rw [read]
  split <;> rfl

theorem Decoder.entities_saved (d : Decoder) (l : List Gate) :
    d.entities ((l.map a.saved).flatten ++ [.endFile]) =
      l.map fun g => ⟨g.type, g.id, g.x, g.y⟩ := by
  induction l generalizing d with
  | nil => rfl
  | cons g l ih =>
    have htype : CommonGateType.ofCode g.type.code = g.type := CommonGateType.ofCode_code g.type
    simp only [saved, entities, List.map_cons, List.flatten_cons, List.cons_append,
      List.nil_append, reduceCtorEq, if_false, if_true, ih, entity_input]
    exact congrArg₂ List.cons (Entity.mk.injEq .. ▸ ⟨htype, rfl, rfl, rfl⟩) rfl

section

variable {a₀ b : Area} {file : List Element} {fuel : Nat} {reader : Element} (ha : a.WellFormed)
  (hd : a.DistinctIds) (hsave : a.saveProject = .ok file) (ha₀ : a₀.Sound)
  (hload : a₀.loadProject fuel (some file) reader = .ok b)

include ha hsave ha₀ hload

/-- The gates are drawn in the order of the file. -/
theorem load_circuit :
    b.circuit.parts = (a.m_gates.elems.map fun g => (⟨g.type, g.id, g.x, g.y⟩ : Entity)).mapIdx
        (fun i e => ⟨a₀.nextGate + i, e.type, e.id⟩) ∧
      b.nextGate = a₀.nextGate + a.m_gates.elems.length ∧ b.gen = a₀.gen ∧
      b.simulatorFlag = a₀.simulatorFlag := by
  rw [ha.saveProject_eq (ha.secondsConnected hsave)] at hsave
  cases hsave
  obtain ⟨s, c, hw, _, _, hp, hdraw, hconn⟩ := loadProject_ok ha₀.wellFormed hload
  have habs : Abstracts { a₀ with scene := s, m_gates := ∅ } _ := ⟨⟨hw, hp ha₀.pending⟩, rfl⟩
  obtain ⟨d, hdrawn, _, hcd⟩ :=
    (Simulated.foldlM (fun e _ _ _ h => drawEntity_simulated h e) habs).of_ok hdraw
  have hvalid : ∀ e ∈ a.m_gates.elems.map fun g => (⟨g.type, g.id, g.x, g.y⟩ : Entity),
      e.type ≠ .enumSize ∧ e.id ≠ gNotValidGateId :=
    List.forall_mem_map.mpr fun g hg => ⟨(ha.shaped g hg).type, (ha.shaped g hg).id⟩
  rw [Decoder.entities_saved, Circuit.foldlM_drawEntity hvalid] at hdrawn
  obtain ⟨hgates, hnext, hgen, hflag⟩ : b.m_gates = c.m_gates ∧ b.nextGate = c.nextGate ∧
      b.gen = c.gen ∧ b.simulatorFlag = c.simulatorFlag := by
    refine foldlM_invariant (I := fun x : Area => x.m_gates = c.m_gates ∧
      x.nextGate = c.nextGate ∧ x.gen = c.gen ∧ x.simulatorFlag = c.simulatorFlag) ?_
      ⟨rfl, rfl, rfl, rfl⟩ hconn
    intro pair _ x y hx hy
    rcases connectPair_ok hy with rfl | ⟨_, _, _, _, _, _, rfl⟩
    · exact hx
    · exact hx
  have hc := hcd.trans (Option.some.inj hdrawn).symm
  refine ⟨?_, hnext.trans ?_, hgen.trans (congrArg Circuit.gen hc),
    hflag.trans (congrArg Circuit.simulated hc)⟩
  · have hparts : b.circuit.parts = c.circuit.parts :=
      congrArg (fun gates => gates.elems.map Gate.part) hgates
    rw [hparts, hc]
    rfl
  · rw [show c.nextGate = _ from congrArg Circuit.next hc, List.length_map]
    rfl

/-- Where the gates of the saved scheme are after the load. -/
theorem load_parts : b.circuit.parts = a.circuit.parts.map (Part.relocate
    (reloadedAt (a.m_gates.elems.map Gate.ptr) a.nextGate a₀.nextGate)) := by
  rw [(load_circuit ha hsave ha₀ hload).1]
  refine List.ext_getElem (by simp [circuit]) fun i hi hi' => ?_
  have hlen : i < (a.m_gates.elems.map Gate.ptr).length := by simpa [circuit] using hi'
  have hidx := List.Nodup.idxOf_getElem a.m_gates.nodup_keys i hlen
  have hold : reloadedAt _ a.nextGate a₀.nextGate _ = _ := reloadedAt_old
    (List.forall_mem_map.mpr fun g hg => ha.allocated g hg) (List.getElem_mem hlen)
  rw [hidx] at hold
  simp only [circuit, List.getElem_mapIdx, List.getElem_map, Part.relocate, Gate.part] at hold ⊢
  rw [hold]

include hd

/-- After a load nothing waits for another click. -/
theorem load_idle (hin : a₀.scene.input = none) (hout : a₀.scene.output = none) :
    b.circuit.pending = none := by
  obtain ⟨c, hc, hsaved⟩ := loadProject_saved ha hd hsave ha₀.wellFormed reader
  have hh : c.Holding .idle := ⟨hc.input.trans hin, hc.output.trans hout⟩
  obtain ⟨b', hb', hr, _⟩ := Represents.replay_all ⟨hc.shows _, hh⟩ (hc.joins ha hd)
    fun h hh => by simpa [Board.used, Board.bare] using hc.capacity ha hd h hh
  have hret : Returns (fun fuel => a₀.loadProject fuel (some file) reader) b' :=
    ⟨7 * a.m_gates.size + 1, fun fuel hf => (hsaved fuel hf).trans hb'⟩
  cases hret.unique (loadProject_returns hload)
  have hhold := hr.holding
  rw [(Board.replay_idle hd.reads_length_le).handler] at hhold
  show b.scene.input.or b.scene.output = none
  rw [hhold.1, hhold.2]
  rfl

end

theorem WellFormed.source_owner (ha : a.WellFormed) {box : HitBoxPtr} {q : GatePtr}
    (h : a.scene.source box = some q) : ∃ g ∈ a.m_gates.elems, g.ptr = box.owner := by
  obtain ⟨b, hb, _⟩ := Option.bind_eq_some_iff.mp h
  obtain ⟨g, hg, hbox⟩ := (ha.alive box).mp ⟨b, hb⟩
  exact ⟨g, hg, ((ha.shaped g hg).mem_hitboxes.mp hbox).1.symm⟩

theorem mem_relocated {b : Area} {π : GatePtr → GatePtr}
    (hparts : b.circuit.parts = a.circuit.parts.map (Part.relocate π)) {g : Gate}
    (hg : g ∈ a.m_gates.elems) : ∃ k ∈ b.m_gates.elems, k.part = g.part.relocate π := by
  have hmem : g.part.relocate π ∈ b.circuit.parts := by
    rw [hparts]
    exact List.mem_map_of_mem (List.mem_map_of_mem hg)
  exact List.mem_map.mp hmem

/-- A copied gate reads the copy of what the gate read. -/
theorem source_relocated {b : Area} {π : GatePtr → GatePtr} (ha : a.WellFormed)
    (hd : a.DistinctIds) (hcopies : Copies a b)
    (hshows : b.Shows (a.allRecorded.foldl Board.replay (.bare .idle)))
    (hparts : b.circuit.parts = a.circuit.parts.map (Part.relocate π)) {g : Gate}
    (hg : g ∈ a.m_gates.elems) (hfirst : a.Connected g .input2 → a.Connected g .input1)
    (slot : HitBoxType) :
    b.scene.source ⟨π g.ptr, slot⟩ = (a.scene.source ⟨g.ptr, slot⟩).map π := by
  have hb := hshows.wellFormed
  obtain ⟨k, hk, hkg⟩ := mem_relocated hparts hg
  obtain ⟨hkptr, _, hkid⟩ := Part.mk.inj hkg
  have hcopy : Copy g k := by
    obtain ⟨h, hh, hcopy⟩ := hcopies.copied g hg
    rwa [hshows.distinct k hk h hh (hkid.trans hcopy.id.symm)]
  have hslot := reloaded_slotId ha hd hshows hg hk hcopy hfirst slot
  rw [← show k.ptr = π g.ptr from hkptr]
  rcases ha.source_cases g slot with hs | ⟨x, hx, hs⟩
  · have h0 : ¬ a.Connected g slot := fun hc => ha.connected_iff.mp hc hs
    rw [ha.connected_slotId, ← hslot, ← hb.connected_slotId, hb.connected_iff] at h0
    rw [hs, not_not.mp h0]
    rfl
  · obtain ⟨y, hy, hyx⟩ := mem_relocated hparts hx
    obtain ⟨hyptr, _, hyid⟩ := Part.mk.inj hyx
    rw [slotId_of_source hx hs] at hslot
    rcases hb.source_cases k slot with hs' | ⟨z, hz, hs'⟩
    · have h0 : ¬ b.Connected k slot := fun hc => hb.connected_iff.mp hc hs'
      rw [hb.connected_slotId, hslot] at h0
      exact absurd (ha.shaped x hx).id h0
    · rw [slotId_of_source hz hs'] at hslot
      rw [hs, hs', hshows.distinct z hz y hy (hslot.trans hyid.symm)]
      exact congrArg some hyptr

/-- **What was loaded** is the saved circuit at other addresses. -/
theorem reload_relocated {a₀ b : Area} {file : List Element} {fuel : Nat} {reader : Element}
    (ha : a.Sound) (hd : a.DistinctIds) (hsave : a.saveProject = .ok file) (ha₀ : a₀.Sound)
    (hload : a₀.loadProject fuel (some file) reader = .ok b) (hstart : 0 < a₀.nextGate)
    (hidle : a.circuit.pending = none) (hidle₀ : a₀.circuit.pending = none)
    (hgen : a₀.gen = a.gen) (hflag : a₀.simulatorFlag = a.simulatorFlag)
    (hfirst : ∀ g ∈ a.m_gates.elems, a.Connected g .input2 → a.Connected g .input1) :
    Circuit.Relocated (reloadedAt (a.m_gates.elems.map Gate.ptr) a.nextGate a₀.nextGate)
      a.circuit b.circuit := by
  have hw := ha.wellFormed
  obtain ⟨hin, hout⟩ := Option.or_eq_none_iff.mp hidle₀
  have hreload : Reloads a b :=
    ⟨file, a₀, reader, hsave, ha₀.wellFormed, hin, hout, loadProject_returns hload⟩
  obtain ⟨hcopies, hshows⟩ := hreload.copies hw hd
  obtain ⟨_, hnext, hbgen, hbflag⟩ := load_circuit hw hsave ha₀ hload
  have hparts := load_parts hw hsave ha₀ hload
  have hold : ∀ g ∈ a.m_gates.elems,
      Apart (reloadedAt (a.m_gates.elems.map Gate.ptr) a.nextGate a₀.nextGate) g.ptr :=
    fun g hg => apart_old hstart (List.forall_mem_map.mpr fun g hg => hw.allocated g hg)
      (List.mem_map_of_mem hg)
  refine ⟨hparts, List.forall_mem_map.mpr hold, fun k => ⟨apart_new hstart k, ?_⟩,
    fun box hbox => ?_, fun box q _ hq => ?_, ?_, ?_, hbflag.trans hflag, hbgen.trans hgen⟩
  · have hlen : (a.m_gates.elems.map Gate.ptr).length = a.m_gates.elems.length :=
      List.length_map Gate.ptr
    rw [show b.circuit.next = _ from hnext, ← hlen]
    exact reloadedAt_new k
  · by_cases howner : ∃ g ∈ a.m_gates.elems, g.ptr = box.owner
    · obtain ⟨g, hg, hptr⟩ := howner
      obtain ⟨owner, slot⟩ := box
      cases hptr
      exact source_relocated hw hd hcopies hshows hparts hg (hfirst g hg) slot
    · have hnone : a.scene.source box = none := Option.eq_none_iff_forall_ne_some.mpr
        fun q hq => howner (hw.source_owner hq)
      show b.scene.source _ = (a.scene.source box).map _
      rw [hnone]
      refine Option.eq_none_iff_forall_ne_some.mpr fun q hq => ?_
      obtain ⟨k, hk, hptr⟩ := hshows.wellFormed.source_owner hq
      have hmem : k.part ∈ b.circuit.parts := List.mem_map_of_mem hk
      rw [hparts] at hmem
      obtain ⟨p, hp, hpk⟩ := List.mem_map.mp hmem
      obtain ⟨g, hg, rfl⟩ := List.mem_map.mp hp
      exact howner ⟨g, hg, hbox _ ((Part.mk.inj hpk).1.trans hptr)⟩
  · obtain ⟨x, hx, rfl⟩ := hw.source_mem hq
    exact hold x hx
  · rw [hidle, load_idle hw hd hsave ha₀ hload hin hout]
    rfl
  · rw [hidle]
    simp

/-! ## Going on -/

theorem WellFormed.createSimMap_congr {b : Area} (ha : a.WellFormed) (hb : b.WellFormed)
    (h : b.circuit.simMap = a.circuit.simMap) : b.createSimMap = a.createSimMap := by
  cases hm : a.circuit.simMap with
  | some map =>
    obtain ⟨_, hmap, rfl⟩ := ha.simMap_simulated.of_some hm
    obtain ⟨_, hmap', rfl⟩ := hb.simMap_simulated.of_some (h.trans hm)
    rw [hmap, hmap']
  | none =>
    have hfree : ∀ {c : Area}, c.WellFormed → c.circuit.simMap = none → ¬ c.SecondsConnected := by
      intro c hc hnone hsec
      rw [Circuit.simMap, if_pos (hc.complete_iff.mpr hsec)] at hnone
      cases hnone
    rw [ha.createSimMap_null (hfree ha hm), hb.createSimMap_null (hfree hb (h.trans hm))]

/-- Whatever is done with the one scheme can be done with the other. -/
theorem action_follows {b : Area} {π : GatePtr → GatePtr}
    (h : Corresponds Abstracts (Circuit.Relocated π) a b) (act : Action) :
    ∃ act', b.edit act' = (a.edit act).relocate π := by
  obtain ⟨_, _, ⟨ha, rfl⟩, ⟨hb, rfl⟩, hr⟩ := h
  cases act with
  | draw type => exact ⟨.draw type, rfl⟩
  | click box => exact ⟨.click (box.relocate π), rfl⟩
  | deleteGate gate => exact ⟨.deleteGate (π gate), rfl⟩
  | changeTypeInput gate => exact ⟨.changeTypeInput (π gate), rfl⟩
  | simulate => exact ⟨.simulate, rfl⟩
  | clearSimulate => exact ⟨.clearSimulate, rfl⟩
  | load fuel file reader => exact ⟨.load fuel file reader, rfl⟩
  | deleteWire wire =>
    cases hw : a.scene.wire wire with
    | none => exact ⟨.deleteWire b.scene.nextWire, by rw [hb.wellFormed.edit_idle, edit, hw]; rfl⟩
    | some w =>
      have hsource := ha.wellFormed.consistent.source_eq_some.mpr ⟨wire, w, hw, rfl, rfl⟩
      obtain ⟨g, hg, hptr⟩ := ha.wellFormed.source_owner hsource
      have hread := hr.source w.input (hptr ▸ hr.apart g.part (List.mem_map_of_mem hg))
      rw [show a.circuit.source w.input = _ from hsource] at hread
      obtain ⟨q, v, hv, hin, _⟩ := hb.wellFormed.consistent.source_eq_some.mp hread
      exact ⟨.deleteWire q, by simp only [edit, hv, hw, hin]; rfl⟩

/-- Both schemes give the simulator and the table the same, and their circuits are alike. -/
structure Continues (π : GatePtr → GatePtr) (a b : Area) : Prop where
  circuit : Circuit.Relocated π a.circuit b.circuit
  map : b.createSimMap = a.createSimMap

/-- The same edits of two schemes with the same circuit at other addresses. -/
theorem relocated_runs {b : Area} {π : GatePtr → GatePtr}
    (h : Corresponds Abstracts (Circuit.Relocated π) a b) (more : List Action) :
    (∃ more', labels step edit more' b = (labels step edit more a).map (Edit.relocate π)) ∧
      ∀ more', labels step edit more' b = (labels step edit more a).map (Edit.relocate π) →
        EndAlike (Continues π) (runs step more a) (runs step more' b) := by
  have hsim : ∀ act (s : Area) (c : Circuit), Abstracts s c →
      Simulated Abstracts (step act s) (c.step (s.edit act)) := fun act _ _ => step_simulated act
  have hrel : ∀ e c c', Circuit.Relocated π c c' →
      Option.Rel (Circuit.Relocated π) (c.step e) (c'.step (e.relocate π)) :=
    fun e _ _ => Circuit.step_relocated e
  constructor
  · exact h.follow hsim hrel (fun act _ _ h => action_follows h act) more
  · intro more' hlabels
    refine (h.runs hsim hrel hlabels).mono ?_
    rintro c d ⟨_, _, ⟨hc, rfl⟩, ⟨hd, rfl⟩, hr⟩
    exact ⟨hr, hc.wellFormed.createSimMap_congr hd.wellFormed hr.simMap⟩

/-- **Working on with a loaded project.**  A project of a session that loaded saved files only
was saved with nothing pending and no gate that had only its second input connected.  It is
loaded into any editor that has nothing pending, shows a simulation if and only if the
original does, and is at the same place of its generator.  Then every run of the original has
runs of the loaded one with the same edits, and each of these fails if and only if the
original does and else ends with the same circuit and the same map. -/
theorem reload_continues {gen gen₀ : List Id} {acts acts₀ : List Action} {a₀ b : Area}
    {file : List Element} {fuel : Nat} {reader : Element}
    (hacts : ∀ act ∈ acts, InSession act) (ha : create gen >>= runs step acts = .ok a)
    (hsave : a.saveProject = .ok file) (ha₀ : create gen₀ >>= runs step acts₀ = .ok a₀)
    (hload : a₀.loadProject fuel (some file) reader = .ok b)
    (hidle : a.circuit.pending = none) (hidle₀ : a₀.circuit.pending = none)
    (hgen : a₀.gen = a.gen) (hflag : a₀.simulatorFlag = a.simulatorFlag)
    (hfirst : ∀ g ∈ a.m_gates.elems, a.Connected g .input2 → a.Connected g .input1) :
    ∃ π, ∀ more,
      (∃ more', labels step edit more' b = (labels step edit more a).map (Edit.relocate π)) ∧
      ∀ more', labels step edit more' b = (labels step edit more a).map (Edit.relocate π) →
        EndAlike (Continues π) (runs step more a) (runs step more' b) := by
  obtain ⟨hsa, hd⟩ := session_invariant hacts ha
  have hsa₀ := runs_sound ha₀
  have hsb : b.Sound := hsa₀.loadProject hload
  exact ⟨_, relocated_runs ⟨_, _, ⟨hsa, rfl⟩, ⟨hsb, rfl⟩, reload_relocated hsa hd hsave hsa₀ hload
    (runs_next ha₀) hidle hidle₀ hgen hflag hfirst⟩⟩

/-- The AND gate of `fedAnd` is loaded into a new editor, and there its input is toggled
and then the gate deleted. -/
theorem reload_continues_fedAnd :
    ∃ a a₀ b file π, create [7, 8, 9] >>= runs step fedAnd = .ok a ∧ a.saveProject = .ok file ∧
      create [5] >>= runs step [] = .ok a₀ ∧ a₀.loadProject 22 (some file) .endFile = .ok b ∧
      ∃ more', labels step edit more' b =
          [Edit.toggle 2, .remove 1, .simulate].map (Edit.relocate π) ∧
        EndAlike (Continues π) (runs step [.changeTypeInput 2, .deleteGate 1, .simulate] a)
          (runs step more' b) := by
  obtain ⟨a, a₀, b, file, ha, hsave, ha₀, hload, hidle, hidle₀, hgen, hflag, hslots, hedits⟩ :
      ∃ a a₀ b file, create [7, 8, 9] >>= runs step fedAnd = .ok a ∧ a.saveProject = .ok file ∧
        create [5] >>= runs step [] = .ok a₀ ∧ a₀.loadProject 22 (some file) .endFile = .ok b ∧
        a.circuit.pending = none ∧ a₀.circuit.pending = none ∧ a₀.gen = a.gen ∧
        a₀.simulatorFlag = a.simulatorFlag ∧
        (∀ g ∈ a.m_gates.elems, a.slotId g .input2 ≠ 0 → a.slotId g .input1 ≠ 0) ∧
        labels step edit [.changeTypeInput 2, .deleteGate 1, .simulate] a =
          [.toggle 2, .remove 1, .simulate] :=
    ⟨_, _, _, _, rfl, rfl, rfl, rfl, rfl, rfl, rfl, rfl, by decide, rfl⟩
  have hw := (runs_sound ha).wellFormed
  have hfirst : ∀ g ∈ a.m_gates.elems, a.Connected g .input2 → a.Connected g .input1 := by
    intro g hg h2
    rw [hw.connected_slotId] at h2 ⊢
    exact hslots g hg h2
  obtain ⟨π, hπ⟩ := reload_continues (by simp [fedAnd, InSession]) ha hsave ha₀ hload hidle hidle₀
    hgen hflag hfirst
  obtain ⟨⟨more', hmore⟩, hall⟩ := hπ [.changeTypeInput 2, .deleteGate 1, .simulate]
  exact ⟨a, a₀, b, file, π, ha, hsave, ha₀, hload, more', hedits ▸ hmore, hall more' hmore⟩

end Area

end SimGate

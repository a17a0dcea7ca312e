import SimGate.ReplayRefinement

/-!
# Saving and loading

Decoding a file that `saveProject` wrote draws a copy of every gate and records
the ids of its inputs without their slots (`loadProject_saved`).  What the
replay makes of them depends on the click handler:

* `reload_iff`: with an idle handler every slot comes back exactly when no gate
  has its second input connected and its first one free;
* `load_agrees_iff`: the exact condition under which two loads of a file end
  with the same scheme.
-/

namespace SimGate

theorem CommonGateType.ofCode_code (type : CommonGateType) : ofCode type.code = type := by
  cases type <;> rfl

namespace Area

/-! ## What a file records -/

/-- The non-zero ids that a gate reads, first slot first. -/
def sources (a : Area) (g : Gate) : List Id :=
  [a.slotId g .input1, a.slotId g .input2].filter (· ≠ gNotValidGateId)

/-- The pairs that loading a gate records. -/
def recorded (a : Area) (g : Gate) : List (Id × Id) := (a.sources g).map (Prod.mk g.id)

def allRecorded (a : Area) : List (Id × Id) := a.m_gates.elems.flatMap a.recorded

theorem reads_recorded (a : Area) (g : Gate) (id : Id) :
    Board.reads id (a.recorded g) = if g.id = id then a.sources g else [] := by
  unfold recorded
  generalize a.sources g = l
  induction l with
  | nil => simp [Board.reads]
  | cons x l ih =>
    rw [List.map_cons, Board.reads_cons, ih]
    split <;> rfl

theorem reads_flatMap (a : Area) {l : List Gate} (hnd : (l.map Gate.id).Nodup) (id : Id) :
    Board.reads id (l.flatMap a.recorded) =
      ((l.find? fun g => g.id = id).map a.sources).getD [] := by
  induction l with
  | nil => rfl
  | cons g l ih =>
    obtain ⟨hg, hnd⟩ := List.nodup_cons.mp hnd
    rw [List.flatMap_cons, Board.reads_append, reads_recorded, ih hnd]
    by_cases hid : g.id = id
    · have hn : l.find? (fun g => g.id = id) = none := by
        refine List.find?_eq_none.mpr fun x hx he => hg ?_
        rw [hid, ← of_decide_eq_true he]
        exact List.mem_map_of_mem hx
      simp [hid, hn]
    · simp [hid]

theorem DistinctIds.reads_allRecorded {a : Area} (hd : a.DistinctIds) (id : Id) :
    Board.reads id a.allRecorded = ((a.getGate id).map a.sources).getD [] :=
  a.reads_flatMap hd.nodup id

/-! ## Decoding -/

/-- **One gate.** -/
theorem decodeLoop_saved (a : Area) {g : Gate} (hg : g.Shaped) (fuel : Nat) (rest : List Element)
    (d : Decoder) (c : Area) :
    decodeLoop (fuel + 7) (a.saved g ++ rest) d c =
      decodeLoop fuel rest ⟨.endEntity, g.id, d.connVec ++ a.recorded g, g.x, g.y, g.type⟩
        (c.drawn g.type g.id g.x g.y) := by
  have hdraw : c.draw g.type g.id g.x g.y = .ok (c.drawn g.type g.id g.x g.y) := by
    rw [draw_eq hg.id, if_neg hg.type]
  by_cases h1 : a.slotId g .input1 = gNotValidGateId <;>
    by_cases h2 : a.slotId g .input2 = gNotValidGateId <;>
    simp [decodeLoop, saved, recorded, sources, CommonGateType.ofCode_code, hdraw, h1, h2, bind,
      Except.bind]

/-- The areas that decoding the gates one by one goes through. -/
def drawnAll (l : List Gate) (c : Area) : Area :=
  l.foldl (fun c g => c.drawn g.type g.id g.x g.y) c

theorem decodeLoop_gates (a : Area) {l : List Gate} (hl : ∀ g ∈ l, g.Shaped) (fuel : Nat)
    (d : Decoder) (c : Area) :
    ∃ d', decodeLoop (fuel + 1 + 7 * l.length) ((l.map a.saved).flatten ++ [.endFile]) d c =
        .ok (d', c.drawnAll l) ∧ d'.connVec = d.connVec ++ l.flatMap a.recorded := by
  induction l generalizing d c with
  | nil => exact ⟨{ d with reader := .endFile }, rfl, by simp⟩
  | cons g l ih =>
    obtain ⟨hg, hl⟩ := List.forall_mem_cons.mp hl
    obtain ⟨d', hd', hconn⟩ := ih hl
      ⟨.endEntity, g.id, d.connVec ++ a.recorded g, g.x, g.y, g.type⟩ (c.drawn g.type g.id g.x g.y)
    refine ⟨d', ?_, by rw [hconn, List.flatMap_cons, List.append_assoc]⟩
    rw [List.map_cons, List.flatten_cons, List.append_assoc, List.length_cons,
      show fuel + 1 + 7 * (l.length + 1) = fuel + 1 + 7 * l.length + 7 by omega,
      decodeLoop_saved a hg]
    exact hd'

/-- `h` is what loading makes of the saved gate `g`. -/
structure Copy (g h : Gate) : Prop where
  id : h.id = g.id
  type : h.type = g.type
  x : h.x = if g.x ≠ 0 ∧ g.y ≠ 0 then g.x else 0
  y : h.y = if g.x ≠ 0 ∧ g.y ≠ 0 then g.y else 0

theorem copy_drawn (ptr : GatePtr) (g : Gate) : Copy g (Gate.drawn ptr g.type g.id g.x g.y) := by
  rw [Gate.drawn_eq]
  exact ⟨rfl, rfl, rfl, rfl⟩

/-- `c'` is `c` with copies of the gates `l`. -/
structure Extended (l : List Gate) (c c' : Area) : Prop where
  wellFormed : c'.WellFormed
  distinct : c'.DistinctIds
  nextGate : c.nextGate ≤ c'.nextGate
  old : ∀ h ∈ c.m_gates.elems, h ∈ c'.m_gates.elems
  copies : ∀ g ∈ l, ∃ h ∈ c'.m_gates.elems, Copy g h
  mem : ∀ h ∈ c'.m_gates.elems,
    h ∈ c.m_gates.elems ∨ c.nextGate ≤ h.ptr ∧ ∃ g ∈ l, Copy g h
  wire : c'.scene.wire = c.scene.wire
  input : c'.scene.input = c.scene.input
  output : c'.scene.output = c.scene.output

theorem extended_drawnAll {l : List Gate} (hl : ∀ g ∈ l, g.Shaped) (hnd : (l.map Gate.id).Nodup)
    {c : Area} (hc : c.WellFormed) (hd : c.DistinctIds)
    (hnew : ∀ g ∈ l, ∀ h ∈ c.m_gates.elems, h.id ≠ g.id) : Extended l c (c.drawnAll l) := by
  induction l generalizing c with
  | nil => exact ⟨hc, hd, Nat.le_refl _, fun _ h => h, by simp, fun _ h => Or.inl h, rfl, rfl, rfl⟩
  | cons g l ih =>
    obtain ⟨hg, hl⟩ := List.forall_mem_cons.mp hl
    obtain ⟨hgl, hnd⟩ := List.nodup_cons.mp hnd
    obtain ⟨hnewg, hnew⟩ := List.forall_mem_cons.mp hnew
    have hcopy := copy_drawn c.nextGate g
    have hptr : (Gate.drawn c.nextGate g.type g.id g.x g.y).ptr = c.nextGate := by
      rw [Gate.drawn_eq]
      rfl
    have hrec := ih hl hnd (hc.drawn hg.type hg.id) (DistinctIds.drawn hc hd hnewg)
      (fun g' hg' h hh => by
        rcases hc.mem_drawn.mp hh with hh | rfl
        · exact hnew g' hg' h hh
        · rw [hcopy.id]
          exact fun he => hgl (he ▸ List.mem_map_of_mem hg'))
    have hnext : c.nextGate ≤ (c.drawn g.type g.id g.x g.y).nextGate := Nat.le_succ _
    refine ⟨hrec.wellFormed, hrec.distinct, hnext.trans hrec.nextGate,
      fun h hh => hrec.old h (hc.mem_drawn.mpr (Or.inl hh)), List.forall_mem_cons.mpr ⟨?_, ?_⟩,
      fun h hh => ?_, hrec.wire, hrec.input, hrec.output⟩
    · exact ⟨_, hrec.old _ (hc.mem_drawn.mpr (Or.inr rfl)), hcopy⟩
    · exact hrec.copies
    · rcases hrec.mem h hh with hh | ⟨hle, g', hg', hc'⟩
      · rcases hc.mem_drawn.mp hh with hh | rfl
        · exact Or.inl hh
        · exact Or.inr ⟨Nat.le_of_eq hptr.symm, g, by simp, hcopy⟩
      · exact Or.inr ⟨hnext.trans hle, g', by simp [hg'], hc'⟩

/-- The gates of `c` are the copies of the gates of `a`. -/
structure Copies (a c : Area) : Prop where
  copied : ∀ g ∈ a.m_gates.elems, ∃ h ∈ c.m_gates.elems, Copy g h
  original : ∀ h ∈ c.m_gates.elems, ∃ g ∈ a.m_gates.elems, Copy g h

/-- What the decoder leaves: copies of the saved gates without a wire, and the
click handler as it was, its hitboxes gone. -/
structure Decoded (a a₀ c : Area) : Prop extends Copies a c where
  wellFormed : c.WellFormed
  distinct : c.DistinctIds
  wire : ∀ p, c.scene.wire p = none
  input : c.scene.input = a₀.scene.input
  output : c.scene.output = a₀.scene.output
  gone : ∀ box, box.owner < a₀.nextGate → c.scene.hitbox box = none

/-- **Loading a saved file** is the replay of the recorded pairs after decoding. -/
theorem loadProject_saved {a a₀ : Area} {file : List Element} (ha : a.WellFormed)
    (hd : a.DistinctIds) (hsave : a.saveProject = .ok file) (ha₀ : a₀.WellFormed)
    (reader : Element) :
    ∃ c, Decoded a a₀ c ∧ ∀ fuel, 7 * a.m_gates.size < fuel →
      a₀.loadProject fuel (some file) reader = a.allRecorded.foldlM connectPair c := by
  rw [ha.saveProject_eq (ha.secondsConnected hsave)] at hsave
  cases hsave
  obtain ⟨s, hclear, hw, hi, ho, _⟩ := ha₀.cleared
  have hbare := (WellFormed.bare hw rfl).2
  have hext := extended_drawnAll ha.shaped hd.nodup hw (by rintro g ⟨⟩) (by rintro g _ h ⟨⟩)
  refine ⟨_, ⟨⟨hext.copies, fun h hh => ?_⟩, hext.wellFormed, hext.distinct, fun p => ?_,
    hext.input.trans hi, hext.output.trans ho, fun box hbox => ?_⟩, fun fuel hfuel => ?_⟩
  · rcases hext.mem h hh with hh | ⟨_, hcopy⟩
    · cases hh
    · exact hcopy
  · rw [hext.wire]
    exact hbare p
  · refine Option.eq_none_iff_forall_ne_some.mpr fun b hb => ?_
    obtain ⟨h, hh, hmem⟩ := (hext.wellFormed.alive box).mp ⟨b, hb⟩
    have howner := ((hext.wellFormed.shaped h hh).mem_hitboxes.mp hmem).1
    rcases hext.mem h hh with hh | ⟨hle, _⟩
    · cases hh
    · rw [howner] at hbox
      exact Nat.not_lt_of_le hle hbox
  · obtain ⟨k, hk⟩ : ∃ k, fuel = k + 1 + 7 * a.m_gates.elems.length :=
      ⟨fuel - 1 - 7 * a.m_gates.elems.length, by simp only [KeySet.size] at hfuel; omega⟩
    obtain ⟨d', hdec, hconn⟩ := decodeLoop_gates a ha.shaped k (.start reader)
      { a₀ with scene := s, m_gates := ∅ }
    rw [loadProject, hclear, hk]
    simp only [bind, Except.bind, hdec, hconn]
    rfl

/-! ## The replay of a saved file -/

/-- A slot that the gate does not have reads nothing. -/
theorem WellFormed.slotId_missing {a : Area} (ha : a.WellFormed) {g : Gate}
    (hg : g ∈ a.m_gates.elems) {slot : HitBoxType} (hslot : slot ∉ hitBoxTypes g.type) :
    a.slotId g slot = gNotValidGateId := by
  simp [slotId, ha.source_of_missing hg hslot]

theorem capacity_eq (type : CommonGateType) :
    capacity type = (if .input1 ∈ hitBoxTypes type then 1 else 0) +
      if .input2 ∈ hitBoxTypes type then 1 else 0 := by
  cases type <;> rfl

theorem sources_length (a : Area) (g : Gate) :
    (a.sources g).length = (if a.slotId g .input1 = gNotValidGateId then 0 else 1) +
      if a.slotId g .input2 = gNotValidGateId then 0 else 1 := by
  unfold sources
  by_cases h1 : a.slotId g .input1 = gNotValidGateId <;>
    by_cases h2 : a.slotId g .input2 = gNotValidGateId <;> simp [h1, h2]

theorem WellFormed.sources_length_le {a : Area} (ha : a.WellFormed) {g : Gate}
    (hg : g ∈ a.m_gates.elems) : (a.sources g).length ≤ capacity g.type := by
  have hslot : ∀ slot, (if a.slotId g slot = gNotValidGateId then 0 else 1) ≤
      if slot ∈ hitBoxTypes g.type then 1 else 0 := by
    intro slot
    by_cases hs : slot ∈ hitBoxTypes g.type
    · rw [if_pos hs]
      split <;> omega
    · rw [if_neg hs, if_pos (ha.slotId_missing hg hs)]
  rw [sources_length, capacity_eq]
  exact Nat.add_le_add (hslot .input1) (hslot .input2)

/-- A slot with an id is wired to the gate with that id. -/
theorem WellFormed.feeds_of_slotId {a : Area} (ha : a.WellFormed) {g : Gate} {slot : HitBoxType}
    (h : a.slotId g slot ≠ gNotValidGateId) :
    ∃ x ∈ a.m_gates.elems, a.Feeds x g slot ∧ a.slotId g slot = x.id := by
  rcases ha.reads_slotId g slot with hx | ⟨_, h0⟩
  · exact hx
  · exact absurd h0 h

/-- What feeds a slot is the output of another gate. -/
theorem WellFormed.feeds_output {a : Area} (ha : a.WellFormed) {g x : Gate} {slot : HitBoxType}
    (hx : x ∈ a.m_gates.elems) (h : a.Feeds x g slot) :
    g.ptr ≠ x.ptr ∧ slot ≠ .output ∧ HitBoxType.output ∈ hitBoxTypes x.type := by
  obtain ⟨p, w, hw, hi, ho⟩ := h
  obtain ⟨hin, hout, hne⟩ := ha.consistent.ends p w hw
  obtain ⟨_, b, hb, _⟩ := ha.consistent.registered p w hw
  have htype : w.output.type = .output := by simpa [HitBoxPtr.isInput] using hout
  have hbox : w.output = ⟨x.ptr, .output⟩ := by rw [← ho, ← htype]
  rw [hi, ho] at hne
  rw [hi] at hin
  refine ⟨hne, ?_, (ha.alive_iff hx .output).mp ⟨b, hbox ▸ hb⟩⟩
  rintro rfl
  cases hin

theorem Decoded.joins {a a₀ c : Area} (hc : Decoded a a₀ c) (ha : a.WellFormed)
    (hd : a.DistinctIds) : ∀ pair ∈ a.allRecorded, c.Joins pair := by
  intro pair hpair
  obtain ⟨g, hg, hpair⟩ := List.mem_flatMap.mp hpair
  obtain ⟨y, hy, rfl⟩ := List.mem_map.mp hpair
  obtain ⟨hy, hne⟩ := List.mem_filter.mp hy
  obtain ⟨slot, rfl⟩ : ∃ slot, y = a.slotId g slot := by
    rcases List.mem_cons.mp hy with rfl | hy
    · exact ⟨_, rfl⟩
    · exact ⟨_, List.mem_singleton.mp hy⟩
  obtain ⟨x, hx, hf, hid⟩ := ha.feeds_of_slotId (by simpa using hne)
  obtain ⟨hptr, _, hout⟩ := ha.feeds_output hx hf
  obtain ⟨g', hg', hcg⟩ := hc.copied g hg
  obtain ⟨x', hx', hcx⟩ := hc.copied x hx
  refine ⟨g', hg', x', hx', by rw [hcg.id, hcx.id, hid], fun he => ?_, hcx.type ▸ hout⟩
  have hsame : g.id = x.id := by
    rw [← hcg.id, ← hcx.id, KeySet.eq_of_key hg' hx' he]
  exact hptr (by rw [hd g hg x hx hsame])

theorem Decoded.shows {a a₀ c : Area} (hc : Decoded a a₀ c) (handler : Handler) :
    c.Shows (Board.bare handler) := by
  refine ⟨hc.wellFormed, hc.distinct, fun id slot y => ?_⟩
  constructor
  · rintro ⟨g, _, x, _, _, _, p, w, hw, _⟩
    rw [hc.wire] at hw
    cases hw
  · rintro ⟨⟩

theorem Decoded.capacity {a a₀ c : Area} (hc : Decoded a a₀ c) (ha : a.WellFormed)
    (hd : a.DistinctIds) :
    ∀ h ∈ c.m_gates.elems, (Board.reads h.id a.allRecorded).length ≤ Area.capacity h.type := by
  intro h hh
  obtain ⟨g, hg, hcopy⟩ := hc.original h hh
  rw [hd.reads_allRecorded, hcopy.id, hd.getGate hg, hcopy.type]
  exact ha.sources_length_le hg

/-- A pending output whose hitbox is gone is followed by the first click. -/
theorem Decoded.dangling {a a₀ c : Area} (hc : Decoded a a₀ c) (ha : a.WellFormed)
    (hd : a.DistinctIds) (ha₀ : a₀.WellFormed) (hpairs : a.allRecorded ≠ [])
    (hin : a₀.scene.input = none) {y : HitBoxPtr} (hout : a₀.scene.output = some y) :
    a.allRecorded.foldlM connectPair c = .error .dangling := by
  have hjoins := hc.joins ha hd
  have hcap := hc.capacity ha hd
  cases hp : a.allRecorded with
  | nil => exact absurd hp hpairs
  | cons pair pairs =>
    obtain ⟨g, hg, x, hx, rfl, _, houtx⟩ := hjoins pair (by simp [hp])
    have hr := hc.shows .idle
    have hlt : (Board.bare .idle).used g.id < Area.capacity g.type := by
      have h := hcap g hg
      rw [hp, Board.reads_cons, if_pos rfl, List.length_cons] at h
      exact Nat.lt_of_lt_of_le (Nat.succ_pos _) h
    obtain ⟨hslot, hfree, hni⟩ := pick_free hlt
    obtain ⟨b, hb, hw⟩ := hr.free_slot hg hslot hfree
    have hclick := Scene.clickPair_dangling hb hw (o := ⟨x.ptr, .output⟩)
      (by simp [HitBoxPtr.isInput, hni]) (hc.input.trans hin) (hc.output.trans hout)
      (hc.gone y (ha₀.output y hout))
    rw [List.foldlM_cons, hr.connectPair_eq hg hx hslot houtx, hclick]
    rfl

/-- What the click handler holds when the replay begins. -/
def leftover (s : Scene) : Handler := if s.input.isSome then .staleInput else .idle

theorem leftover_idle {s : Scene} (h : s.input = none) : leftover s = .idle := by
  rw [leftover, h]
  rfl

theorem leftover_stale {s : Scene} (h : s.input ≠ none) : leftover s = .staleInput :=
  if_pos (Option.isSome_iff_ne_none.mpr h)

/-- Only an output is pending. -/
def Dangles (s : Scene) : Prop := s.input = none ∧ s.output ≠ none

section

variable {a a₀ : Area} {file : List Element} (ha : a.WellFormed) (hd : a.DistinctIds)
  (hsave : a.saveProject = .ok file) (ha₀ : a₀.WellFormed) (reader : Element)

include ha hd hsave ha₀

/-- **The load as a whole.**  The scheme depends on the recorded pairs and on
what the click handler held. -/
theorem load_returns (h : Dangles a₀.scene → a.allRecorded = []) :
    ∃ b, Execution.Returns (fun fuel => a₀.loadProject fuel (some file) reader) b ∧ Copies a b ∧
      b.Shows (a.allRecorded.foldl Board.replay (.bare (leftover a₀.scene))) := by
  obtain ⟨c, hc, hload⟩ := loadProject_saved ha hd hsave ha₀ reader
  have hret : ∀ b, a.allRecorded.foldlM connectPair c = .ok b →
      Execution.Returns (fun fuel => a₀.loadProject fuel (some file) reader) b :=
    fun b hb => ⟨7 * a.m_gates.size + 1, fun fuel hf => (hload fuel hf).trans hb⟩
  by_cases hdang : Dangles a₀.scene
  · rw [h hdang] at hret ⊢
    exact ⟨c, hret c rfl, hc.toCopies, hc.shows _⟩
  · have hh : c.Holding (leftover a₀.scene) := by
      unfold leftover
      rw [← hc.input]
      cases hin : c.scene.input with
      | none =>
        have hout : ¬ a₀.scene.output ≠ none := fun ho => hdang ⟨hc.input ▸ hin, ho⟩
        exact ⟨hin, hc.output.trans (not_not.mp hout)⟩
      | some i =>
        show c.scene.input.isSome = true
        rw [hin]
        rfl
    obtain ⟨b, hb, hr, hm⟩ := Represents.replay_all ⟨hc.shows _, hh⟩ (hc.joins ha hd)
      fun h hh => by simpa [Board.used, Board.bare] using hc.capacity ha hd h hh
    exact ⟨b, hret b hb, ⟨hm ▸ hc.copied, hm ▸ hc.original⟩, hr.toShows⟩

theorem load_dangles (h : Dangles a₀.scene) (hpairs : a.allRecorded ≠ []) (b : Area) :
    ¬ Execution.Returns (fun fuel => a₀.loadProject fuel (some file) reader) b := by
  rintro ⟨n, hn⟩
  obtain ⟨c, hc, hload⟩ := loadProject_saved ha hd hsave ha₀ reader
  obtain ⟨y, hy⟩ := Option.ne_none_iff_exists'.mp h.2
  have hfuel : 7 * a.m_gates.size < max n (7 * a.m_gates.size + 1) := by omega
  have hok : a₀.loadProject (max n (7 * a.m_gates.size + 1)) (some file) reader = .ok b :=
    hn _ (Nat.le_max_left _ _)
  rw [hload _ hfuel, hc.dangling ha hd ha₀ hpairs h.1 hy] at hok
  cases hok

end

/-! ## Slots after a load -/

theorem WellFormed.connected_slotId {a : Area} (ha : a.WellFormed) (g : Gate) (slot : HitBoxType) :
    a.Connected g slot ↔ a.slotId g slot ≠ gNotValidGateId := by
  constructor
  · intro hc
    rcases ha.source_cases g slot with hs | ⟨x, hx, hs⟩
    · exact absurd hs (ha.connected_iff.mp hc)
    · rw [slotId_of_source hx hs]
      exact (ha.shaped x hx).id
  · intro hne
    obtain ⟨x, _, ⟨p, w, hw, hi, _⟩, _⟩ := ha.feeds_of_slotId hne
    exact ⟨p, w, hw, hi⟩

theorem wired_slotId {a : Area} (ha : a.WellFormed) (hd : a.DistinctIds) {g : Gate}
    (hg : g ∈ a.m_gates.elems) {slot : HitBoxType} {y : Id} :
    a.Wired g.id slot y ↔ a.slotId g slot = y ∧ y ≠ gNotValidGateId := by
  constructor
  · rintro ⟨g', hg', x, hx, hid, rfl, hf⟩
    rw [hd g' hg' g hg hid] at hf
    exact ⟨slotId_of_source hx (ha.source_eq_some.mpr hf), (ha.shaped x hx).id⟩
  · rintro ⟨rfl, hne⟩
    obtain ⟨x, hx, hf, hid⟩ := ha.feeds_of_slotId hne
    exact ⟨g, hg, x, hx, rfl, hid.symm, hf⟩

theorem WellFormed.slotId_output {a : Area} (ha : a.WellFormed) (g : Gate) :
    a.slotId g .output = gNotValidGateId := by
  by_contra hne
  obtain ⟨x, hx, hf, _⟩ := ha.feeds_of_slotId hne
  exact (ha.feeds_output hx hf).2.1 rfl

theorem DistinctIds.reads_length_le {a : Area} (hd : a.DistinctIds) (id : Id) :
    (Board.reads id a.allRecorded).length ≤ 2 := by
  rw [hd.reads_allRecorded]
  cases a.getGate id with
  | none => exact Nat.zero_le 2
  | some g => exact List.length_filter_le _ _

/-- `none` stands for a free slot. -/
def wiredId (id : Id) : Option Id := if id = gNotValidGateId then none else some id

theorem wiredId_eq_some {id y : Id} : wiredId id = some y ↔ id = y ∧ y ≠ gNotValidGateId := by
  unfold wiredId
  constructor
  · intro h
    split at h
    · cases h
    · next hne =>
      cases h
      exact ⟨rfl, hne⟩
  · rintro ⟨rfl, hne⟩
    exact if_neg hne

/-- Without a free slot before a taken one, dropping the zeros moves nothing. -/
theorem sources_getElem {a : Area} {g : Gate}
    (h : a.slotId g .input1 = gNotValidGateId → a.slotId g .input2 = gNotValidGateId) :
    (a.sources g)[0]? = wiredId (a.slotId g .input1) ∧
      (a.sources g)[1]? = wiredId (a.slotId g .input2) := by
  by_cases h1 : a.slotId g .input1 = gNotValidGateId
  · simp [sources, wiredId, h1, h h1]
  · by_cases h2 : a.slotId g .input2 = gNotValidGateId <;> simp [sources, wiredId, h1, h2]

/-- The board after an idle replay, in terms of the saved slots. -/
theorem idle_slots {a : Area} (hd : a.DistinctIds) {g : Gate} (hg : g ∈ a.m_gates.elems) :
    let b := a.allRecorded.foldl Board.replay (.bare .idle)
    b.slot g.id .input1 = (a.sources g)[0]? ∧ b.slot g.id .input2 = (a.sources g)[1]? ∧
      b.slot g.id .output = none := by
  have hb := Board.replay_idle hd.reads_length_le
  have hreads : Board.reads g.id a.allRecorded = a.sources g := by
    rw [hd.reads_allRecorded, hd.getGate hg]
    rfl
  exact ⟨(hb.first g.id).trans (by rw [hreads]), (hb.second g.id).trans (by rw [hreads]),
    hb.output g.id⟩

/-- **Saving and loading.**  Loading a saved scheme while no click is pending
restores every slot exactly when no gate has its second input connected and its
first one free. -/
theorem reload_iff {a a₀ : Area} {file : List Element} (ha : a.WellFormed) (hd : a.DistinctIds)
    (hsave : a.saveProject = .ok file) (ha₀ : a₀.WellFormed) (hin : a₀.scene.input = none)
    (hout : a₀.scene.output = none) (reader : Element) :
    (∃ b, Execution.Returns (fun fuel => a₀.loadProject fuel (some file) reader) b ∧
      ∀ id slot y, b.Wired id slot y ↔ a.Wired id slot y) ↔
    ∀ g ∈ a.m_gates.elems, a.Connected g .input2 → a.Connected g .input1 := by
  obtain ⟨b, hret, hcopies, hshows⟩ :=
    load_returns ha hd hsave ha₀ reader fun h => absurd hout h.2
  rw [leftover_idle hin] at hshows
  constructor
  · rintro ⟨b', hret', hsame⟩ g hg h2
    rw [← hret.unique hret'] at hsame
    rw [ha.connected_slotId] at h2 ⊢
    -- otherwise the second source would come back in the first slot
    intro h1
    have hfirst : (a.sources g)[0]? = some (a.slotId g .input2) := by simp [sources, h1, h2]
    have hw := (hshows.slots g.id .input1 _).mpr ((idle_slots hd hg).1.trans hfirst)
    obtain ⟨he, _⟩ := (wired_slotId ha hd hg).mp ((hsame _ _ _).mp hw)
    exact h2 (he.symm.trans h1)
  · intro hcond
    refine ⟨b, hret, fun id slot y => ?_⟩
    by_cases hid : ∃ g ∈ a.m_gates.elems, g.id = id
    · obtain ⟨g, hg, rfl⟩ := hid
      have h12 : a.slotId g .input1 = gNotValidGateId → a.slotId g .input2 = gNotValidGateId := by
        have h := hcond g hg
        rw [ha.connected_slotId, ha.connected_slotId] at h
        exact fun h1 => not_not.mp fun h2 => h h2 h1
      obtain ⟨hs1, hs2, hs3⟩ := idle_slots hd hg
      rw [hshows.slots, wired_slotId ha hd hg]
      cases slot with
      | input1 => rw [hs1, (sources_getElem h12).1, wiredId_eq_some]
      | input2 => rw [hs2, (sources_getElem h12).2, wiredId_eq_some]
      | output => rw [hs3, ha.slotId_output, ← wiredId_eq_some]; rfl
    · refine iff_of_false ?_ ?_
      · rintro ⟨h, hh, _, _, he, _⟩
        obtain ⟨g, hg, hcopy⟩ := hcopies.original h hh
        exact hid ⟨g, hg, hcopy.id.symm.trans he⟩
      · rintro ⟨g, hg, _, _, he, _⟩
        exact hid ⟨g, hg, he⟩

theorem reload_iff_fedAnd :
    ∃ a file, create [7, 8, 9] >>= Execution.runs step fedAnd = .ok a ∧
      a.saveProject = .ok file ∧
      ∃ b, Execution.Returns (fun fuel => a.loadProject fuel (some file) .endFile) b ∧
        ∀ id slot y, b.Wired id slot y ↔ a.Wired id slot y := by
  obtain ⟨a, file, hrun, hsave, hin, hout, hslots⟩ : ∃ a file,
      create [7, 8, 9] >>= Execution.runs step fedAnd = .ok a ∧ a.saveProject = .ok file ∧
      a.scene.input = none ∧ a.scene.output = none ∧
      ∀ g ∈ a.m_gates.elems, a.slotId g .input2 ≠ 0 → a.slotId g .input1 ≠ 0 :=
    ⟨_, _, rfl, rfl, rfl, rfl, by decide⟩
  obtain ⟨ha, hd⟩ := runs_distinctIds (by decide) hrun
  refine ⟨a, file, hrun, hsave,
    (reload_iff ha.wellFormed hd hsave ha.wellFormed hin hout .endFile).mpr fun g hg h2 => ?_⟩
  rw [ha.wellFormed.connected_slotId] at h2 ⊢
  exact hslots g hg h2

/-- Only the second input of an AND gate is connected. -/
def lowerAnd : List Action :=
  [.draw .and, .draw .highState, .click ⟨1, .input2⟩, .click ⟨2, .output⟩]

/-- **A moved wire.**  The second input comes back as the first. -/
theorem reload_lowerAnd :
    ∃ a file, create [7, 8, 9] >>= Execution.runs step lowerAnd = .ok a ∧
      a.saveProject = .ok file ∧ a.scene.input = none ∧ a.scene.output = none ∧
      a.Wired 8 .input2 9 ∧
      ∃ b, Execution.Returns (fun fuel => a.loadProject fuel (some file) .endFile) b ∧
        b.Wired 8 .input1 9 ∧ ¬ b.Wired 8 .input2 9 := by
  obtain ⟨a, file, hrun, hsave, hin, hout, hrec, hslot⟩ : ∃ a file,
      create [7, 8, 9] >>= Execution.runs step lowerAnd = .ok a ∧ a.saveProject = .ok file ∧
      a.scene.input = none ∧ a.scene.output = none ∧ a.allRecorded = [(8, 9)] ∧
      ∃ g ∈ a.m_gates.elems, g.id = 8 ∧ a.slotId g .input2 = 9 :=
    ⟨_, _, rfl, rfl, rfl, rfl, rfl, by decide⟩
  obtain ⟨ha, hd⟩ := runs_distinctIds (by decide) hrun
  obtain ⟨g, hg, hid, hslot⟩ := hslot
  obtain ⟨b, hret, _, hb⟩ :=
    load_returns ha.wellFormed hd hsave ha.wellFormed .endFile fun h => absurd hout h.2
  rw [leftover_idle hin, hrec] at hb
  refine ⟨a, file, hrun, hsave, hin, hout, ?_, b, hret, ?_, ?_⟩
  · rw [← hid, wired_slotId ha.wellFormed hd hg]
    exact ⟨hslot, by decide⟩
  · exact (hb.slots 8 .input1 9).mpr rfl
  · intro h
    cases (hb.slots 8 .input2 9).mp h

/-! ## Two loads of one file -/

/-- The same gates (id, type, position) and the same wires between the same slots. -/
structure SameScheme (a b : Area) : Prop where
  gates : ∀ id type x y,
    (∃ g ∈ a.m_gates.elems, g.id = id ∧ g.type = type ∧ g.x = x ∧ g.y = y) ↔
      ∃ g ∈ b.m_gates.elems, g.id = id ∧ g.type = type ∧ g.x = x ∧ g.y = y
  wires : ∀ id slot y, a.Wired id slot y ↔ b.Wired id slot y

theorem Copies.gates {a b b' : Area} (h : Copies a b) (h' : Copies a b') {id : Id}
    {type : CommonGateType} {x y : Qreal}
    (hg : ∃ g ∈ b.m_gates.elems, g.id = id ∧ g.type = type ∧ g.x = x ∧ g.y = y) :
    ∃ g ∈ b'.m_gates.elems, g.id = id ∧ g.type = type ∧ g.x = x ∧ g.y = y := by
  obtain ⟨k, hk, rfl, rfl, rfl, rfl⟩ := hg
  obtain ⟨g, hg, hcopy⟩ := h.original k hk
  obtain ⟨k', hk', hcopy'⟩ := h'.copied g hg
  exact ⟨k', hk', hcopy'.id.trans hcopy.id.symm, hcopy'.type.trans hcopy.type.symm,
    hcopy'.x.trans hcopy.x.symm, hcopy'.y.trans hcopy.y.symm⟩

theorem allRecorded_eq_nil {a : Area} {file : List Element} (ha : a.WellFormed)
    (hsave : a.saveProject = .ok file) :
    a.allRecorded = [] ↔ ∀ value, Element.input value ∈ file → value = gNotValidGateId := by
  rw [ha.saveProject_eq (ha.secondsConnected hsave)] at hsave
  cases hsave
  have hnil : a.allRecorded = [] ↔ ∀ g ∈ a.m_gates.elems,
      a.slotId g .input1 = gNotValidGateId ∧ a.slotId g .input2 = gNotValidGateId := by
    simp [allRecorded, recorded, sources, List.flatMap_eq_nil_iff]
  rw [hnil]
  constructor
  · intro h value hmem
    simp only [List.mem_append, List.mem_flatten, List.mem_map, List.mem_singleton, reduceCtorEq,
      or_false] at hmem
    obtain ⟨_, ⟨g, hg, rfl⟩, hmem⟩ := hmem
    simp only [saved, List.mem_cons, reduceCtorEq, Element.input.injEq, List.not_mem_nil, false_or,
      or_false] at hmem
    rcases hmem with rfl | rfl
    · exact (h g hg).1
    · exact (h g hg).2
  · intro h g hg
    have hmem : ∀ e ∈ a.saved g, e ∈ (a.m_gates.elems.map a.saved).flatten ++ [.endFile] :=
      fun e he => List.mem_append_left _ (List.mem_flatten.mpr ⟨_, List.mem_map_of_mem hg, he⟩)
    exact ⟨h _ (hmem _ (by simp [saved])), h _ (hmem _ (by simp [saved]))⟩

/-- With a leftover input a connection is lost. -/
theorem idle_ne_stale {a : Area} (hd : a.DistinctIds) (hpairs : a.allRecorded ≠ []) :
    (a.allRecorded.foldl Board.replay (.bare .idle)).slot ≠
      (a.allRecorded.foldl Board.replay (.bare .staleInput)).slot := by
  intro he
  have hidle := Board.replay_idle hd.reads_length_le
  cases hp : a.allRecorded with
  | nil => exact hpairs hp
  | cons pair pairs =>
    have hstale := Board.used_stale pair pairs
    have hlen := hd.reads_length_le pair.1
    rw [← hp] at hstale
    rw [← hidle.used_eq hlen, Board.used, Board.used, he] at hstale
    exact Nat.lt_irrefl _ hstale

theorem Shows.slot_eq {b b' : Area} {k k' : Board} (h : b.Shows k) (h' : b'.Shows k')
    (hsame : ∀ id slot y, b.Wired id slot y ↔ b'.Wired id slot y) : k.slot = k'.slot := by
  funext id slot
  apply Option.ext
  intro y
  exact (h.slots id slot y).symm.trans ((hsame id slot y).trans (h'.slots id slot y))

/-- **Two loads** of a file saved from a scheme with distinct ids.  They agree exactly when
the file connects nothing, or no click was pending before either, or an input was pending
before both. -/
theorem load_agrees_iff {a a₁ a₂ : Area} {file : List Element} (ha : a.WellFormed)
    (hd : a.DistinctIds) (hsave : a.saveProject = .ok file) (h₁ : a₁.WellFormed)
    (h₂ : a₂.WellFormed) (r₁ r₂ : Element) :
    (∃ b₁ b₂, Execution.Returns (fun fuel => a₁.loadProject fuel (some file) r₁) b₁ ∧
      Execution.Returns (fun fuel => a₂.loadProject fuel (some file) r₂) b₂ ∧
      SameScheme b₁ b₂) ↔
    (∀ value, Element.input value ∈ file → value = gNotValidGateId) ∨
      ((a₁.scene.input = none ∧ a₁.scene.output = none) ∧
        a₂.scene.input = none ∧ a₂.scene.output = none) ∨
      (a₁.scene.input ≠ none ∧ a₂.scene.input ≠ none) := by
  rw [← allRecorded_eq_nil ha hsave]
  constructor
  · rintro ⟨b₁, b₂, hret₁, hret₂, hsame⟩
    by_cases hpairs : a.allRecorded = []
    · exact Or.inl hpairs
    · have hn₁ : ¬ Dangles a₁.scene := fun h => load_dangles ha hd hsave h₁ r₁ h hpairs b₁ hret₁
      have hn₂ : ¬ Dangles a₂.scene := fun h => load_dangles ha hd hsave h₂ r₂ h hpairs b₂ hret₂
      obtain ⟨c₁, hc₁, _, hs₁⟩ := load_returns ha hd hsave h₁ r₁ fun h => absurd h hn₁
      obtain ⟨c₂, hc₂, _, hs₂⟩ := load_returns ha hd hsave h₂ r₂ fun h => absurd h hn₂
      rw [hret₁.unique hc₁, hret₂.unique hc₂] at hsame
      have hslot := hs₁.slot_eq hs₂ hsame.wires
      have hout : ∀ s : Scene, ¬ Dangles s → s.input = none → s.output = none :=
        fun s hn hi => not_not.mp fun ho => hn ⟨hi, ho⟩
      by_cases hi₁ : a₁.scene.input = none <;> by_cases hi₂ : a₂.scene.input = none
      · exact Or.inr (Or.inl ⟨⟨hi₁, hout _ hn₁ hi₁⟩, hi₂, hout _ hn₂ hi₂⟩)
      · rw [leftover_idle hi₁, leftover_stale hi₂] at hslot
        exact absurd hslot (idle_ne_stale hd hpairs)
      · rw [leftover_stale hi₁, leftover_idle hi₂] at hslot
        exact absurd hslot.symm (idle_ne_stale hd hpairs)
      · exact Or.inr (Or.inr ⟨hi₁, hi₂⟩)
  · intro hcond
    have hnd : (Dangles a₁.scene → a.allRecorded = []) ∧ (Dangles a₂.scene → a.allRecorded = []) ∧
        (a.allRecorded = [] ∨ leftover a₁.scene = leftover a₂.scene) := by
      rcases hcond with hnil | ⟨⟨hi₁, ho₁⟩, hi₂, ho₂⟩ | ⟨hi₁, hi₂⟩
      · exact ⟨fun _ => hnil, fun _ => hnil, Or.inl hnil⟩
      · exact ⟨fun h => absurd ho₁ h.2, fun h => absurd ho₂ h.2,
          Or.inr ((leftover_idle hi₁).trans (leftover_idle hi₂).symm)⟩
      · exact ⟨fun h => absurd h.1 hi₁, fun h => absurd h.1 hi₂,
          Or.inr ((leftover_stale hi₁).trans (leftover_stale hi₂).symm)⟩
    obtain ⟨hn₁, hn₂, hleft⟩ := hnd
    obtain ⟨b₁, hret₁, hc₁, hs₁⟩ := load_returns ha hd hsave h₁ r₁ hn₁
    obtain ⟨b₂, hret₂, hc₂, hs₂⟩ := load_returns ha hd hsave h₂ r₂ hn₂
    refine ⟨b₁, b₂, hret₁, hret₂, fun id type x y => ⟨hc₁.gates hc₂, hc₂.gates hc₁⟩,
      fun id slot y => ?_⟩
    rw [hs₁.slots, hs₂.slots]
    rcases hleft with hnil | hleft
    · rw [hnil]
      exact Iff.rfl
    · rw [hleft]

/-- An input state connected to the output. -/
def fedOutput : List Action := [.draw .highState, .click ⟨1, .output⟩, .click ⟨0, .input1⟩]

theorem load_agrees_fedOutput :
    ∃ a a₁ file, create [7, 8] >>= Execution.runs step fedOutput = .ok a ∧ create [5] = .ok a₁ ∧
      a.saveProject = .ok file ∧
      ∃ b b₁, Execution.Returns (fun fuel => a.loadProject fuel (some file) .endFile) b ∧
        Execution.Returns (fun fuel => a₁.loadProject fuel (some file) .other) b₁ ∧
        SameScheme b b₁ := by
  obtain ⟨a, a₁, file, hrun, hrun₁, hsave, hidle⟩ : ∃ a a₁ file,
      create [7, 8] >>= Execution.runs step fedOutput = .ok a ∧
      create [5] >>= Execution.runs step [] = .ok a₁ ∧ a.saveProject = .ok file ∧
      (a.scene.input = none ∧ a.scene.output = none) ∧
        a₁.scene.input = none ∧ a₁.scene.output = none :=
    ⟨_, _, _, rfl, rfl, rfl, ⟨rfl, rfl⟩, rfl, rfl⟩
  obtain ⟨ha, hd⟩ := runs_distinctIds (by decide) hrun
  have h₁ := (runs_sound hrun₁).wellFormed
  exact ⟨a, a₁, file, hrun, hrun₁, hsave, (load_agrees_iff ha.wellFormed hd hsave ha.wellFormed h₁
    .endFile .other).mpr (Or.inr (Or.inl hidle))⟩

/-- **A lost wire.**  After a click on an input that is still free, loading the
same file connects nothing. -/
theorem load_differs_fedOutput :
    ∃ a a₁ file, create [7, 8] >>= Execution.runs step fedOutput = .ok a ∧
      create [5] >>= Execution.runs step [.click ⟨0, .input1⟩] = .ok a₁ ∧
      a.saveProject = .ok file ∧
      ∃ b b₁, Execution.Returns (fun fuel => a.loadProject fuel (some file) .endFile) b ∧
        Execution.Returns (fun fuel => a₁.loadProject fuel (some file) .endFile) b₁ ∧
        b.Wired 7 .input1 8 ∧ ¬ b₁.Wired 7 .input1 8 := by
  obtain ⟨a, a₁, file, hrun, hrun₁, hsave, hin, hout, hin₁, hrec⟩ : ∃ a a₁ file,
      create [7, 8] >>= Execution.runs step fedOutput = .ok a ∧
      create [5] >>= Execution.runs step [.click ⟨0, .input1⟩] = .ok a₁ ∧
      a.saveProject = .ok file ∧ a.scene.input = none ∧ a.scene.output = none ∧
      a₁.scene.input = some ⟨0, .input1⟩ ∧ a.allRecorded = [(7, 8)] :=
    ⟨_, _, _, rfl, rfl, rfl, rfl, rfl, rfl, rfl⟩
  obtain ⟨ha, hd⟩ := runs_distinctIds (by decide) hrun
  have h₁ := (runs_sound hrun₁).wellFormed
  have hne : a₁.scene.input ≠ none := by simp [hin₁]
  obtain ⟨b, hret, _, hb⟩ :=
    load_returns ha.wellFormed hd hsave ha.wellFormed .endFile fun h => absurd hout h.2
  obtain ⟨b₁, hret₁, _, hb₁⟩ :=
    load_returns ha.wellFormed hd hsave h₁ .endFile fun h => absurd h.1 hne
  rw [leftover_idle hin, hrec] at hb
  rw [leftover_stale hne, hrec] at hb₁
  refine ⟨a, a₁, file, hrun, hrun₁, hsave, b, b₁, hret, hret₁, ?_, ?_⟩
  · exact (hb.slots 7 .input1 8).mpr rfl
  · intro h
    cases (hb₁.slots 7 .input1 8).mp h

/-! ## Sessions -/

theorem loadProject_returns {fuel : Nat} {file : Option (List Element)} {reader : Element}
    {a b : Area} (h : a.loadProject fuel file reader = .ok b) :
    Execution.Returns (fun fuel => a.loadProject fuel file reader) b := by
  refine ⟨fuel, fun m hm => ?_⟩
  obtain ⟨k, rfl⟩ := Nat.exists_eq_add_of_le hm
  obtain ⟨c, hc, h⟩ := Execution.bind_eq_ok h
  show a.loadProject (fuel + k) file reader = .ok b
  rw [loadProject, hc]
  cases file with
  | none => exact h
  | some file =>
    obtain ⟨r, hr, h⟩ := Execution.bind_eq_ok h
    simp only [bind, Except.bind, decodeLoop_mono k hr]
    exact h

/-- A file that `saveProject` wrote. -/
def SavedFile (file : List Element) : Prop :=
  ∃ a : Area, a.WellFormed ∧ a.DistinctIds ∧ a.saveProject = .ok file

/-- Actions of a user who loads only saved files. -/
def InSession : Action → Prop
  | .load _ (some file) _ => SavedFile file
  | _ => True

theorem loadProject_distinctIds {fuel : Nat} {file : List Element} {reader : Element}
    {a b : Area} (ha : a.WellFormed) (hfile : SavedFile file)
    (h : a.loadProject fuel (some file) reader = .ok b) : b.DistinctIds := by
  obtain ⟨a', ha', hd', hsave⟩ := hfile
  have hret := loadProject_returns h
  have hdang : Dangles a.scene → a'.allRecorded = [] := by
    intro hdang
    by_contra hpairs
    exact load_dangles ha' hd' hsave ha reader hdang hpairs b hret
  obtain ⟨c, hc, _, hshows⟩ := load_returns ha' hd' hsave ha reader hdang
  rw [hret.unique hc]
  exact hshows.distinct

/-- **Sessions.**  As long as only saved files are loaded, every area of a run is
well formed and has distinct ids. -/
theorem session_invariant {gen : List Id} {acts : List Action} {a : Area}
    (hacts : ∀ act ∈ acts, InSession act)
    (h : create gen >>= Execution.runs step acts = .ok a) : a.Sound ∧ a.DistinctIds := by
  have hfirst : InSession (.draw .output) := trivial
  refine runs_preserve ?_ hfirst hacts (by rintro g ⟨⟩) h
  intro act a a' hact ha hd h
  cases hl : act.loads with
  | false => exact step_distinctIds hl ha hd h
  | true =>
    cases act with
    | load fuel file reader =>
      cases file with
      | none =>
        -- the dialog was cancelled, but the scheme is gone
        obtain ⟨s, hc, _⟩ := ha.wellFormed.cleared
        rw [step, loadProject, hc] at h
        cases h
        rintro g ⟨⟩
      | some file => exact loadProject_distinctIds ha.wellFormed hact h
    | _ => cases hl

end Area

end SimGate

import SimGate.CircuitRefinement

/-!
# Which maps can be drawn

The simulator and the table take a `SimMap`; the editor only makes some of them: every
entry is fresh, a second input is connected, and a connection comes from another gate
that has an output.  All of these can be drawn, with any ids and any feedback.

* `drawable_iff`: the maps of the runs without loads are the drawable ones.
-/

namespace SimGate

open Execution

/-! ## The map of a scheme -/

def SimMap.HasId (map : SimMap) (id : Id) : Prop := ∃ x ∈ map.elems, x.id = id

/-- The id is the one of another gate, and that gate has an output. -/
def SimMap.Feeds (map : SimMap) (it : Entry) (id : Id) : Prop :=
  ∃ x ∈ map.elems, x.id = id ∧ x.id ≠ it.id ∧ .output ∈ hitBoxTypes x.first.type

theorem SimMap.Feeds.hasId {map : SimMap} {it : Entry} {id : Id} (h : map.Feeds it id) :
    map.HasId id := by
  obtain ⟨x, hx, hid, _⟩ := h
  exact ⟨x, hx, hid⟩

/-- The id that a gate reads at a slot. -/
def Entry.read (it : Entry) : HitBoxType → Id
  | .input1 => it.second.1
  | .input2 => it.second.2
  | .output => gNotValidGateId

/-- Every map that the simulator and the table get is loadable. -/
structure SimMap.Loadable (map : SimMap) : Prop where
  gate : ∀ it ∈ map.elems, it.first = .create it.first.type it.id ∧
    it.first.type ≠ .enumSize ∧ it.id ≠ gNotValidGateId
  first : ∀ it ∈ map.elems, it.second.1 = gNotValidGateId ∨
    .input1 ∈ hitBoxTypes it.first.type ∧ map.HasId it.second.1
  second : ∀ it ∈ map.elems, if .input2 ∈ hitBoxTypes it.first.type then map.HasId it.second.2
    else it.second.2 = gNotValidGateId

structure SimMap.Drawable (map : SimMap) : Prop where
  gate : ∀ it ∈ map.elems, it.first = .create it.first.type it.id ∧
    it.first.type ≠ .enumSize ∧ it.id ≠ gNotValidGateId
  first : ∀ it ∈ map.elems, it.second.1 = gNotValidGateId ∨
    .input1 ∈ hitBoxTypes it.first.type ∧ map.Feeds it it.second.1
  second : ∀ it ∈ map.elems, if .input2 ∈ hitBoxTypes it.first.type then map.Feeds it it.second.2
    else it.second.2 = gNotValidGateId

theorem SimMap.Loadable.read {map : SimMap} (hm : map.Loadable) {it : Entry}
    (hit : it ∈ map.elems) (slot : HitBoxType) : it.read slot = gNotValidGateId ∨
      slot ∈ hitBoxTypes it.first.type ∧ map.HasId (it.read slot) := by
  cases slot with
  | input1 => exact hm.first it hit
  | input2 =>
    have h := hm.second it hit
    split at h
    · next hslot => exact Or.inr ⟨hslot, h⟩
    · exact Or.inl h
  | output => exact Or.inl rfl

theorem SimMap.Loadable.second_ne {map : SimMap} (hm : map.Loadable) {it : Entry}
    (hit : it ∈ map.elems) (htwo : twoInputs it.first.type) :
    it.read .input2 ≠ gNotValidGateId := by
  have hslot : .input2 ∈ hitBoxTypes it.first.type := by simpa [twoInputs] using htwo
  have h := hm.second it hit
  rw [if_pos hslot] at h
  obtain ⟨x, hx, hid⟩ := h
  exact fun h0 => (hm.gate x hx).2.2 (hid.trans h0)

/-- Drawing makes the loadable maps whose connections come from other gates with an output. -/
theorem SimMap.drawable_iff_loadable {map : SimMap} : map.Drawable ↔ map.Loadable ∧
    ∀ it ∈ map.elems, ∀ slot, it.read slot = gNotValidGateId ∨ map.Feeds it (it.read slot) := by
  constructor
  · intro hm
    refine ⟨⟨hm.gate, fun it hit => ?_, fun it hit => ?_⟩, fun it hit slot => ?_⟩
    · exact (hm.first it hit).imp id (And.imp id Feeds.hasId)
    · have h := hm.second it hit
      split at h
      · next hslot =>
        rw [if_pos hslot]
        exact h.hasId
      · next hslot => rwa [if_neg hslot]
    · cases slot with
      | input1 => exact (hm.first it hit).imp id And.right
      | input2 =>
        have h := hm.second it hit
        split at h
        · exact Or.inr h
        · exact Or.inl h
      | output => exact Or.inl rfl
  · rintro ⟨hm, hread⟩
    refine ⟨hm.gate, fun it hit => ?_, fun it hit => ?_⟩
    · rcases hm.first it hit with h0 | ⟨hslot, _⟩
      · exact Or.inl h0
      · exact (hread it hit .input1).imp id fun h => ⟨hslot, h⟩
    · have h := hm.second it hit
      split at h
      · next hslot =>
        obtain ⟨x, hx, hid⟩ := h
        rw [if_pos hslot]
        refine (hread it hit .input2).resolve_left fun h0 => ?_
        exact (hm.gate x hx).2.2 (hid.trans h0)
      · next hslot => rwa [if_neg hslot]

namespace Area

variable {a : Area}

theorem hasId_simMap {g : Gate} (hg : g ∈ a.m_gates.elems) : a.simMap.HasId g.id := by
  have hne : a.simMap.find? g.id ≠ none := by
    rw [simMap, KeySet.find?_ofList, Ne, List.find?_eq_none]
    intro h
    exact h _ (List.mem_map_of_mem hg) (decide_eq_true (entry_id a g))
  obtain ⟨it, hit⟩ := Option.ne_none_iff_exists'.mp hne
  exact ⟨it, KeySet.mem_of_find? hit, KeySet.key_of_find? hit⟩

/-- What a gate reads at a slot: nothing, or a gate with an output. -/
theorem WellFormed.slotId_cases (ha : a.WellFormed) {g : Gate} (hg : g ∈ a.m_gates.elems)
    (slot : HitBoxType) :
    a.scene.source ⟨g.ptr, slot⟩ = none ∧ a.slotId g slot = gNotValidGateId ∨
      slot ∈ hitBoxTypes g.type ∧ ∃ x ∈ a.m_gates.elems,
        a.scene.source ⟨g.ptr, slot⟩ = some x.ptr ∧ a.slotId g slot = x.id ∧ g.ptr ≠ x.ptr ∧
        .output ∈ hitBoxTypes x.type := by
  rcases ha.source_cases g slot with h | ⟨x, hx, h⟩
  · refine Or.inl ⟨h, ?_⟩
    rw [slotId, h]
  · obtain ⟨hptr, _, hout⟩ := ha.feeds_output hx (ha.source_eq_some.mp h)
    refine Or.inr ⟨?_, x, hx, h, slotId_of_source hx h, hptr, hout⟩
    by_contra hslot
    rw [ha.source_of_missing hg hslot] at h
    cases h

theorem mem_simMap {it : Entry} (hit : it ∈ a.simMap.elems) :
    ∃ g ∈ a.m_gates.elems, a.entry g = it :=
  List.mem_map.mp (KeySet.mem_of_mem_ofList hit)

theorem WellFormed.loadable (ha : a.WellFormed) {map : SimMap} (h : a.createSimMap = .ok map) :
    map.Loadable := by
  have hc := ha.secondsConnected_of_map h
  rw [createSimMap_ok ha h]
  refine ⟨?_, ?_, ?_⟩
  · intro it hit
    obtain ⟨g, hg, rfl⟩ := mem_simMap hit
    have hs := ha.shaped g hg
    rw [entry_type, entry_id]
    exact ⟨rfl, hs.type, hs.id⟩
  · intro it hit
    obtain ⟨g, hg, rfl⟩ := mem_simMap hit
    rw [entry_type]
    refine (ha.slotId_cases hg .input1).imp And.right ?_
    rintro ⟨hslot, x, hx, _, hid, _⟩
    exact ⟨hslot, (hid ▸ hasId_simMap hx : a.simMap.HasId (a.slotId g .input1))⟩
  · intro it hit
    obtain ⟨g, hg, rfl⟩ := mem_simMap hit
    rw [entry_type]
    rcases ha.slotId_cases hg .input2 with ⟨hnone, h0⟩ | ⟨hslot, x, hx, _, hid, _⟩
    · rw [if_neg]
      · exact h0
      · intro hslot
        have htwo : twoInputs g.type := by simpa [twoInputs] using hslot
        exact ha.connected_iff.mp (hc g hg htwo) hnone
    · rw [if_pos hslot]
      exact (hid ▸ hasId_simMap hx : a.simMap.HasId (a.slotId g .input2))

theorem WellFormed.drawable (ha : a.WellFormed) (hd : a.DistinctIds) {map : SimMap}
    (h : a.createSimMap = .ok map) : map.Drawable := by
  refine SimMap.drawable_iff_loadable.mpr ⟨ha.loadable h, fun it hit slot => ?_⟩
  rw [createSimMap_ok ha h] at hit ⊢
  obtain ⟨g, hg, rfl⟩ := mem_simMap hit
  have hfeeds : a.slotId g slot = gNotValidGateId ∨
      a.simMap.Feeds (a.entry g) (a.slotId g slot) := by
    refine (ha.slotId_cases hg slot).imp And.right ?_
    rintro ⟨_, x, hx, _, hid, hptr, hout⟩
    refine ⟨a.entry x, KeySet.mem_of_find? (hd.find_simMap hx), ?_, ?_, ?_⟩
    · rw [entry_id, hid]
    · rw [entry_id, entry_id]
      exact fun he => hptr (congrArg Gate.ptr (hd x hx g hg he).symm)
    · rwa [entry_type]
  cases slot with
  | input1 => exact hfeeds
  | input2 => exact hfeeds
  | output => exact Or.inl rfl

end Area

/-! ## Drawing a map -/

namespace Circuit

/-- Edits without loads lead from `c` to `c'`. -/
def Reaches (c c' : Circuit) : Prop :=
  ∃ es : List Edit, (∀ e ∈ es, e.loads = false) ∧ es.foldlM step c = some c'

theorem Reaches.refl (c : Circuit) : c.Reaches c := ⟨[], by simp, rfl⟩

theorem Reaches.trans {c d e : Circuit} (h : c.Reaches d) (h' : d.Reaches e) : c.Reaches e := by
  obtain ⟨es, hes, hd⟩ := h
  obtain ⟨es', hes', he⟩ := h'
  refine ⟨es ++ es', List.forall_mem_append.mpr ⟨hes, hes'⟩, ?_⟩
  rw [List.foldlM_append, hd]
  exact he

theorem Reaches.step {c c' : Circuit} {e : Edit} (he : e.loads = false) (h : c.step e = some c') :
    c.Reaches c' := by
  refine ⟨[e], by simpa using he, ?_⟩
  rw [List.foldlM_cons, h]
  rfl

/-- The gates that are drawn for the entries, one pointer after the other. -/
def drawnOf : GatePtr → List Entry → List (Part × Entry)
  | _, [] => []
  | n, it :: l => (⟨n, it.first.type, it.id⟩, it) :: drawnOf (n + 1) l

def partsOf (n : GatePtr) (l : List Entry) : List Part := (drawnOf n l).map Prod.fst

theorem mem_drawnOf {n : GatePtr} {l : List Entry} {r : Part × Entry} (h : r ∈ drawnOf n l) :
    r.2 ∈ l ∧ r.1.id = r.2.id ∧ r.1.type = r.2.first.type ∧ n ≤ r.1.ptr ∧
      r.1.ptr < n + l.length := by
  induction l generalizing n with
  | nil => cases h
  | cons it l ih =>
    rw [List.length_cons]
    rcases List.mem_cons.mp h with rfl | h
    · exact ⟨List.mem_cons_self .., rfl, rfl, Nat.le_refl n, Nat.lt_add_of_pos_right (by omega)⟩
    · obtain ⟨hmem, hid, htype, hle, hlt⟩ := ih h
      refine ⟨List.mem_cons_of_mem _ hmem, hid, htype, Nat.le_of_succ_le hle, ?_⟩
      rwa [Nat.add_assoc, Nat.add_comm 1] at hlt

theorem drawnOf_append (n : GatePtr) (l l' : List Entry) :
    drawnOf n (l ++ l') = drawnOf n l ++ drawnOf (n + l.length) l' := by
  induction l generalizing n with
  | nil => rfl
  | cons it l ih =>
    rw [List.cons_append, drawnOf, drawnOf, ih, List.cons_append, List.length_cons]
    congr 3
    rw [Nat.add_assoc, Nat.add_comm 1]

theorem drawnOf_entry (n : GatePtr) (l : List Entry) : (drawnOf n l).map Prod.snd = l := by
  induction l generalizing n with
  | nil => rfl
  | cons it l ih => rw [drawnOf, List.map_cons, ih]

theorem partsOf_id (n : GatePtr) (l : List Entry) : (partsOf n l).map Part.id = l.map Entry.id := by
  have h := congrArg (List.map Entry.id) (drawnOf_entry n l)
  rw [← h, partsOf, List.map_map, List.map_map]
  exact List.map_congr_left fun r hr => (mem_drawnOf hr).2.1

theorem mem_partsOf {n : GatePtr} {l : List Entry} {p : Part} :
    p ∈ partsOf n l ↔ ∃ it, (p, it) ∈ drawnOf n l := by
  rw [partsOf, List.mem_map]
  constructor
  · rintro ⟨r, hr, rfl⟩
    exact ⟨r.2, hr⟩
  · rintro ⟨it, hr⟩
    exact ⟨(p, it), hr, rfl⟩

theorem partsOf_ptr_nodup (n : GatePtr) (l : List Entry) : ((partsOf n l).map Part.ptr).Nodup := by
  induction l generalizing n with
  | nil => exact List.nodup_nil
  | cons it l ih =>
    refine List.nodup_cons.mpr ⟨?_, ih (n + 1)⟩
    intro hmem
    obtain ⟨p, hp, hptr⟩ := List.mem_map.mp hmem
    obtain ⟨it', hr⟩ := mem_partsOf.mp hp
    have hle := (mem_drawnOf hr).2.2.2.1
    rw [show p.ptr = n from hptr] at hle
    exact Nat.not_succ_le_self n hle

/-- **Drawing.**  The generator draws the ids of the map. -/
theorem draw_reaches {l : List Entry} {c : Circuit} (hgen : c.gen = l.map Entry.id)
    (hnew : (c.parts.map Part.id ++ l.map Entry.id).Nodup)
    (hl : ∀ it ∈ l, it.first.type ≠ .enumSize ∧ it.id ≠ gNotValidGateId) :
    c.Reaches { c with
      parts := c.parts ++ partsOf c.next l, next := c.next + l.length, gen := [] } := by
  induction l generalizing c with
  | nil =>
    have hsame : ({ c with parts := c.parts ++ partsOf c.next [], next := c.next + 0, gen := [] } :
        Circuit) = c := Circuit.ext (List.append_nil _) rfl rfl rfl rfl hgen.symm
    rw [List.length_nil, hsame]
    exact .refl c
  | cons it l ih =>
    obtain ⟨⟨ht, hid⟩, hl⟩ := List.forall_mem_cons.mp hl
    have hfresh : it.id ∉ c.parts.map Part.id := fun hmem =>
      (List.nodup_append.mp hnew).2.2 _ hmem _ (List.mem_cons_self ..) rfl
    have hnext : nextId (c.parts.map Part.id) c.gen = some (it.id, l.map Entry.id) := by
      rw [hgen, List.map_cons, nextId, if_neg (not_or.mpr ⟨hid, hfresh⟩)]
    have hstep : c.step (.draw it.first.type) = some { c with
        parts := c.parts ++ [⟨c.next, it.first.type, it.id⟩]
        next := c.next + 1
        gen := l.map Entry.id } := by
      rw [step, drawEntity, Entity.given, if_pos rfl, hnext]
      simp only [if_neg ht]
    refine (Reaches.step rfl hstep).trans ?_
    have hrest := ih (c := { c with
      parts := c.parts ++ [⟨c.next, it.first.type, it.id⟩]
      next := c.next + 1
      gen := l.map Entry.id }) rfl (by simpa using hnew) hl
    simpa [partsOf, drawnOf, Nat.add_assoc, Nat.add_comm 1] using hrest

/-- **Connecting** is two clicks. -/
theorem plug_reaches {c : Circuit} (hp : c.pending = none) {i o : HitBoxPtr} (hi : c.HasBox i)
    (ho : c.HasBox o) (hin : i.isInput = true) (hout : o.isInput = false)
    (hne : i.owner ≠ o.owner) (hfree : c.source i = none) :
    c.Reaches { c with source := Function.update c.source i (some o.owner) } := by
  have hfirst : c.step (.click i) = some { c with pending := some i } :=
    click_first hi (fun _ => hfree) hp
  have hsecond : ({ c with pending := some i } : Circuit).step (.click o) =
      some { c with source := Function.update c.source i (some o.owner) } := by
    have hnever : o.isInput = true → c.source o = none := fun h => absurd h (by simp [hout])
    have hclick : ({ c with pending := some i } : Circuit).click o =
        if HasBox { c with pending := some i } i then
          some (if o.isInput then plug o i { c with pending := some i }
            else plug i o { c with pending := some i }) else none :=
      click_second (c := { c with pending := some i }) ho hnever rfl (by simp [hin, hout])
    rw [if_pos (show HasBox { c with pending := some i } i from hi)] at hclick
    rw [step, hclick, hout]
    simp only [Bool.false_eq_true, if_false, plug, if_neg hne, ← hp]
  exact (Reaches.step rfl hfirst).trans (Reaches.step rfl hsecond)

/-- The connection of `box` in `sources` can be made in `c`. -/
def Pluggable (c : Circuit) (sources : Sources) (box : HitBoxPtr) : Prop :=
  ∀ q, sources box = some q → box.isInput = true ∧ c.HasBox box ∧ c.HasBox ⟨q, .output⟩ ∧
    box.owner ≠ q

theorem connect_reaches {boxes : List HitBoxPtr} {c : Circuit} {sources : Sources}
    (hp : c.pending = none) (hplug : ∀ box ∈ boxes, c.Pluggable sources box)
    (hfree : ∀ box ∈ boxes, c.source box = none ∨ c.source box = sources box) :
    c.Reaches
      { c with source := fun box => if box ∈ boxes then sources box else c.source box } := by
  induction boxes generalizing c with
  | nil => exact .refl c
  | cons b boxes ih =>
    obtain ⟨hb, hboxes⟩ := List.forall_mem_cons.mp hplug
    obtain ⟨hbfree, hrest⟩ := List.forall_mem_cons.mp hfree
    have hone : c.Reaches { c with source := Function.update c.source b (sources b) } := by
      by_cases hsame : c.source b = sources b
      · rw [← hsame, Function.update_eq_self]
        exact .refl c
      · have hnone := hbfree.resolve_right hsame
        obtain ⟨q, hq⟩ : ∃ q, sources b = some q :=
          Option.ne_none_iff_exists'.mp fun h => hsame (hnone.trans h.symm)
        obtain ⟨hin, hhas, hdriver, hne⟩ := hb q hq
        rw [hq]
        exact plug_reaches (o := ⟨q, .output⟩) hp hhas hdriver hin rfl hne hnone
    refine hone.trans ?_
    have hnext := ih (c := { c with source := Function.update c.source b (sources b) }) hp hboxes
      fun box hbox => by
        by_cases he : box = b
        · exact Or.inr (by rw [he]; exact Function.update_self ..)
        · simpa [Function.update_of_ne he] using hrest box hbox
    have hsource : (fun box => if box ∈ b :: boxes then sources box else c.source box) =
        fun box => if box ∈ boxes then sources box
          else Function.update c.source b (sources b) box := by
      funext box
      by_cases hmem : box ∈ boxes
      · simp [hmem]
      · by_cases he : box = b
        · simp [he]
        · simp [hmem, he]
    rw [hsource]
    exact hnext

/-- What the gates that were drawn for the entries are to read. -/
def wanted (drawn : List (Part × Entry)) (drivers : List Part) : Sources := fun box => do
  let r ← drawn.find? fun r => r.1.ptr = box.owner
  let x ← drivers.find? fun x => x.id = r.2.read box.type
  some x.ptr

/-- Everything that the entries read can be connected to a driver. -/
structure Drivable (drawn : List (Part × Entry)) (drivers : List Part) : Prop where
  nodup : (drivers.map Part.id).Nodup
  driver : ∀ x ∈ drivers, x ∈ drawn.map Prod.fst ∧ x.id ≠ gNotValidGateId
  entry : ∀ r ∈ drawn, r.2.first = .create r.1.type r.1.id
  read : ∀ r ∈ drawn, ∀ slot, r.2.read slot = gNotValidGateId ∨
    slot ∈ hitBoxTypes r.1.type ∧ ∃ x ∈ drivers, x.id = r.2.read slot ∧ r.1.ptr ≠ x.ptr ∧
      .output ∈ hitBoxTypes x.type
  second : ∀ r ∈ drawn, twoInputs r.1.type → r.2.read .input2 ≠ gNotValidGateId

section

variable {n : GatePtr} {l : List Entry} {drivers : List Part}
  (hd : Drivable (drawnOf n l) drivers) {r : Part × Entry}

theorem find_partsOf_ptr {p : Part} (hp : p ∈ partsOf n l) :
    (partsOf n l).find? (fun x => x.ptr = p.ptr) = some p :=
  KeySet.find?_of_nodup (partsOf_ptr_nodup n l) hp

theorem find_drawnOf (hr : r ∈ drawnOf n l) :
    (drawnOf n l).find? (fun x => x.1.ptr = r.1.ptr) = some r := by
  have hnodup : ((drawnOf n l).map fun x => x.1.ptr).Nodup := by
    have h := partsOf_ptr_nodup n l
    rwa [partsOf, List.map_map] at h
  exact KeySet.find?_of_nodup hnodup hr

include hd

/-- The connection that the entry asks for can be made. -/
theorem wanted_cases (hr : r ∈ drawnOf n l) (slot : HitBoxType) :
    wanted (drawnOf n l) drivers ⟨r.1.ptr, slot⟩ = none ∧ r.2.read slot = gNotValidGateId ∨
      slot ∈ hitBoxTypes r.1.type ∧ ∃ x ∈ partsOf n l,
        wanted (drawnOf n l) drivers ⟨r.1.ptr, slot⟩ = some x.ptr ∧ x.id = r.2.read slot ∧
        r.1.ptr ≠ x.ptr ∧ .output ∈ hitBoxTypes x.type := by
  have hwanted : wanted (drawnOf n l) drivers ⟨r.1.ptr, slot⟩ =
      (drivers.find? fun x => x.id = r.2.read slot).map Part.ptr := by
    rw [wanted, find_drawnOf hr]
    cases h : drivers.find? fun x => x.id = r.2.read slot with
    | none => simp [h]
    | some x => simp [h]
  rcases hd.read r hr slot with h0 | ⟨hslot, x, hx, hid, hne, hout⟩
  · refine Or.inl ⟨?_, h0⟩
    rw [hwanted, Option.map_eq_none_iff, List.find?_eq_none]
    intro x hx hid
    exact (hd.driver x hx).2 ((of_decide_eq_true hid).trans h0)
  · refine Or.inr ⟨hslot, x, (hd.driver x hx).1, ?_, hid, hne, hout⟩
    have hfind : drivers.find? (fun y => y.id = r.2.read slot) = some x := by
      rw [← hid]
      exact KeySet.find?_of_nodup hd.nodup hx
    rw [hwanted, hfind]
    rfl

theorem wanted_pluggable {c : Circuit} (hparts : c.parts = partsOf n l) {p : Part}
    (hp : p ∈ c.parts) {slot : HitBoxType} (hslot : slot ≠ .output) :
    c.Pluggable (wanted (drawnOf n l) drivers) ⟨p.ptr, slot⟩ := by
  intro q hq
  obtain ⟨it, hr⟩ := mem_partsOf.mp (hparts ▸ hp)
  rcases wanted_cases hd hr slot with ⟨hnone, _⟩ | ⟨hmem, x, hx, hsome, _, hne, hout⟩
  · rw [hnone] at hq
    cases hq
  · rw [hsome] at hq
    cases hq
    exact ⟨by simpa [HitBoxPtr.isInput] using hslot, ⟨p, hp, rfl, hmem⟩,
      ⟨x, hparts ▸ hx, rfl, hout⟩, hne⟩

/-- A circuit with the parts and the connections of the entries gives their map. -/
theorem simMap_of_wanted {c : Circuit} (hparts : c.parts = partsOf n l)
    (hsource : ∀ p ∈ c.parts, ∀ slot, slot ≠ .output →
      c.source ⟨p.ptr, slot⟩ = wanted (drawnOf n l) drivers ⟨p.ptr, slot⟩) :
    c.simMap = some (KeySet.ofList l) := by
  have hslot : ∀ r ∈ drawnOf n l, ∀ slot, slot ≠ .output →
      c.slotId r.1 slot = r.2.read slot := by
    intro r hr slot hne
    have hp : r.1 ∈ c.parts := hparts ▸ List.mem_map_of_mem hr
    rw [slotId, hsource r.1 hp slot hne]
    rcases wanted_cases hd hr slot with ⟨hnone, h0⟩ | ⟨_, x, hx, hsome, hid, _⟩
    · rw [hnone, h0]
    · rw [hsome, hparts]
      simp only [find_partsOf_ptr hx, Option.map_some, Option.getD_some, hid]
  have hcomplete : c.Complete := by
    intro p hp htwo
    obtain ⟨it, hr⟩ := mem_partsOf.mp (hparts ▸ hp)
    have hread := hd.second _ hr htwo
    rw [hsource p hp .input2 (by simp)]
    rcases wanted_cases hd hr .input2 with ⟨_, h0⟩ | ⟨_, x, _, hsome, _⟩
    · exact absurd h0 hread
    · simp [hsome]
  have hentry : ∀ r ∈ drawnOf n l, c.entry r.1 = r.2 := by
    intro r hr
    rw [entry, hslot r hr .input1 (by simp), hslot r hr .input2 (by simp), ← hd.entry r hr]
    rfl
  have hlist : c.parts.map c.entry = l := by
    calc c.parts.map c.entry
        = (drawnOf n l).map fun r => c.entry r.1 := by
          rw [hparts, partsOf, List.map_map]
          rfl
      _ = (drawnOf n l).map Prod.snd := List.map_congr_left hentry
      _ = l := drawnOf_entry n l
  rw [simMap, if_pos hcomplete, hlist]

/-- **Connecting what was drawn.** -/
theorem wire_reaches {c : Circuit} (hparts : c.parts = partsOf n l) (hp : c.pending = none)
    (hfree : ∀ box, c.source box = none) :
    ∃ c', c.Reaches c' ∧ c'.simMap = some (KeySet.ofList l) := by
  let boxes : List HitBoxPtr := c.parts.flatMap fun p => [⟨p.ptr, .input1⟩, ⟨p.ptr, .input2⟩]
  have hboxes : ∀ box, box ∈ boxes ↔ ∃ p ∈ c.parts, box.owner = p.ptr ∧ box.type ≠ .output := by
    rintro ⟨owner, type⟩
    cases type <;> simp [boxes, eq_comm]
  refine ⟨{ c with
    source := fun box => if box ∈ boxes then wanted (drawnOf n l) drivers box else c.source box },
    connect_reaches hp (fun box hbox => ?_) fun box _ => Or.inl (hfree box),
    simMap_of_wanted hd hparts fun p hpart slot hslot => ?_⟩
  · obtain ⟨p, hpart, howner, htype⟩ := (hboxes box).mp hbox
    obtain ⟨owner, type⟩ := box
    cases howner
    exact wanted_pluggable hd hparts hpart htype
  · exact if_pos ((hboxes _).mpr ⟨p, hpart, rfl, hslot⟩)

end

/-- The gates of a drawable map drive each other. -/
theorem drivable_of_drawable {map : SimMap} (hm : map.Drawable) (n : GatePtr) :
    Drivable (drawnOf n map.elems) (partsOf n map.elems) := by
  obtain ⟨hl, hread⟩ := SimMap.drawable_iff_loadable.mp hm
  have hids : ((partsOf n map.elems).map Part.id).Nodup := by
    rw [partsOf_id]
    exact map.nodup_keys
  refine ⟨hids, fun x hx => ?_, fun r hr => ?_, fun r hr slot => ?_, fun r hr htwo => ?_⟩
  · obtain ⟨it, hr⟩ := mem_partsOf.mp hx
    obtain ⟨hit, hid, _⟩ := mem_drawnOf hr
    exact ⟨hx, hid ▸ (hm.gate it hit).2.2⟩
  · obtain ⟨hit, hid, htype, _⟩ := mem_drawnOf hr
    rw [hid, htype]
    exact (hm.gate _ hit).1
  · obtain ⟨hit, _, htype, _⟩ := mem_drawnOf hr
    rcases hl.read hit slot with h0 | ⟨hslot, _⟩
    · exact Or.inl h0
    · refine (hread _ hit slot).imp id ?_
      rintro ⟨y, hy, hyid, hne, hout⟩
      obtain ⟨s, hs, rfl⟩ : ∃ s ∈ drawnOf n map.elems, s.2 = y := by
        rwa [← drawnOf_entry n map.elems, List.mem_map] at hy
      obtain ⟨_, hsid, hstype, _⟩ := mem_drawnOf hs
      refine ⟨htype ▸ hslot, s.1, List.mem_map_of_mem hs, hsid.trans hyid, fun hptr => ?_,
        hstype ▸ hout⟩
      have hfind := find_drawnOf hs
      rw [← hptr, find_drawnOf hr] at hfind
      exact hne (congrArg (fun r : Part × Entry => r.2.id) (Option.some.inj hfind).symm)
  · obtain ⟨hit, _, htype, _⟩ := mem_drawnOf hr
    exact hl.second_ne hit (htype ▸ htwo)

/-- **Drawing a map**: the first output is deleted, the gates are drawn in the order of
the map, and every connection is made. -/
theorem exists_drawing {map : SimMap} (hm : map.Drawable) :
    ∃ es : List Edit, (∀ e ∈ es, e.loads = false) ∧
      ∃ c, (.draw .output :: es).foldlM step (start (1 :: map.elems.map Entry.id)) = some c ∧
        c.simMap = some map := by
  let first : Circuit :=
    ⟨[⟨0, .output, 1⟩], fun _ => none, none, false, 1, map.elems.map Entry.id⟩
  let blank : Circuit := ⟨[], fun _ => none, none, false, 1, map.elems.map Entry.id⟩
  have hfirst : (start (1 :: map.elems.map Entry.id)).step (.draw .output) = some first := by
    simp [step, drawEntity, Entity.given, start, nextId, gNotValidGateId, first]
  have hblank : first.Reaches blank := by
    refine Reaches.step (e := .remove 0) rfl (congrArg some ?_)
    refine (if_pos ⟨_, List.mem_singleton_self _, rfl⟩).trans ?_
    exact Circuit.ext rfl (funext fun _ => by simp [first, blank]) rfl rfl rfl rfl
  let drawn : Circuit :=
    ⟨partsOf 1 map.elems, fun _ => none, none, false, 1 + map.elems.length, []⟩
  have hdrawn : blank.Reaches drawn :=
    draw_reaches (c := blank) rfl map.nodup_keys fun it hit => (hm.gate it hit).2
  obtain ⟨c, hwired, hmap⟩ :=
    wire_reaches (c := drawn) (drivable_of_drawable hm 1) rfl rfl fun _ => rfl
  obtain ⟨es, hes, hrun⟩ := (hblank.trans hdrawn).trans hwired
  refine ⟨es, hes, c, ?_, ?_⟩
  · rw [List.foldlM_cons, hfirst]
    exact hrun
  · rw [hmap, KeySet.ofList_elems]

end Circuit

namespace Area

/-- **The maps that can be drawn.**  What runs without loads give the simulator and the
table is exactly the drawable maps. -/
theorem drawable_iff (map : SimMap) :
    (∃ gen acts a, (∀ act ∈ acts, act.loads = false) ∧
      create gen >>= runs step acts = .ok a ∧ a.createSimMap = .ok map) ↔ map.Drawable := by
  constructor
  · rintro ⟨gen, acts, a, hacts, hrun, hmap⟩
    obtain ⟨ha, hd⟩ := runs_distinctIds hacts hrun
    exact ha.wellFormed.drawable hd hmap
  · intro hm
    obtain ⟨es, hes, c, hc, hmap⟩ := Circuit.exists_drawing hm
    obtain ⟨acts, hkind, hsim⟩ := realize_abstracts (1 :: map.elems.map Entry.id) es
    obtain ⟨a, ha, habs⟩ := hsim.of_some hc
    refine ⟨_, acts, a, ?_, ha, ?_⟩
    · intro act hact
      obtain ⟨e, he, hloads⟩ := hkind act hact
      rw [hloads]
      exact hes e he
    · obtain ⟨hsound, rfl⟩ := habs
      obtain ⟨map', hmap', heq⟩ := hsound.wellFormed.simMap_simulated.of_some hmap
      rw [hmap', heq]

end Area

end SimGate

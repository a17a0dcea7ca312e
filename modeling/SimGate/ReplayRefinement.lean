import SimGate.Connections
import SimGate.Replay

/-!
# The replay of the loader

`connectPair` clicks an input and an output of gates of the scene.  Seen through
`Represents`, which forgets everything but the ids wired to each slot and what
the click handler holds, it is `Board.replay`: `Represents.replay`.
-/

namespace SimGate

/-! ## A click on an input, then on an output -/

namespace Scene

/-- The two clicks of a recorded connection. -/
def clickPair (i o : HitBoxPtr) (s : Scene) : Except Fault Scene := do
  let s ← s.released i
  s.released o

theorem released_output_first {s : Scene} {o : HitBoxPtr} {ho : GateHitBox}
    (hbo : s.hitbox o = some ho) (hoo : o.isInput = false) (hin : s.input = none)
    (hout : s.output = none) : s.released o = .ok { s with output := some o } := by
  rw [released_output hbo hoo, hout]
  exact hitBoxConnectRef_none (s := { s with output := some o }) (Or.inl hin)

section

variable {s : Scene} {i o : HitBoxPtr} {hi ho : GateHitBox} (hbi : s.hitbox i = some hi)
  (hbo : s.hitbox o = some ho) (hw : hi.wire = none) (hii : i.isInput = true)
  (hoo : o.isInput = false)

include hbi hbo hw hii hoo

theorem clickPair_idle (hin : s.input = none) (hout : s.output = none) (hne : i.owner ≠ o.owner) :
    s.clickPair i o = .ok (s.connect i o).reset := by
  have h1 : s.released i = .ok { s with input := some i } := by
    rw [released_input hbi hii hw, hin]
    exact hitBoxConnectRef_none (s := { s with input := some i }) (Or.inr hout)
  have h2 : { s with input := some i }.released o = .ok (s.connect i o).reset := by
    rw [released_output (s := { s with input := some i }) hbo hoo, hout]
    have h := hitBoxConnectRef_eq (s := { s with input := some i, output := some o }) rfl rfl
      hii hoo hbi hbo
    rw [if_neg hne] at h
    exact h
  rw [clickPair, h1]
  exact h2

/-- A pending input is dropped by the first click. -/
theorem clickPair_stale (hin : s.input.isSome) :
    s.clickPair i o = .ok { s with input := none, output := some o } := by
  rw [clickPair, released_input hbi hii hw, if_pos hin]
  exact released_output_first (s := s.reset) hbo hoo rfl rfl

/-- A pending output is connected by the first click. -/
theorem clickPair_shift {y : HitBoxPtr} {hy : GateHitBox} (hin : s.input = none)
    (hout : s.output = some y) (hby : s.hitbox y = some hy) (hyo : y.isInput = false) :
    s.clickPair i o =
      .ok { (if i.owner = y.owner then s else s.connect i y) with
        input := none
        output := some o } := by
  have h1 : s.released i =
      .ok (if i.owner = y.owner then s.reset else (s.connect i y).reset) := by
    rw [released_input hbi hii hw, hin]
    exact hitBoxConnectRef_eq (s := { s with input := some i }) rfl hout hii hyo hbi hby
  rw [clickPair, h1]
  split
  · exact released_output_first (s := s.reset) hbo hoo rfl rfl
  · have hbo' : ∃ b, (s.connect i y).reset.hitbox o = some b := by
      show ∃ b, (s.connect i y).hitbox o = some b
      rw [connect_hitbox, hbo]
      exact ⟨_, rfl⟩
    obtain ⟨b, hbo'⟩ := hbo'
    exact released_output_first (s := (s.connect i y).reset) hbo' hoo rfl rfl

end

/-- Following a pending output that is gone. -/
theorem clickPair_dangling {s : Scene} {i o y : HitBoxPtr} {hi : GateHitBox}
    (hbi : s.hitbox i = some hi) (hw : hi.wire = none) (hii : i.isInput = true)
    (hin : s.input = none) (hout : s.output = some y) (hby : s.hitbox y = none) :
    s.clickPair i o = .error .dangling := by
  have h1 : s.released i = .error .dangling := by
    rw [released_input hbi hii hw, hin]
    simp [hitBoxConnectRef, hout, deref, hbi, hby, bind, Except.bind]
  rw [clickPair, h1]
  rfl

theorem connect_source {s : Scene} (hs : s.Consistent) {i o : HitBoxPtr} {hi ho : GateHitBox}
    (hii : i.isInput = true) (hoo : o.isInput = false) (hne : i.owner ≠ o.owner)
    (hbi : s.hitbox i = some hi) (hw : hi.wire = none) (hbo : s.hitbox o = some ho)
    (box : HitBoxPtr) :
    (s.connect i o).source box = if box = i then some o.owner else s.source box := by
  have hs' := hs.connect hii hoo hne hbi hw hbo
  apply Option.ext
  intro q
  show (s.connect i o).source box = some q ↔
    (if box = i then some o.owner else s.source box) = some q
  rw [hs'.source_eq_some]
  by_cases hbox : box = i
  · subst hbox
    rw [if_pos rfl, Option.some.injEq]
    constructor
    · rintro ⟨p, w, hp, hwi, rfl⟩
      rw [connect_wire] at hp
      split at hp
      · cases hp
        rfl
      · exact absurd hwi (hs.input_ne hbi hw hp)
    · rintro rfl
      exact ⟨s.nextWire, _, by rw [connect_wire, if_pos rfl], rfl, rfl⟩
  · rw [if_neg hbox, hs.source_eq_some]
    constructor
    · rintro ⟨p, w, hp, hwi, rfl⟩
      rw [connect_wire] at hp
      split at hp
      · cases hp
        exact absurd hwi.symm hbox
      · exact ⟨p, w, hp, hwi, rfl⟩
    · rintro ⟨p, w, hp, hwi, rfl⟩
      exact ⟨p, w, hs.connect_wire_old i o hp, hwi, rfl⟩

end Scene

/-! ## The ids at the slots -/

theorem Gate.Shaped.getHitBox {g : Gate} (hg : g.Shaped) {slot : HitBoxType}
    (hslot : slot ∈ hitBoxTypes g.type) : g.getHitBox slot = some ⟨g.ptr, slot⟩ := by
  obtain ⟨_, hh, _, _⟩ := hg
  cases ht : g.type <;> cases slot <;> simp_all [hitBoxTypes, Gate.getHitBox]

namespace Area

theorem mem_of_getGate {a : Area} {id : Id} {g : Gate} (h : a.getGate id = some g) :
    g ∈ a.m_gates.elems := List.mem_of_find?_eq_some h

theorem getGate_id {a : Area} {id : Id} {g : Gate} (h : a.getGate id = some g) : g.id = id := by
  unfold getGate at h
  simpa using List.find?_some h

theorem getGate_ne_none {a : Area} {g : Gate} (hg : g ∈ a.m_gates.elems) :
    a.getGate g.id ≠ none := by
  unfold getGate
  exact fun h => List.find?_eq_none.mp h g hg (decide_eq_true rfl)

theorem getGate_congr {a b : Area} (h : b.m_gates = a.m_gates) : b.getGate = a.getGate := by
  funext id
  rw [getGate, getGate, h]

theorem DistinctIds.getGate {a : Area} (hd : a.DistinctIds) {g : Gate}
    (hg : g ∈ a.m_gates.elems) : a.getGate g.id = some g := by
  obtain ⟨g', hg'⟩ := Option.ne_none_iff_exists'.mp (getGate_ne_none hg)
  rw [hg', hd g' (mem_of_getGate hg') g hg (getGate_id hg')]

/-- A slot of the gate with id `id` is wired to a gate with id `y`. -/
def Wired (a : Area) (id : Id) (slot : HitBoxType) (y : Id) : Prop :=
  ∃ g ∈ a.m_gates.elems, ∃ x ∈ a.m_gates.elems, g.id = id ∧ x.id = y ∧ a.Feeds x g slot

/-- What the click handler holds; pending outputs are those of gates of the scene. -/
def Holding (a : Area) : Handler → Prop
  | .idle => a.scene.input = none ∧ a.scene.output = none
  | .staleInput => a.scene.input.isSome
  | .output y => a.scene.input = none ∧ ∃ x ∈ a.m_gates.elems, x.id = y ∧
      HitBoxType.output ∈ hitBoxTypes x.type ∧ a.scene.output = some ⟨x.ptr, .output⟩

/-- The slots of the board are those of the scheme. -/
structure Shows (a : Area) (b : Board) : Prop where
  wellFormed : a.WellFormed
  distinct : a.DistinctIds
  slots : ∀ id slot y, a.Wired id slot y ↔ b.slot id slot = some y

structure Represents (a : Area) (b : Board) : Prop extends Shows a b where
  holding : a.Holding b.handler

theorem wired_iff {a : Area} (hd : a.DistinctIds) {g x : Gate} (hg : g ∈ a.m_gates.elems)
    (hx : x ∈ a.m_gates.elems) {slot : HitBoxType} :
    a.Wired g.id slot x.id ↔ a.Feeds x g slot := by
  constructor
  · rintro ⟨g', hg', x', hx', hid, hid', h⟩
    rwa [hd g' hg' g hg hid, hd x' hx' x hx hid'] at h
  · exact fun h => ⟨g, hg, x, hx, rfl, rfl, h⟩

theorem Shows.source_eq_none {a : Area} {b : Board} (hr : a.Shows b) {g : Gate}
    (hg : g ∈ a.m_gates.elems) {slot : HitBoxType} :
    a.scene.source ⟨g.ptr, slot⟩ = none ↔ b.slot g.id slot = none := by
  constructor
  · intro h
    refine Option.eq_none_iff_forall_ne_some.mpr fun y hy => ?_
    obtain ⟨g', hg', x, _, hid, _, hf⟩ := (hr.slots g.id slot y).mpr hy
    rw [hr.distinct g' hg' g hg hid, ← hr.wellFormed.source_eq_some, h] at hf
    cases hf
  · intro h
    rcases hr.wellFormed.source_cases g slot with hs | ⟨x, hx, hs⟩
    · exact hs
    · have hw := (wired_iff hr.distinct hg hx).mpr (hr.wellFormed.source_eq_some.mp hs)
      rw [hr.slots, h] at hw
      cases hw

/-- `connectPair` clicks the slot that `Board.pick` names. -/
theorem Shows.connectPair_eq {a : Area} {b : Board} (hr : a.Shows b) {g x : Gate}
    (hg : g ∈ a.m_gates.elems) (hx : x ∈ a.m_gates.elems)
    (hslot : b.pick g.id ∈ hitBoxTypes g.type) (hout : HitBoxType.output ∈ hitBoxTypes x.type) :
    a.connectPair (g.id, x.id) =
      (a.scene.clickPair ⟨g.ptr, b.pick g.id⟩ ⟨x.ptr, .output⟩ >>= fun scene =>
        .ok { a with scene := scene }) := by
  have hemit : ∀ slot ∈ hitBoxTypes g.type, a.emitReleased g slot x.id =
      (a.scene.clickPair ⟨g.ptr, slot⟩ ⟨x.ptr, .output⟩ >>= fun scene =>
        .ok { a with scene := scene }) := by
    intro slot hslot
    simp only [emitReleased, hr.distinct.getGate hx, Scene.clickPair, bind_assoc,
      (hr.wellFormed.shaped g hg).getHitBox hslot, (hr.wellFormed.shaped x hx).getHitBox hout]
  rw [connectPair, hr.distinct.getGate hg]
  simp only [hr.wellFormed.getInput_first hg, bind, Except.bind]
  by_cases hfree : b.slot g.id .input1 = none
  · have hpick : b.pick g.id = .input1 := if_pos hfree
    rw [hpick] at hslot ⊢
    rw [hr.source_eq_none hg |>.mpr hfree]
    exact hemit .input1 hslot
  · have hpick : b.pick g.id = .input2 := if_neg hfree
    rw [hpick] at hslot ⊢
    obtain ⟨q, hq⟩ := Option.ne_none_iff_exists'.mp fun h => hfree ((hr.source_eq_none hg).mp h)
    have hone : g.type ≠ .output ∧ g.type ≠ .not := by
      constructor <;> (intro h; rw [h] at hslot; simp [hitBoxTypes] at hslot)
    rw [hq]
    simp only [if_pos hone]
    exact hemit .input2 hslot

/-! ## One recorded connection -/

theorem WellFormed.pending {a : Area} (ha : a.WellFormed) {i o : Option HitBoxPtr}
    (hi : ∀ box, i = some box → box.owner < a.nextGate)
    (ho : ∀ box, o = some box → box.owner < a.nextGate) :
    { a with scene := { a.scene with input := i, output := o } }.WellFormed :=
  ⟨ha.consistent.pending i o, ha.shaped, ha.alive, ha.allocated, hi, ho⟩

/-- A slot without a source is alive and has no wire. -/
theorem Shows.free_slot {a : Area} {b : Board} (hr : a.Shows b) {g : Gate}
    (hg : g ∈ a.m_gates.elems) {slot : HitBoxType} (hslot : slot ∈ hitBoxTypes g.type)
    (hfree : b.slot g.id slot = none) :
    ∃ h, a.scene.hitbox ⟨g.ptr, slot⟩ = some h ∧ h.wire = none := by
  obtain ⟨h, hb⟩ := (hr.wellFormed.alive_iff hg slot).mpr hslot
  refine ⟨h, hb, Option.eq_none_iff_forall_ne_some.mpr fun p hp => ?_⟩
  obtain ⟨w, hw, he⟩ := hr.wellFormed.consistent.ofWire _ h p hb hp
  have hs := (hr.source_eq_none hg).mpr hfree
  exact hr.wellFormed.consistent.source_eq_none.mp hs p w hw he

theorem Shows.connect {a : Area} {b : Board} (hr : a.Shows b) {g y : Gate}
    (hg : g ∈ a.m_gates.elems) (hy : y ∈ a.m_gates.elems) {slot : HitBoxType}
    (hslot : slot ∈ hitBoxTypes g.type) (hin : slot ≠ .output) (hfree : b.slot g.id slot = none)
    (hout : HitBoxType.output ∈ hitBoxTypes y.type) (hne : g.ptr ≠ y.ptr) :
    { a with scene := a.scene.connect ⟨g.ptr, slot⟩ ⟨y.ptr, .output⟩ }.WellFormed ∧
      ∀ id t z, { a with scene := a.scene.connect ⟨g.ptr, slot⟩ ⟨y.ptr, .output⟩ }.Wired id t z ↔
        (b.put g.id slot y.id).slot id t = some z := by
  have ha := hr.wellFormed
  obtain ⟨hi, hbi, hw⟩ := hr.free_slot hg hslot hfree
  obtain ⟨ho, hbo⟩ := (ha.alive_iff hy .output).mpr hout
  have hii : (⟨g.ptr, slot⟩ : HitBoxPtr).isInput = true := by simp [HitBoxPtr.isInput, hin]
  have hclick : Scene.Clicked ⟨g.ptr, slot⟩ a.scene
      (a.scene.connect ⟨g.ptr, slot⟩ ⟨y.ptr, .output⟩).reset :=
    .connect hii rfl hne hbi hw hbo
  have hwf : { a with scene := a.scene.connect ⟨g.ptr, slot⟩ ⟨y.ptr, .output⟩ }.WellFormed :=
    (ha.clicked hclick).pending ha.input ha.output
  refine ⟨hwf, fun id t z => ?_⟩
  have hfeeds : ∀ x' g' : Gate,
      { a with scene := a.scene.connect ⟨g.ptr, slot⟩ ⟨y.ptr, .output⟩ }.Feeds x' g' t ↔
        (if (⟨g'.ptr, t⟩ : HitBoxPtr) = ⟨g.ptr, slot⟩ then some y.ptr
          else a.scene.source ⟨g'.ptr, t⟩) = some x'.ptr := by
    intro x' g'
    rw [← hwf.source_eq_some, Scene.connect_source ha.consistent hii rfl hne hbi hw hbo]
  simp only [Board.put]
  by_cases hc : id = g.id ∧ t = slot
  · obtain ⟨rfl, rfl⟩ := hc
    rw [if_pos ⟨rfl, rfl⟩, Option.some.injEq]
    constructor
    · rintro ⟨g', hg', x', hx', hid, rfl, hf⟩
      rw [hr.distinct g' hg' g hg hid] at hf
      have hptr : y.ptr = x'.ptr := by simpa using (hfeeds x' g).mp hf
      rw [KeySet.eq_of_key hy hx' hptr]
    · rintro rfl
      exact ⟨g, hg, y, hy, rfl, rfl, (hfeeds y g).mpr (if_pos rfl)⟩
  · rw [if_neg hc, ← hr.slots]
    have hother : ∀ g' ∈ a.m_gates.elems, g'.id = id →
        (⟨g'.ptr, t⟩ : HitBoxPtr) ≠ ⟨g.ptr, slot⟩ := by
      intro g' hg' hid he
      obtain ⟨hptr, ht⟩ := HitBoxPtr.mk.inj he
      rw [KeySet.eq_of_key hg' hg hptr] at hid
      exact hc ⟨hid.symm, ht⟩
    constructor
    · rintro ⟨g', hg', x', hx', hid, hid', hf⟩
      rw [hfeeds, if_neg (hother g' hg' hid), ha.source_eq_some] at hf
      exact ⟨g', hg', x', hx', hid, hid', hf⟩
    · rintro ⟨g', hg', x', hx', hid, hid', hf⟩
      refine ⟨g', hg', x', hx', hid, hid', ?_⟩
      rw [hfeeds, if_neg (hother g' hg' hid), ha.source_eq_some]
      exact hf

/-- The number of inputs of a gate. -/
def capacity (type : CommonGateType) : Nat := (hitBoxTypes type).countP (· ≠ .output)

/-- While a gate has fewer connections than inputs, the loader clicks a free input. -/
theorem pick_free {b : Board} {id : Id} {type : CommonGateType} (h : b.used id < capacity type) :
    b.pick id ∈ hitBoxTypes type ∧ b.slot id (b.pick id) = none ∧ b.pick id ≠ .output := by
  unfold Board.used at h
  unfold Board.pick
  cases h1 : b.slot id .input1 with
  | none =>
    refine ⟨?_, by simpa using h1, by simp⟩
    cases type <;> simp_all [capacity, hitBoxTypes]
  | some x =>
    rw [h1] at h
    cases h2 : b.slot id .input2 with
    | none =>
      refine ⟨?_, by simpa using h2, by simp⟩
      cases type <;> simp_all [capacity, hitBoxTypes]
    | some y =>
      rw [h2] at h
      cases type <;> simp_all [capacity, hitBoxTypes]

/-- **One pair.**  The two clicks do to the scheme what `Board.replay` says. -/
theorem Represents.replay {a : Area} {b : Board} (hr : a.Represents b) {g x : Gate}
    (hg : g ∈ a.m_gates.elems) (hx : x ∈ a.m_gates.elems) (hne : g.ptr ≠ x.ptr)
    (hout : HitBoxType.output ∈ hitBoxTypes x.type) (hcap : b.used g.id < capacity g.type) :
    ∃ a', a.connectPair (g.id, x.id) = .ok a' ∧ a'.Represents (b.replay (g.id, x.id)) ∧
      a'.m_gates = a.m_gates := by
  have ha := hr.wellFormed
  obtain ⟨hslot, hfree, hin⟩ := pick_free hcap
  obtain ⟨hi, hbi, hw⟩ := hr.free_slot hg hslot hfree
  obtain ⟨ho, hbo⟩ := (ha.alive_iff hx .output).mpr hout
  have hii : (⟨g.ptr, b.pick g.id⟩ : HitBoxPtr).isInput = true := by simp [HitBoxPtr.isInput, hin]
  have hown : ∀ box, some (⟨x.ptr, .output⟩ : HitBoxPtr) = some box → box.owner < a.nextGate := by
    rintro box ⟨rfl⟩
    exact ha.allocated x hx
  rw [hr.connectPair_eq hg hx hslot hout]
  have hhold := hr.holding
  cases hh : b.handler with
  | idle =>
    rw [hh] at hhold
    obtain ⟨hwf, hslots⟩ := hr.connect hg hx hslot hin hfree hout hne
    rw [Scene.clickPair_idle hbi hbo hw hii rfl hhold.1 hhold.2 hne]
    have hb : b.replay (g.id, x.id) = { b.put g.id (b.pick g.id) x.id with handler := .idle } := by
      simp only [Board.replay, hh, Board.put]
    rw [hb]
    exact ⟨_, rfl, ⟨⟨hwf.pending (by simp) (by simp), hr.distinct, hslots⟩, rfl, rfl⟩, rfl⟩
  | staleInput =>
    rw [hh] at hhold
    rw [Scene.clickPair_stale hbi hbo hw hii rfl hhold]
    have hb : b.replay (g.id, x.id) = { b with handler := .output x.id } := by
      simp only [Board.replay, hh]
    rw [hb]
    exact ⟨_, rfl, ⟨⟨ha.pending (by simp) hown, hr.distinct, hr.slots⟩, rfl, x, hx, rfl, hout, rfl⟩,
      rfl⟩
  | output z =>
    rw [hh] at hhold
    obtain ⟨hin', y, hy, rfl, houty, hout'⟩ := hhold
    obtain ⟨hy', hby⟩ := (ha.alive_iff hy .output).mpr houty
    rw [Scene.clickPair_shift hbi hbo hw hii rfl hin' hout' hby rfl]
    refine ⟨_, rfl, ?_, rfl⟩
    by_cases hsame : g.ptr = y.ptr
    · have hgy : y.id = g.id := by rw [KeySet.eq_of_key hg hy hsame]
      have hb : b.replay (g.id, x.id) = { b with handler := .output x.id } := by
        simp only [Board.replay, hh, if_pos hgy]
      rw [hb, if_pos hsame]
      exact ⟨⟨ha.pending (by simp) hown, hr.distinct, hr.slots⟩, rfl, x, hx, rfl, hout, rfl⟩
    · have hgy : y.id ≠ g.id := fun h => hsame (by rw [hr.distinct y hy g hg h])
      have hb : b.replay (g.id, x.id) =
          { b.put g.id (b.pick g.id) y.id with handler := .output x.id } := by
        simp only [Board.replay, hh, if_neg hgy]
      obtain ⟨hwf, hslots⟩ := hr.connect hg hy hslot hin hfree houty hsame
      rw [hb, if_neg hsame]
      exact ⟨⟨hwf.pending (by simp) hown, hr.distinct, hslots⟩, rfl, x, hx, rfl, hout, rfl⟩

/-! ## All of them -/

/-- The pair names two gates of the scheme that can be connected. -/
def Joins (a : Area) (pair : Id × Id) : Prop :=
  ∃ g ∈ a.m_gates.elems, ∃ x ∈ a.m_gates.elems, pair = (g.id, x.id) ∧ g.ptr ≠ x.ptr ∧
    HitBoxType.output ∈ hitBoxTypes x.type

/-- **The replay.**  As long as no gate has more pairs than inputs, the loader
does what `Board.replay` says. -/
theorem Represents.replay_all {a : Area} {b : Board} (hr : a.Represents b)
    {pairs : List (Id × Id)} (hjoins : ∀ pair ∈ pairs, a.Joins pair)
    (hcap : ∀ g ∈ a.m_gates.elems,
      b.used g.id + (Board.reads g.id pairs).length ≤ capacity g.type) :
    ∃ a', pairs.foldlM connectPair a = .ok a' ∧ a'.Represents (pairs.foldl Board.replay b) ∧
      a'.m_gates = a.m_gates := by
  induction pairs generalizing a b with
  | nil => exact ⟨a, rfl, hr, rfl⟩
  | cons pair pairs ih =>
    obtain ⟨⟨g, hg, x, hx, rfl, hne, hout⟩, hrest⟩ := List.forall_mem_cons.mp hjoins
    have hlt : b.used g.id < capacity g.type := by
      have h := hcap g hg
      rw [Board.reads_cons, if_pos rfl, List.length_cons] at h
      omega
    obtain ⟨a₁, h₁, hr₁, hm₁⟩ := hr.replay hg hx hne hout hlt
    obtain ⟨a', h', hr', hm'⟩ := ih hr₁ (fun p hp => by
      simpa only [Joins, hm₁] using hrest p hp) (fun g' hg' => by
      have h := hcap g' (hm₁ ▸ hg')
      have hstep := b.used_replay_step (g.id, x.id) g'.id
      rw [Board.reads_cons] at h
      split at hstep
      · next he => rw [if_pos he, List.length_cons] at h; omega
      · next he => rw [if_neg he] at h; omega)
    exact ⟨a', by rw [List.foldlM_cons, h₁]; exact h', hr', hm'.trans hm₁⟩

end Area

end SimGate

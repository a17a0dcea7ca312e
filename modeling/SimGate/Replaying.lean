import SimGate.ReplayRefinement

/-!
# The replay of any pairs

A file may record any pairs of ids.  `connected` says what the replay of a pair
is to do to the wires; `turn` says when the loader does it, and what the click
handler holds afterwards.

* `WellFormed.connectPair_eq`: the replay of one pair, null pointers included;
* `turn_spec`, `turn_none`: one turn goes as it should exactly when `turn` says so;
* `replay_iff`: hence the exact condition for the replay of a file.
-/

namespace SimGate

/-- The gate that each input is wired to. -/
abbrev Sources := HitBoxPtr → Option GatePtr

/-- The first input of a gate that is free. -/
def Gate.freeInput (sources : Sources) (g : Gate) : Option HitBoxType :=
  if .input1 ∈ hitBoxTypes g.type ∧ sources ⟨g.ptr, .input1⟩ = none then some .input1
  else if .input2 ∈ hitBoxTypes g.type ∧ sources ⟨g.ptr, .input2⟩ = none then some .input2
  else none

/-- What the replay of a pair is to do: connect two gates that have the hitboxes
for it, else nothing. -/
def connected (getGate : Id → Option Gate) (sources : Sources) (pair : Id × Id) : Sources :=
  match getGate pair.1, getGate pair.2 with
  | some g, some x =>
    match g.freeInput sources with
    | some slot =>
      if g.ptr ≠ x.ptr ∧ .output ∈ hitBoxTypes x.type then
        Function.update sources ⟨g.ptr, slot⟩ (some x.ptr)
      else sources
    | none => sources
  | _, _ => sources

/-- What the click handler holds between two pairs: nothing, an input, the output
of a gate, or an output that is gone. -/
inductive Held
  | nothing | input
  | output (owner : GatePtr)
  | gone
  deriving DecidableEq, Repr

/-- What the handler holds when a click on a free input of `g` and one on the output
of `x` do what they are to do. -/
def Held.next (g x : GatePtr) : Held → Option Held
  | .nothing => some .nothing
  | .input => if g = x then some (.output x) else none
  | .output y => if y = x then some (.output x) else none
  | .gone => none

/-- What it holds after a pair that is replayed as it should be. -/
def turn (getGate : Id → Option Gate) (sources : Sources) (held : Held) (pair : Id × Id) :
    Option Held :=
  match getGate pair.1 with
  | none => none
  | some g =>
    -- the one input of the gate is taken: the loader does not click
    if sources ⟨g.ptr, .input1⟩ ≠ none ∧ .input2 ∉ hitBoxTypes g.type then some held
    else
      match getGate pair.2 with
      | none => none
      | some x =>
        if .output ∉ hitBoxTypes x.type then none
        else
          match g.freeInput sources with
          | some _ => held.next g.ptr x.ptr
          -- both inputs are taken: the second click leaves its output behind
          | none => if .input2 ∈ hitBoxTypes g.type then some (.output x.ptr) else none

/-- Every pair is replayed as it should be. -/
def Replayable (getGate : Id → Option Gate) : Sources → Held → List (Id × Id) → Prop
  | _, _, [] => True
  | sources, held, pair :: pairs =>
    ∃ held', turn getGate sources held pair = some held' ∧
      Replayable getGate (connected getGate sources pair) held' pairs

theorem Gate.Shaped.getHitBox_eq {g : Gate} (hg : g.Shaped) (slot : HitBoxType) :
    g.getHitBox slot = if slot ∈ hitBoxTypes g.type then some ⟨g.ptr, slot⟩ else none := by
  split
  · next h => exact hg.getHitBox h
  · next h =>
    obtain ⟨ht, _, _, _⟩ := hg
    cases htype : g.type <;> cases slot <;> simp_all [hitBoxTypes, Gate.getHitBox]

namespace Area

/-! ## One pair -/

theorem WellFormed.emitReleased_eq {a : Area} (ha : a.WellFormed) {g : Gate}
    (hg : g ∈ a.m_gates.elems) (slot : HitBoxType) (id : Id) :
    a.emitReleased g slot id =
      match a.getGate id with
      | none => .error .nullPointer
      | some x =>
        if slot ∈ hitBoxTypes g.type ∧ .output ∈ hitBoxTypes x.type then
          a.scene.clickPair ⟨g.ptr, slot⟩ ⟨x.ptr, .output⟩ >>= fun scene =>
            .ok { a with scene := scene }
        else .error .nullPointer := by
  rw [emitReleased]
  cases hx : a.getGate id with
  | none => rfl
  | some x =>
    simp only [(ha.shaped g hg).getHitBox_eq, (ha.shaped x (mem_of_getGate hx)).getHitBox_eq]
    by_cases hslot : slot ∈ hitBoxTypes g.type
    · by_cases hout : .output ∈ hitBoxTypes x.type
      · simp only [hslot, hout, if_true, and_self, Scene.clickPair, bind_assoc]
      · simp only [hslot, hout, if_true, if_false, and_false]
    · simp only [hslot, if_false, false_and]

/-- **One pair**, null pointers included. -/
theorem WellFormed.connectPair_eq {a : Area} (ha : a.WellFormed) (pair : Id × Id) :
    a.connectPair pair =
      match a.getGate pair.1 with
      | none => .error .nullPointer
      | some g =>
        if a.scene.source ⟨g.ptr, .input1⟩ = none then a.emitReleased g .input1 pair.2
        else if .input2 ∈ hitBoxTypes g.type then a.emitReleased g .input2 pair.2
        else .ok a := by
  rw [connectPair]
  cases hg : a.getGate pair.1 with
  | none => rfl
  | some g =>
    have hmem := mem_of_getGate hg
    simp only [ha.getInput_first hmem, bind, Except.bind]
    cases hs : a.scene.source ⟨g.ptr, .input1⟩ with
    | none => rfl
    | some q =>
      have hin : .input1 ∈ hitBoxTypes g.type := by
        by_contra hmiss
        rw [ha.source_of_missing hmem hmiss] at hs
        cases hs
      have htwo : (g.type ≠ .output ∧ g.type ≠ .not) ↔ .input2 ∈ hitBoxTypes g.type := by
        cases htype : g.type <;> simp_all [hitBoxTypes]
      simp only [htwo, reduceCtorEq, if_false]

end Area

/-! ## Two clicks -/

/-- What clicking an input and then the output of a gate does; `none` is a fault. -/
def clickTwice (sources : Sources) (held : Held) (i : HitBoxPtr) (x : GatePtr) :
    Option (Sources × Held) :=
  if sources i ≠ none then some (sources, .output x)
  else
    match held with
    | .nothing =>
      some (if i.owner = x then sources else Function.update sources i (some x), .nothing)
    | .input => some (sources, .output x)
    | .output y =>
      some (if i.owner = y then sources else Function.update sources i (some y), .output x)
    | .gone => none

namespace Scene

def Holds (s : Scene) : Held → Prop
  | .nothing => s.input = none ∧ s.output = none
  | .input => s.input.isSome
  | .output y => s.input = none ∧ s.output = some ⟨y, .output⟩ ∧
      ∃ h, s.hitbox ⟨y, .output⟩ = some h
  | .gone => s.input = none ∧ ∃ box, s.output = some box ∧ s.hitbox box = none

theorem holds_output {s : Scene} {x : GatePtr} {ho : GateHitBox}
    (hbo : s.hitbox ⟨x, .output⟩ = some ho) :
    { s with input := none, output := some ⟨x, .output⟩ }.Holds (.output x) := ⟨rfl, rfl, ho, hbo⟩

theorem source_connect {s : Scene} (hs : s.Consistent) {i : HitBoxPtr} {hi : GateHitBox}
    (hbi : s.hitbox i = some hi) (hii : i.isInput = true) (hw : hi.wire = none) {y : GatePtr}
    {hy : GateHitBox} (hby : s.hitbox ⟨y, .output⟩ = some hy) (hne : i.owner ≠ y) :
    (s.connect i ⟨y, .output⟩).source = Function.update s.source i (some y) := by
  funext box
  rw [connect_source hs hii rfl hne hbi hw hby, Function.update_apply]

section

variable {s : Scene} {i : HitBoxPtr} {x : GatePtr} {hi ho : GateHitBox}
  (hbi : s.hitbox i = some hi) (hbo : s.hitbox ⟨x, .output⟩ = some ho) (hii : i.isInput = true)

include hbi hbo hii

/-- A click on an input that is taken drops what was pending. -/
theorem clickPair_taken {p : WirePtr} (hw : hi.wire = some p) :
    s.clickPair i ⟨x, .output⟩ =
      .ok { s with input := none, output := some ⟨x, .output⟩ } := by
  rw [clickPair, released_taken hbi hii hw]
  exact released_output_first (s := s.reset) hbo rfl rfl rfl

/-- Two hitboxes of one gate are not connected. -/
theorem clickPair_same (hw : hi.wire = none) (hin : s.input = none) (hout : s.output = none)
    (hsame : i.owner = x) : s.clickPair i ⟨x, .output⟩ = .ok s.reset := by
  have h1 : s.released i = .ok { s with input := some i } := by
    rw [released_input hbi hii hw, hin]
    exact hitBoxConnectRef_none (s := { s with input := some i }) (Or.inr hout)
  have h2 : { s with input := some i }.released ⟨x, .output⟩ = .ok s.reset := by
    rw [released_output (s := { s with input := some i }) hbo rfl, hout]
    have h := hitBoxConnectRef_eq (s := { s with input := some i, output := some ⟨x, .output⟩ })
      rfl rfl hii rfl hbi hbo
    rw [if_pos hsame] at h
    exact h
  rw [clickPair, h1]
  exact h2

/-- **Two clicks.** -/
theorem clickPair_spec (hs : s.Consistent) {held : Held} (hh : s.Holds held) :
    match clickTwice s.source held i x with
    | none => s.clickPair i ⟨x, .output⟩ = .error .dangling
    | some r => ∃ s', s.clickPair i ⟨x, .output⟩ = .ok s' ∧ s'.source = r.1 ∧ s'.Holds r.2 := by
  unfold clickTwice
  cases hw : hi.wire with
  | some p =>
    obtain ⟨w, hp, _⟩ := hs.ofWire i hi p hbi hw
    have htaken : s.source i ≠ none := by simp [source, hbi, hw, hp]
    rw [if_pos htaken]
    exact ⟨_, clickPair_taken hbi hbo hii hw, rfl, holds_output hbo⟩
  | none =>
    have hfree : ¬ s.source i ≠ none := by simp [source, hbi, hw]
    rw [if_neg hfree]
    cases held with
    | nothing =>
      by_cases hsame : i.owner = x
      · rw [if_pos hsame]
        exact ⟨_, clickPair_same hbi hbo hii hw hh.1 hh.2 hsame, rfl, rfl, rfl⟩
      · rw [if_neg hsame]
        exact ⟨_, clickPair_idle hbi hbo hw hii rfl hh.1 hh.2 hsame,
          source_connect hs hbi hii hw hbo hsame, rfl, rfl⟩
    | input => exact ⟨_, clickPair_stale hbi hbo hw hii rfl hh, rfl, holds_output hbo⟩
    | output y =>
      obtain ⟨hin, hout, hy, hby⟩ := hh
      refine ⟨_, clickPair_shift hbi hbo hw hii rfl hin hout hby rfl, ?_, rfl, rfl, ?_⟩
      · by_cases hsame : i.owner = y
        · rw [if_pos hsame, if_pos hsame]
          rfl
        · rw [if_neg hsame, if_neg hsame]
          exact source_connect hs hbi hii hw hby hsame
      · split
        · exact ⟨ho, hbo⟩
        · show ∃ h, (s.connect i ⟨y, .output⟩).hitbox ⟨x, .output⟩ = some h
          rw [connect_hitbox, hbo]
          exact ⟨_, rfl⟩
    | gone =>
      obtain ⟨hin, box, hout, hgone⟩ := hh
      exact clickPair_dangling hbi hw hii hin hout hgone

end

end Scene

/-! ## One turn -/

/-- `emitReleased` as far as the wires and the click handler go; `none` is a fault. -/
def emitPair (getGate : Id → Option Gate) (sources : Sources) (held : Held) (g : Gate)
    (slot : HitBoxType) (id : Id) : Option (Sources × Held) :=
  match getGate id with
  | none => none
  | some x =>
    if slot ∈ hitBoxTypes g.type ∧ .output ∈ hitBoxTypes x.type then
      clickTwice sources held ⟨g.ptr, slot⟩ x.ptr
    else none

/-- `connectPair` in the same way. -/
def replayPair (getGate : Id → Option Gate) (sources : Sources) (held : Held) (pair : Id × Id) :
    Option (Sources × Held) :=
  match getGate pair.1 with
  | none => none
  | some g =>
    if sources ⟨g.ptr, .input1⟩ = none then emitPair getGate sources held g .input1 pair.2
    else if .input2 ∈ hitBoxTypes g.type then emitPair getGate sources held g .input2 pair.2
    else some (sources, held)

namespace Area

/-- The result has these wires and this click handler, or is a fault. -/
def Yields (result : Except Fault Area) : Option (Sources × Held) → Prop
  | none => ∀ a', result ≠ .ok a'
  | some r => ∃ a', result = .ok a' ∧ a'.scene.source = r.1 ∧ a'.scene.Holds r.2

variable {a : Area} (ha : a.WellFormed) {held : Held} (hh : a.scene.Holds held)

include ha hh

theorem emitPair_spec {g : Gate} (hg : g ∈ a.m_gates.elems) {slot : HitBoxType}
    (hin : slot ≠ .output) (id : Id) :
    Yields (a.emitReleased g slot id) (emitPair a.getGate a.scene.source held g slot id) := by
  rw [ha.emitReleased_eq hg, emitPair]
  cases hx : a.getGate id with
  | none => rintro a' ⟨⟩
  | some x =>
    by_cases hboxes : slot ∈ hitBoxTypes g.type ∧ .output ∈ hitBoxTypes x.type
    · simp only [if_pos hboxes]
      obtain ⟨hi, hbi⟩ := (ha.alive_iff hg slot).mpr hboxes.1
      obtain ⟨ho, hbo⟩ := (ha.alive_iff (mem_of_getGate hx) .output).mpr hboxes.2
      have h := Scene.clickPair_spec hbi hbo (by simp [HitBoxPtr.isInput, hin]) ha.consistent hh
      cases hc : clickTwice a.scene.source held ⟨g.ptr, slot⟩ x.ptr with
      | none =>
        rw [hc] at h
        rw [h]
        rintro a' ⟨⟩
      | some r =>
        rw [hc] at h
        obtain ⟨s', hs', hsource, hholds⟩ := h
        rw [hs']
        exact ⟨_, rfl, hsource, hholds⟩
    · simp only [if_neg hboxes]
      rintro a' ⟨⟩

/-- **One turn of the loader.** -/
theorem replayPair_spec (pair : Id × Id) :
    Yields (a.connectPair pair) (replayPair a.getGate a.scene.source held pair) := by
  rw [ha.connectPair_eq, replayPair]
  cases hg : a.getGate pair.1 with
  | none => rintro a' ⟨⟩
  | some g =>
    have hmem := mem_of_getGate hg
    simp only
    split
    · exact emitPair_spec ha hh hmem (by simp) pair.2
    · split
      · exact emitPair_spec ha hh hmem (by simp) pair.2
      · exact ⟨a, rfl, rfl, hh⟩

end Area

/-! ## When a turn goes as it should -/

theorem Held.next_iff {sources : Sources} {i : HitBoxPtr} (hfree : sources i = none)
    (held held' : Held) (x : GatePtr) :
    held.next i.owner x = some held' ↔
      clickTwice sources held i x =
        some (if i.owner ≠ x then Function.update sources i (some x) else sources, held') := by
  have hne : ∀ y, Function.update sources i (some y) ≠ sources := by
    intro y h
    have hi := congrFun h i
    rw [Function.update_self, hfree] at hi
    cases hi
  have hupdate : ∀ y z, Function.update sources i (some y) = Function.update sources i (some z) →
      y = z := by
    intro y z h
    have hi := congrFun h i
    rw [Function.update_self, Function.update_self] at hi
    exact Option.some.inj hi
  unfold clickTwice
  rw [if_neg (not_not.mpr hfree)]
  cases held with
  | nothing => by_cases h : i.owner = x <;> simp [Held.next, h]
  | input =>
    by_cases h : i.owner = x
    · simp [Held.next, h]
    · simp [Held.next, h, (hne x).symm]
  | output y =>
    by_cases hyx : y = x
    · by_cases h : i.owner = x <;> simp [Held.next, hyx, h]
    · have hwrong : (if i.owner = y then sources else Function.update sources i (some y)) ≠
          if i.owner ≠ x then Function.update sources i (some x) else sources := by
        by_cases hiy : i.owner = y
        · have hix : i.owner ≠ x := fun h => hyx (hiy.symm.trans h)
          rw [if_pos hiy, if_pos hix]
          exact (hne x).symm
        · rw [if_neg hiy]
          split
          · exact fun h => hyx (hupdate y x h)
          · exact hne y
      refine iff_of_false (by simp [Held.next, hyx]) fun h => hwrong ?_
      exact (Prod.mk.inj (Option.some.inj h)).1
  | gone => simp [Held.next]

/-- **Exactness of `turn`.** -/
theorem turn_iff {getGate : Id → Option Gate} {sources : Sources} {held held' : Held}
    {pair : Id × Id} :
    turn getGate sources held pair = some held' ↔
      replayPair getGate sources held pair = some (connected getGate sources pair, held') := by
  rw [turn, replayPair, connected]
  cases hg : getGate pair.1 with
  | none => simp
  | some g =>
    have hone : .input2 ∈ hitBoxTypes g.type → .input1 ∈ hitBoxTypes g.type := by
      cases g.type <;> decide
    cases hx : getGate pair.2 with
    | none =>
      by_cases h1 : sources ⟨g.ptr, .input1⟩ = none <;>
        by_cases h2 : .input2 ∈ hitBoxTypes g.type <;> simp [emitPair, hx, h1, h2]
    | some x =>
      by_cases hout : .output ∈ hitBoxTypes x.type
      · by_cases h1 : sources ⟨g.ptr, .input1⟩ = none
        · by_cases hin : .input1 ∈ hitBoxTypes g.type
          · have hslot : g.freeInput sources = some .input1 := if_pos ⟨hin, h1⟩
            have hnext := Held.next_iff h1 held held' x.ptr
            simpa [emitPair, hx, hout, h1, hin, hslot] using hnext
          · have htwo : .input2 ∉ hitBoxTypes g.type := fun h => hin (hone h)
            have hslot : g.freeInput sources = none := by simp [Gate.freeInput, hin, htwo]
            simp [emitPair, hx, hout, h1, hin, htwo, hslot]
        · by_cases htwo : .input2 ∈ hitBoxTypes g.type
          · by_cases h2 : sources ⟨g.ptr, .input2⟩ = none
            · have hslot : g.freeInput sources = some .input2 := by
                simp [Gate.freeInput, h1, h2, htwo]
              have hnext := Held.next_iff h2 held held' x.ptr
              simpa [emitPair, hx, hout, h1, htwo, hslot] using hnext
            · have hslot : g.freeInput sources = none := by simp [Gate.freeInput, h1, h2]
              simp [emitPair, hx, hout, h1, h2, htwo, hslot, clickTwice]
          · have hslot : g.freeInput sources = none := by simp [Gate.freeInput, h1, htwo]
            simp [h1, htwo, hslot]
      · cases hslot : g.freeInput sources <;> by_cases h1 : sources ⟨g.ptr, .input1⟩ = none <;>
          by_cases htwo : .input2 ∈ hitBoxTypes g.type <;>
          simp [emitPair, hx, hout, h1, htwo, hslot]

/-! ## All of them -/

namespace Area

/-- After each of the pairs the wires are those that the pairs so far are to make. -/
def ReplaysAs (pairs : List (Id × Id)) (a : Area) : Prop :=
  ∀ pre, pre <+: pairs → ∃ b, pre.foldlM connectPair a = .ok b ∧
    b.scene.source = pre.foldl (connected a.getGate) a.scene.source

theorem replaysAs_cons {pair : Id × Id} {pairs : List (Id × Id)} {a : Area} :
    ReplaysAs (pair :: pairs) a ↔
      ∃ a', a.connectPair pair = .ok a' ∧
        a'.scene.source = connected a.getGate a.scene.source pair ∧ ReplaysAs pairs a' := by
  constructor
  · intro h
    obtain ⟨a', ha', hsource⟩ := h [pair] ⟨pairs, rfl⟩
    rw [List.foldlM_cons] at ha'
    obtain ⟨t, ht, ha'⟩ := Execution.bind_eq_ok ha'
    cases ha'
    have hgates : a'.getGate = a.getGate := getGate_congr (connectPair_gates ht)
    refine ⟨a', ht, hsource, fun pre hpre => ?_⟩
    obtain ⟨b, hb, hsource'⟩ := h (pair :: pre) ((List.prefix_cons_inj pair).mpr hpre)
    rw [List.foldlM_cons, ht] at hb
    refine ⟨b, hb, ?_⟩
    rw [hsource', hgates, hsource]
    rfl
  · rintro ⟨a', ht, hsource, h⟩ pre hpre
    have hgates : a'.getGate = a.getGate := getGate_congr (connectPair_gates ht)
    cases pre with
    | nil => exact ⟨a, rfl, rfl⟩
    | cons p pre =>
      obtain ⟨rfl, hrest⟩ := List.cons_prefix_cons.mp hpre
      obtain ⟨b, hb, hsource'⟩ := h pre hrest
      refine ⟨b, by rw [List.foldlM_cons, ht]; exact hb, ?_⟩
      rw [hsource', hgates, hsource]
      rfl

/-- **The replay.** -/
theorem replaysAs_iff {pairs : List (Id × Id)} {a : Area} (ha : a.Sound) {held : Held}
    (hh : a.scene.Holds held) :
    ReplaysAs pairs a ↔ Replayable a.getGate a.scene.source held pairs := by
  induction pairs generalizing a held with
  | nil =>
    refine iff_of_true (fun pre hpre => ?_) trivial
    rw [List.prefix_nil.mp hpre]
    exact ⟨a, rfl, rfl⟩
  | cons pair pairs ih =>
    have hspec := replayPair_spec ha.wellFormed hh pair
    rw [replaysAs_cons, Replayable]
    have hgates : ∀ {a'}, a.connectPair pair = .ok a' → a'.getGate = a.getGate := fun ht =>
      getGate_congr (connectPair_gates ht)
    constructor
    · rintro ⟨a', ht, hsource, hrest⟩
      cases hr : replayPair a.getGate a.scene.source held pair with
      | none =>
        rw [hr] at hspec
        exact absurd ht (hspec a')
      | some r =>
        rw [hr] at hspec
        obtain ⟨a'', ht', hsource', hholds⟩ := hspec
        rw [ht] at ht'
        cases ht'
        refine ⟨r.2, turn_iff.mpr ?_, ?_⟩
        · rw [hr, ← hsource, hsource']
        · rw [← hsource, ← hgates ht]
          exact (ih (ha.connectPair ht) hholds).mp hrest
    · rintro ⟨held', hturn, hrest⟩
      rw [turn_iff.mp hturn] at hspec
      obtain ⟨a', ht, hsource, hholds⟩ := hspec
      refine ⟨a', ht, hsource, (ih (ha.connectPair ht) hholds).mpr ?_⟩
      rw [hsource, hgates ht]
      exact hrest

/-- What the click handler holds once the scheme is cleared. -/
def heldCleared (s : Scene) : Held :=
  if s.input.isSome then .input else if s.output.isSome then .gone else .nothing

/-- The gates of a file do not have the hitboxes of earlier gates. -/
theorem Draws.gone {a c : Area} (hc : Draws a c) (hgates : a.m_gates = ∅) {box : HitBoxPtr}
    (hbox : box.owner < a.nextGate) : c.scene.hitbox box = none := by
  refine Option.eq_none_iff_forall_ne_some.mpr fun b hb => ?_
  obtain ⟨g, hg, hmem⟩ := (hc.wellFormed.alive box).mp ⟨b, hb⟩
  have howner := ((hc.wellFormed.shaped g hg).mem_hitboxes.mp hmem).1
  rcases hc.new g hg with hold | hnew
  · rw [hgates] at hold
    cases hold
  · rw [← howner] at hnew
    exact Nat.not_lt_of_le hnew hbox

theorem Draws.source {a c : Area} (ha : a.WellFormed) (hc : Draws a c) (hgates : a.m_gates = ∅) :
    c.scene.source = fun _ => none := by
  funext box
  refine hc.wellFormed.consistent.source_eq_none.mpr fun p w hwire => ?_
  rw [hc.wire, (ha.bare hgates).2] at hwire
  cases hwire

theorem Draws.holds {a c : Area} (ha : a.WellFormed) (hc : Draws a c) (hgates : a.m_gates = ∅) :
    c.scene.Holds (heldCleared a.scene) := by
  unfold heldCleared
  cases hi : a.scene.input with
  | some i =>
    show c.scene.input.isSome = true
    rw [hc.input, hi]
    rfl
  | none =>
    cases ho : a.scene.output with
    | none => exact ⟨hc.input.trans hi, hc.output.trans ho⟩
    | some box =>
      exact ⟨hc.input.trans hi, box, hc.output.trans ho, hc.gone hgates (ha.output box ho)⟩

/-- **The replay of a file.**  Decoding a file with an `END_FILE` ends with gates
and pairs for which the replay connects what it should and skips the rest, without
a fault, exactly when every pair is replayable. -/
theorem replay_iff {a₀ : Area} (ha₀ : a₀.Sound) {file : List Element} (hend : .endFile ∈ file)
    (hgen : { a₀ with m_gates := ∅ }.Supplied (file.count Element.endEntity)) (reader : Element) :
    ∃ d c, (∀ fuel, file.length ≤ fuel →
        a₀.clear >>= decodeLoop fuel file (.start reader) = .ok (d, c) ∧
        a₀.loadProject fuel (some file) reader = d.connVec.foldlM connectPair c) ∧
      (ReplaysAs d.connVec c ↔
        Replayable c.getGate (fun _ => none) (heldCleared a₀.scene) d.connVec) := by
  obtain ⟨s, hclear, hw, hi, ho, hp⟩ := ha₀.wellFormed.cleared
  have hsupplied : { a₀ with scene := s, m_gates := ∅ }.Supplied
      (file.count Element.endEntity) := hgen
  obtain ⟨c, hdraw⟩ := hsupplied.drawAll (Decoder.entities_length_le (.start reader) file)
  have hc := drawAll_draws hw hdraw
  have hsound : c.Sound :=
    Execution.foldlM_invariant (fun _ _ _ _ hs h => hs.draw h) ⟨hw, hp ha₀.pending⟩ hdraw
  refine ⟨(Decoder.start reader).readAll file, c, fun fuel hfuel => ?_, ?_⟩
  · have hdec := decodeLoop_eq hend hfuel (.start reader) { a₀ with scene := s, m_gates := ∅ }
    rw [hdraw] at hdec
    refine ⟨by rw [hclear]; exact hdec, ?_⟩
    rw [loadProject, hclear]
    simp only [bind, Except.bind, hdec]
  · have hholds := hc.holds hw rfl
    rw [show heldCleared s = heldCleared a₀.scene by rw [heldCleared, heldCleared, hi, ho]]
      at hholds
    rw [← hc.source hw rfl]
    exact replaysAs_iff hsound hholds

/-- An input state, and an AND gate that reads it twice and then itself. -/
def overfullFile : List Element :=
  [.gateType 6, .gateId 5, .endEntity, .gateType 0, .gateId 6, .input 5, .input 5, .input 6,
    .endEntity, .endFile]

theorem replay_iff_overfullFile :
    ∃ a₀ d c, create [7, 8, 9] = .ok a₀ ∧
      (∀ fuel, 10 ≤ fuel →
        a₀.clear >>= decodeLoop fuel overfullFile (.start .other) = .ok (d, c) ∧
        a₀.loadProject fuel (some overfullFile) .other = d.connVec.foldlM connectPair c) ∧
      d.connVec = [(6, 5), (6, 5), (6, 6)] ∧ ReplaysAs d.connVec c := by
  obtain ⟨a₀, d₀, c₀, hrun, hgen, hdec₀, hconn, hheld, hreplay⟩ : ∃ a₀ d₀ c₀,
      create [7, 8, 9] >>= Execution.runs step [] = .ok a₀ ∧ a₀.gen = [8, 9] ∧
      a₀.clear >>= decodeLoop 10 overfullFile (.start .other) = .ok (d₀, c₀) ∧
      d₀.connVec = [(6, 5), (6, 5), (6, 6)] ∧ heldCleared a₀.scene = .nothing ∧
      Replayable c₀.getGate (fun _ => none) .nothing d₀.connVec :=
    ⟨_, _, _, rfl, rfl, rfl, rfl, rfl, _, rfl, _, rfl, _, rfl, trivial⟩
  have hend : .endFile ∈ overfullFile := by decide
  obtain ⟨d, c, hload, hiff⟩ := replay_iff (runs_sound hrun) hend
    ⟨[8, 9], by decide, by decide, by simp [hgen, gNotValidGateId]⟩ .other
  obtain ⟨hdec, _⟩ := hload 10 (by decide)
  rw [hdec₀] at hdec
  cases hdec
  rw [hheld] at hiff
  exact ⟨a₀, _, _, hrun, hload, hconn, hiff.mpr hreplay⟩

/-- **A null pointer.**  The one gate of the file reads a gate that is not in it. -/
theorem missingGate_null :
    ∃ a₀, create [7] = .ok a₀ ∧
      a₀.loadProject 5 (some [.gateId 5, .gateType 8, .input 6, .endEntity, .endFile]) .other =
        .error .nullPointer := ⟨_, rfl, rfl⟩

end Area

end SimGate

import SimGate.ReplayRefinement

/-!
# The ids of the gates

A gate drawn from the toolbar gets an id that no gate has; the loader takes the
ids of a file as they are.

* `drawAll_distinctIds`: the gates of a file get distinct ids exactly when none
  is given an id that is taken;
* `runs_identified_iff`: the exact condition on the loads of a run under which
  ids identify the gates in every area of it.
-/

namespace SimGate

/-! ## Ids that are taken -/

/-- The next value of the generator that is an id and not taken. -/
def nextId (taken : List Id) : List Id → Option (Id × List Id)
  | [] => none
  | tmpId :: gen =>
    if tmpId = gNotValidGateId ∨ tmpId ∈ taken then nextId taken gen else some (tmpId, gen)

/-- The id that an entity gets: its own, or a new one in place of 0. -/
def Entity.given (e : Entity) (taken gen : List Id) : Option (Id × List Id) :=
  if e.id = gNotValidGateId then nextId taken gen else some (e.id, gen)

/-- No entity with a valid type gets an id that is taken. -/
def Unrepeated : List Entity → List Id → List Id → Prop
  | [], _, _ => True
  | e :: l, taken, gen =>
    match e.given taken gen with
    | none => True
    | some (id, gen) =>
      if e.type = .enumSize then Unrepeated l taken gen
      else id ∉ taken ∧ Unrepeated l (id :: taken) gen

namespace Area

/-- The ids of the gates of the scheme. -/
def Taken (a : Area) (taken : List Id) : Prop :=
  ∀ id, id ∈ taken ↔ ∃ g ∈ a.m_gates.elems, g.id = id

theorem taken_nil {a : Area} (h : a.m_gates = ∅) : a.Taken [] := by
  intro id
  rw [h]
  simp

theorem generateId_eq {a : Area} {taken : List Id} (ht : a.Taken taken) (gen : List Id) :
    generateId a.m_gates.elems gen =
      match nextId taken gen with
      | none => .error .idLoop
      | some r => .ok r := by
  induction gen with
  | nil => rfl
  | cons tmpId gen ih =>
    rw [generateId, nextId]
    simp only [ht tmpId]
    split
    · exact ih
    · rfl

theorem drawEntity_given {a : Area} {taken : List Id} (ht : a.Taken taken) {e : Entity}
    {a' : Area} (h : a.drawEntity e = .ok a') :
    ∃ id gen, e.given taken a.gen = some (id, gen) ∧ id ≠ gNotValidGateId ∧
      a' = if e.type = .enumSize then { a with gen := gen }.skipped
        else { a with gen := gen }.drawn e.type id e.x e.y := by
  unfold Area.drawEntity at h
  by_cases hid : e.id = gNotValidGateId
  · rw [hid] at h
    cases hn : nextId taken a.gen with
    | none =>
      have hgen := generateId_eq ht a.gen
      rw [hn] at hgen
      simp [draw, newGate, hgen, bind, Except.bind] at h
    | some r =>
      obtain ⟨id, gen⟩ := r
      have hgen := generateId_eq ht a.gen
      rw [hn] at hgen
      have h0 := (generateId_ok hgen).1
      rw [draw_generated _ _ hgen, draw_eq h0] at h
      exact ⟨id, gen, (if_pos hid).trans hn, h0, (Except.ok.inj h).symm⟩
  · rw [draw_eq hid] at h
    exact ⟨e.id, a.gen, if_neg hid, hid, (Except.ok.inj h).symm⟩

theorem Taken.drawn {a : Area} (ha : a.WellFormed) {taken : List Id} (ht : a.Taken taken)
    (type : CommonGateType) (id : Id) (x y : Qreal) :
    (a.drawn type id x y).Taken (id :: taken) := by
  have hid : (Gate.drawn a.nextGate type id x y).id = id := by rw [Gate.drawn_eq]
  intro v
  simp only [List.mem_cons, ht v, ha.mem_drawn]
  constructor
  · rintro (rfl | ⟨g, hg, hv⟩)
    · exact ⟨_, Or.inr rfl, hid⟩
    · exact ⟨g, Or.inl hg, hv⟩
  · rintro ⟨g, hg | rfl, hv⟩
    · exact Or.inr ⟨g, hg, hv⟩
    · exact Or.inl (hv.symm.trans hid)

/-- A gate with an id that is taken makes the ids ambiguous. -/
theorem drawn_distinctIds_iff {a : Area} (ha : a.WellFormed) (hd : a.DistinctIds)
    {taken : List Id} (ht : a.Taken taken) {type : CommonGateType} {id : Id} {x y : Qreal} :
    (a.drawn type id x y).DistinctIds ↔ id ∉ taken := by
  constructor
  · intro hd' hmem
    obtain ⟨g, hg, rfl⟩ := (ht id).mp hmem
    have hsame := hd' g (ha.mem_drawn.mpr (Or.inl hg)) _ (ha.mem_drawn.mpr (Or.inr rfl))
      (by rw [Gate.drawn_eq])
    have hptr : g.ptr = a.nextGate := by rw [hsame, Gate.drawn_eq]; rfl
    exact Nat.lt_irrefl _ (hptr ▸ ha.allocated g hg)
  · exact fun hn => hd.drawn ha fun g hg he => hn ((ht id).mpr ⟨g, hg, he⟩)

/-- **The entities of a file.**  They end with distinct ids exactly when none of
them gets an id that is taken. -/
theorem drawAll_distinctIds {l : List Entity} {a c : Area} {taken : List Id} (ha : a.WellFormed)
    (hd : a.DistinctIds) (ht : a.Taken taken) (h : l.foldlM drawEntity a = .ok c) :
    c.DistinctIds ↔ Unrepeated l taken a.gen := by
  induction l generalizing a taken with
  | nil =>
    cases h
    exact iff_of_true hd trivial
  | cons e l ih =>
    obtain ⟨a', hdraw, h⟩ := Execution.bind_eq_ok h
    obtain ⟨id, gen, hgiven, h0, rfl⟩ := drawEntity_given ht hdraw
    have hw := ha.gen gen
    simp only [Unrepeated, hgiven]
    by_cases htype : e.type = .enumSize
    · rw [if_pos htype] at h ⊢
      exact ih hw.skipped hd ht h
    · rw [if_neg htype] at h ⊢
      have hdrawn : ({ a with gen := gen }.drawn e.type id e.x e.y).DistinctIds ↔ id ∉ taken :=
        drawn_distinctIds_iff hw hd ht
      have hrest := fun hd' => ih (hw.drawn htype h0) hd' (Taken.drawn hw ht e.type id e.x e.y) h
      constructor
      · intro hc
        -- the gates drawn so far are still there
        have hd' : ({ a with gen := gen }.drawn e.type id e.x e.y).DistinctIds :=
          have hold := (drawAll_draws (hw.drawn htype h0) h).old
          fun g hg g' hg' => hc g (hold g hg) g' (hold g' hg')
        exact ⟨hdrawn.mp hd', (hrest hd').mp hc⟩
      · rintro ⟨hid, hl⟩
        exact (hrest (hdrawn.mpr hid)).mpr hl

/-! ## Runs -/

/-- Ids identify the gates: for `createSimMap`, which keeps every gate, and for
`getGate`, which finds the gate meant. -/
structure Identified (a : Area) : Prop where
  distinct : a.DistinctIds
  nonzero : ∀ g ∈ a.m_gates.elems, g.id ≠ gNotValidGateId
  entries : ∀ map, a.createSimMap = .ok map → map.size = a.m_gates.size ∧
    ∀ g ∈ a.m_gates.elems, map.find? g.id = some (a.entry g)
  getGate : ∀ g ∈ a.m_gates.elems, a.getGate g.id = some g

theorem WellFormed.identified_iff {a : Area} (ha : a.WellFormed) :
    a.Identified ↔ a.DistinctIds := by
  refine ⟨Identified.distinct, fun hd => ⟨hd, fun g hg => (ha.shaped g hg).id, fun map h => ?_,
    fun g hg => hd.getGate hg⟩⟩
  rw [ha.createSimMap_eq (ha.secondsConnected_of_map h)] at h
  cases h
  exact hd.simMap

/-- Nothing is asked of actions other than the load of a file. -/
def UnrepeatedLoad (act : Action) (a : Area) : Prop :=
  match act with
  | .load _ (some file) reader => Unrepeated ((Decoder.start reader).entities file) [] a.gen
  | _ => True

theorem step_identified_iff {act : Action} {a a' : Area} (ha : a.Sound) (hi : a.Identified)
    (h : step act a = .ok a') : a'.Identified ↔ UnrepeatedLoad act a := by
  rw [(step_sound ha h).wellFormed.identified_iff]
  cases hl : act.loads with
  | false =>
    refine iff_of_true (step_distinctIds hl ha hi.distinct h) ?_
    cases act with
    | load => cases hl
    | _ => trivial
  | true =>
    cases act with
    | load fuel file reader =>
      cases file with
      | none =>
        obtain ⟨s, hc, _⟩ := ha.wellFormed.cleared
        rw [step, loadProject, hc] at h
        cases h
        exact iff_of_true (by rintro g ⟨⟩) trivial
      | some file =>
        obtain ⟨s, c, hw, _, _, _, hdraw, hreplay⟩ := loadProject_ok ha.wellFormed h
        have hiff := drawAll_distinctIds hw (by rintro g ⟨⟩) (taken_nil rfl) hdraw
        rw [DistinctIds, replay_gates hreplay]
        exact hiff
    | _ => cases hl

/-- **Identified gates.**  In every area of a run ids identify the gates exactly when
no load along the run gives an entity an id that an earlier one of its file has. -/
theorem runs_identified_iff {gen : List Id} {acts : List Action} {a₀ : Area}
    (h : create gen = .ok a₀) :
    (∀ pre a, pre <+: acts → Execution.runs step pre a₀ = .ok a → a.Identified) ↔
      Execution.Along step UnrepeatedLoad acts a₀ := by
  have hrun : create gen >>= Execution.runs step [] = .ok a₀ := by rw [h]; rfl
  obtain ⟨ha, hd⟩ := runs_distinctIds (by simp) hrun
  exact Execution.runs_iff_along (J := Sound) (fun _ _ _ => step_sound)
    (fun _ _ _ => step_identified_iff) ha (ha.wellFormed.identified_iff.mpr hd)

/-- A gate with an id of its own, one without, and one of unknown type. -/
def mixedFile : List Element :=
  [.gateType 6, .gateId 5, .endEntity, .gateId 0, .endEntity, .gateType 9, .gateId 5, .endEntity,
    .endFile]

theorem runs_identified_mixedFile :
    ∃ a₀, create [7, 8] = .ok a₀ ∧
      ∀ pre a, pre <+: [.load 9 (some mixedFile) .other, .draw .and] →
        Execution.runs step pre a₀ = .ok a → a.Identified := by
  obtain ⟨a₀, h, hgen⟩ : ∃ a₀, create [7, 8] = .ok a₀ ∧ a₀.gen = [8] := ⟨_, rfl, rfl⟩
  refine ⟨a₀, h, (runs_identified_iff h).mpr fun a _ => ⟨?_, fun _ _ => ⟨trivial, trivial⟩⟩⟩
  show Unrepeated _ [] a₀.gen
  rw [hgen]
  exact ⟨by decide, by decide, trivial⟩

/-- **Twins.**  A file with two entities of one id loads two gates; the second is
lost for `createSimMap` and `getGate`. -/
theorem twins_merged :
    ∃ a₀ a map, create [7] = .ok a₀ ∧
      Execution.runs step
        [.load 5 (some [.gateType 6, .gateId 5, .endEntity, .endEntity, .endFile]) .other] a₀ =
          .ok a ∧
      a.m_gates.elems.map Gate.id = [5, 5] ∧ a.createSimMap = .ok map ∧ map.size = 1 ∧
      ¬ a.Identified := by
  refine ⟨_, _, _, rfl, rfl, rfl, rfl, rfl, fun hi => ?_⟩
  have hsize := (hi.entries _ rfl).1
  cases hsize

end Area

end SimGate

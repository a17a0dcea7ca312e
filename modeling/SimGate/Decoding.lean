import SimGate.Scheme

/-!
# Decoding any file

The decode loop is a pure reading of the elements before the first `END_FILE`
and, for every `END_ENTITY` among them, a call of `draw`:

* `decodeLoop_eq`: that is what the loop computes when there is an `END_FILE`;
* `decodeLoop_endless`: without one it does not end;
* `decodeLoop_iff`: hence it ends within the file exactly when there is one.
-/

namespace SimGate

/-! ## Reading -/

/-- What `draw` gets at an `END_ENTITY`. -/
structure Entity where
  type : CommonGateType
  id : Id
  x : Qreal
  y : Qreal
  deriving DecidableEq, Repr

namespace Area.Decoder

/-- The variables after one element. -/
def read (d : Decoder) (e : Element) : Decoder :=
  match e with
  | .gateId value => { d with reader := e, id := value }
  | .gateType value => { d with reader := e, type := .ofCode value }
  | .input value =>
    if value ≠ gNotValidGateId then
      { d with reader := e, connVec := d.connVec ++ [(d.id, value)] }
    else { d with reader := e }
  | .x value => { d with reader := e, x := value }
  | .y value => { d with reader := e, y := value }
  | .endEntity | .endFile | .other => { d with reader := e }

def entity (d : Decoder) : Entity := ⟨d.type, d.id, d.x, d.y⟩

@[simp] theorem read_reader (d : Decoder) (e : Element) : (d.read e).reader = e := by
  cases e <;> simp only [read]
  split <;> rfl

/-- The variables at the first `END_FILE`. -/
def readAll (d : Decoder) : List Element → Decoder
  | [] => d
  | e :: file => if e = .endFile then d.read e else (d.read e).readAll file

/-- What is drawn up to the first `END_FILE`. -/
def entities (d : Decoder) : List Element → List Entity
  | [] => []
  | e :: file =>
    if e = .endFile then []
    else if e = .endEntity then d.entity :: (d.read e).entities file
    else (d.read e).entities file

theorem entities_length_le (d : Decoder) (file : List Element) :
    (d.entities file).length ≤ file.count .endEntity := by
  induction file generalizing d with
  | nil => exact Nat.zero_le _
  | cons e file ih =>
    rw [entities]
    split_ifs with hf he
    · exact Nat.zero_le _
    · rw [he, List.count_cons_self, List.length_cons]
      exact Nat.succ_le_succ (ih _)
    · rw [List.count_cons_of_ne he]
      exact ih _

theorem read_connVec_eq_nil (d : Decoder) (e : Element) :
    (d.read e).connVec = [] ↔
      d.connVec = [] ∧ ∀ value, e = .input value → value = gNotValidGateId := by
  cases e with
  | input value => by_cases h : value = gNotValidGateId <;> simp [read, h]
  | _ => simp [read]

/-- A file records nothing when every input before its `END_FILE` is 0. -/
theorem readAll_connVec_eq_nil (d : Decoder) (file : List Element) :
    (d.readAll file).connVec = [] ↔ d.connVec = [] ∧
      ∀ value, .input value ∈ file.takeWhile (· ≠ .endFile) → value = gNotValidGateId := by
  induction file generalizing d with
  | nil => simp [readAll]
  | cons e file ih =>
    rw [readAll]
    by_cases hf : e = .endFile
    · simp [hf, read]
    · rw [if_neg hf, ih, read_connVec_eq_nil, List.takeWhile_cons_of_pos (by simpa using hf)]
      simp only [List.mem_cons, or_imp, forall_and, eq_comm (a := e), and_assoc]

end Area.Decoder

namespace Area

def drawEntity (a : Area) (e : Entity) : Except Fault Area := a.draw e.type e.id e.x e.y

/-! ## The loop -/

/-- **One turn.**  Past the end the element read last is read again. -/
theorem decodeLoop_succ (fuel : Nat) (file : List Element) (d : Decoder) (a : Area) :
    decodeLoop (fuel + 1) file d a =
      let e := file.headD d.reader
      if e = .endFile then .ok (d.read e, a)
      else if e = .endEntity then
        a.drawEntity d.entity >>= decodeLoop fuel file.tail (d.read e)
      else decodeLoop fuel file.tail (d.read e) a := by
  rw [decodeLoop]
  cases h : file.headD d.reader <;>
    simp only [Decoder.read, reduceCtorEq, if_true, if_false]
  · split <;> rfl
  · rfl

/-- **The loop as a whole.** -/
theorem decodeLoop_eq {file : List Element} (hend : .endFile ∈ file) {fuel : Nat}
    (hfuel : file.length ≤ fuel) (d : Decoder) (a : Area) :
    decodeLoop fuel file d a =
      (d.entities file).foldlM drawEntity a >>= fun c => .ok (d.readAll file, c) := by
  induction file generalizing fuel d a with
  | nil => cases hend
  | cons e file ih =>
    obtain ⟨fuel, rfl⟩ := Nat.exists_eq_add_of_le' (Nat.le_trans (Nat.le_add_left 1 _) hfuel)
    rw [decodeLoop_succ, List.headD_cons, List.tail_cons, Decoder.entities, Decoder.readAll]
    by_cases hf : e = .endFile
    · simp only [if_pos hf]
      rfl
    · have hrest := fun d a => ih ((List.mem_cons.mp hend).resolve_left (Ne.symm hf))
        (Nat.le_of_succ_le_succ hfuel) d a
      simp only [if_neg hf]
      by_cases he : e = .endEntity
      · simp only [if_pos he, List.foldlM_cons, bind_assoc]
        congr 1
        funext b
        exact hrest _ b
      · simp only [if_neg he]
        exact hrest _ a

theorem decodeLoop_mono {fuel : Nat} (k : Nat) {file : List Element} {d : Decoder} {a : Area}
    {r : Decoder × Area} (h : decodeLoop fuel file d a = .ok r) :
    decodeLoop (fuel + k) file d a = .ok r := by
  induction fuel generalizing file d a with
  | zero => cases h
  | succ fuel ih =>
    rw [Nat.succ_add]
    rw [decodeLoop_succ] at h ⊢
    simp only at h ⊢
    split at h
    · next hf => rw [if_pos hf]; exact h
    · next hf =>
      rw [if_neg hf]
      split at h
      · next he =>
        obtain ⟨b, hb, h⟩ := Execution.bind_eq_ok h
        rw [if_pos he, hb]
        exact ih h
      · next he => rw [if_neg he]; exact ih h

/-- **An endless loop.**  Without an `END_FILE` no number of turns is enough. -/
theorem decodeLoop_endless {file : List Element} (hend : .endFile ∉ file) {d : Decoder}
    (hreader : file = [] → d.reader ≠ .endFile) (fuel : Nat) (a : Area) (r : Decoder × Area) :
    decodeLoop fuel file d a ≠ .ok r := by
  induction fuel generalizing file d a with
  | zero => rintro ⟨⟩
  | succ fuel ih =>
    have hhead : file.headD d.reader ≠ .endFile := by
      cases file with
      | nil => exact hreader rfl
      | cons e file => exact fun h => hend (h ▸ List.mem_cons_self ..)
    have hrest : ∀ b, decodeLoop fuel file.tail (d.read (file.headD d.reader)) b ≠ .ok r :=
      ih (fun h => hend (List.mem_of_mem_tail h)) fun _ => by rwa [Decoder.read_reader]
    rw [decodeLoop_succ]
    simp only [if_neg hhead]
    split
    · intro h
      obtain ⟨b, _, h⟩ := Execution.bind_eq_ok h
      exact hrest b h
    · exact hrest a

/-- **A loop that ends** has drawn the entities and recorded the pairs. -/
theorem decodeLoop_ok {fuel : Nat} {file : List Element} {d d' : Decoder} {a c : Area}
    (h : decodeLoop fuel file d a = .ok (d', c)) :
    (d.entities file).foldlM drawEntity a = .ok c ∧ d'.connVec = (d.readAll file).connVec := by
  by_cases hend : .endFile ∈ file
  · have hmono := decodeLoop_mono file.length h
    rw [decodeLoop_eq hend (Nat.le_add_left _ _)] at hmono
    obtain ⟨b, hb, hmono⟩ := Execution.bind_eq_ok hmono
    cases hmono
    exact ⟨hb, rfl⟩
  · by_cases hreader : file = [] ∧ d.reader = .endFile
    · obtain ⟨rfl, hr⟩ := hreader
      cases fuel with
      | zero => cases h
      | succ fuel =>
        rw [decodeLoop_succ] at h
        simp only [List.headD_nil, hr, if_true] at h
        cases h
        exact ⟨rfl, rfl⟩
    · rw [not_and] at hreader
      exact absurd h (decodeLoop_endless hend hreader fuel a _)

/-- `c` is `a` with more gates, drawn later. -/
structure Draws (a c : Area) : Prop where
  wellFormed : c.WellFormed
  nextGate : a.nextGate ≤ c.nextGate
  old : ∀ g ∈ a.m_gates.elems, g ∈ c.m_gates.elems
  new : ∀ g ∈ c.m_gates.elems, g ∈ a.m_gates.elems ∨ a.nextGate ≤ g.ptr
  wire : c.scene.wire = a.scene.wire
  input : c.scene.input = a.scene.input
  output : c.scene.output = a.scene.output
  simulatorFlag : c.simulatorFlag = a.simulatorFlag

theorem Draws.entity {a b c : Area} (h : Draws a b) {e : Entity} (hdraw : b.drawEntity e = .ok c) :
    Draws a c := by
  obtain ⟨tmpId, gen, _, _, _, rfl⟩ := draw_ok hdraw
  have hw := h.wellFormed.draw hdraw
  split
  · next ht =>
    rw [if_pos ht] at hw
    exact { h with wellFormed := hw, nextGate := Nat.le_succ_of_le h.nextGate }
  · next ht =>
    rw [if_neg ht] at hw
    have hmem : ∀ g, g ∈ ({ b with gen := gen }.drawn e.type tmpId e.x e.y).m_gates.elems ↔ _ :=
      fun _ => (h.wellFormed.gen gen).mem_drawn
    refine { h with
      wellFormed := hw
      nextGate := Nat.le_succ_of_le h.nextGate
      old := fun g hg => (hmem g).mpr (Or.inl (h.old g hg))
      new := fun g hg => ?_ }
    rcases (hmem g).mp hg with hg | rfl
    · exact h.new g hg
    · rw [Gate.drawn_eq]
      exact Or.inr h.nextGate

theorem drawAll_draws {l : List Entity} {a c : Area} (ha : a.WellFormed)
    (h : l.foldlM drawEntity a = .ok c) : Draws a c :=
  Execution.foldlM_invariant (fun _ _ _ _ hb hdraw => hb.entity hdraw)
    ⟨ha, Nat.le_refl _, fun _ hg => hg, fun _ hg => Or.inl hg, rfl, rfl, rfl, rfl⟩ h

/-- **What a load that ends did**: it cleared the scheme, drew the entities of the
file and replayed its pairs. -/
theorem loadProject_ok {fuel : Nat} {file : List Element} {reader : Element} {a b : Area}
    (ha : a.WellFormed) (h : a.loadProject fuel (some file) reader = .ok b) :
    ∃ s c, { a with scene := s, m_gates := ∅ }.WellFormed ∧ s.input = a.scene.input ∧
      s.output = a.scene.output ∧ (a.scene.Pending → s.Pending) ∧
      ((Decoder.start reader).entities file).foldlM drawEntity
        { a with scene := s, m_gates := ∅ } = .ok c ∧
      ((Decoder.start reader).readAll file).connVec.foldlM connectPair c = .ok b := by
  obtain ⟨s, hc, hw, hi, ho, hp⟩ := ha.cleared
  obtain ⟨a₁, ha₁, h⟩ := Execution.bind_eq_ok h
  rw [hc] at ha₁
  cases ha₁
  obtain ⟨⟨d, c⟩, hdec, h⟩ := Execution.bind_eq_ok h
  obtain ⟨hdraw, hconn⟩ := decodeLoop_ok hdec
  exact ⟨s, c, hw, hi, ho, hp, hdraw, hconn ▸ h⟩

/-! ## The generator -/

/-- The generator will still give `n` different ids that no gate has. -/
def Supplied (a : Area) (n : Nat) : Prop :=
  ∃ fresh : List Id, fresh.Nodup ∧ n ≤ fresh.length ∧
    ∀ v ∈ fresh, v ∈ a.gen ∧ v ≠ gNotValidGateId ∧ ∀ g ∈ a.m_gates.elems, g.id ≠ v

/-- The generator skips only 0 and ids that are taken. -/
theorem generateId_total {m_gates : List Gate} {gen : List Id}
    (h : ∃ v ∈ gen, v ≠ gNotValidGateId ∧ ∀ g ∈ m_gates, g.id ≠ v) :
    ∃ id gen', generateId m_gates gen = .ok (id, gen') ∧
      ∀ v ∈ gen, v ≠ gNotValidGateId → (∀ g ∈ m_gates, g.id ≠ v) → v ≠ id → v ∈ gen' := by
  induction gen with
  | nil =>
    obtain ⟨v, hv, _⟩ := h
    cases hv
  | cons tmpId gen ih =>
    rw [generateId]
    split
    · next htaken =>
      have hskip : ∀ v, v ≠ gNotValidGateId → (∀ g ∈ m_gates, g.id ≠ v) → v ≠ tmpId := by
        rintro v h0 hv rfl
        rcases htaken with h | ⟨g, hg, he⟩
        · exact h0 h
        · exact hv g hg he
      obtain ⟨v, hv, h0, hfree⟩ := h
      obtain ⟨id, gen', hok, hleft⟩ :=
        ih ⟨v, (List.mem_cons.mp hv).resolve_left (hskip v h0 hfree), h0, hfree⟩
      refine ⟨id, gen', hok, fun w hw h0 hfree hne => ?_⟩
      exact hleft w ((List.mem_cons.mp hw).resolve_left (hskip w h0 hfree)) h0 hfree hne
    · exact ⟨tmpId, gen, rfl, fun w hw _ _ hne => (List.mem_cons.mp hw).resolve_left hne⟩

/-- One id less is left after a draw. -/
theorem Supplied.next {a a' : Area} {n : Nat} (h : a.Supplied (n + 1)) (id : Id)
    (hgen : ∀ v ∈ a.gen, v ≠ gNotValidGateId → (∀ g ∈ a.m_gates.elems, g.id ≠ v) → v ≠ id →
      v ∈ a'.gen)
    (hids : ∀ g ∈ a'.m_gates.elems, g ∈ a.m_gates.elems ∨ g.id = id) : a'.Supplied n := by
  obtain ⟨fresh, hnd, hlen, hfresh⟩ := h
  refine ⟨fresh.erase id, hnd.erase id, ?_, fun v hv => ?_⟩
  · have := List.le_length_erase (a := id) (l := fresh)
    omega
  · obtain ⟨hne, hv⟩ := hnd.mem_erase_iff.mp hv
    obtain ⟨hmem, h0, hfree⟩ := hfresh v hv
    refine ⟨hgen v hmem h0 hfree hne, h0, fun g hg => ?_⟩
    rcases hids g hg with hg | rfl
    · exact hfree g hg
    · exact Ne.symm hne

theorem mem_draw {a : Area} {type : CommonGateType} {id : Id} {x y : Qreal} {g : Gate}
    (h : g ∈ (if type = .enumSize then a.skipped else a.drawn type id x y).m_gates.elems) :
    g ∈ a.m_gates.elems ∨ g.id = id := by
  split at h
  · exact Or.inl h
  · rcases KeySet.mem_insert.mp h with h | ⟨rfl, _⟩
    · exact Or.inl h
    · exact Or.inr (by rw [Gate.drawn_eq])

/-- **Drawing ends** while the generator is supplied. -/
theorem Supplied.drawEntity {a : Area} {n : Nat} (h : a.Supplied (n + 1)) (e : Entity) :
    ∃ a', a.drawEntity e = .ok a' ∧ a'.Supplied n := by
  by_cases hid : e.id = gNotValidGateId
  · obtain ⟨fresh, _, hlen, hfresh⟩ := id h
    obtain ⟨v, hv⟩ := List.exists_mem_of_length_pos (Nat.lt_of_lt_of_le (Nat.succ_pos n) hlen)
    obtain ⟨id, gen', hok, hleft⟩ := generateId_total ⟨v, hfresh v hv⟩
    rw [Area.drawEntity, hid, draw_generated _ _ hok, draw_eq (generateId_ok hok).1]
    refine ⟨_, rfl, h.next id (fun w hw h0 hfree hne => ?_)
      fun g hg => mem_draw (a := { a with gen := gen' }) hg⟩
    split
    · exact hleft w hw h0 hfree hne
    · exact hleft w hw h0 hfree hne
  · rw [Area.drawEntity, draw_eq hid]
    refine ⟨_, rfl, h.next e.id (fun w hw _ _ _ => ?_) fun g hg => mem_draw hg⟩
    split
    · exact hw
    · exact hw

theorem Supplied.drawAll {a : Area} {l : List Entity} {n : Nat} (h : a.Supplied n)
    (hn : l.length ≤ n) : ∃ c, l.foldlM Area.drawEntity a = .ok c := by
  induction l generalizing a n with
  | nil => exact ⟨a, rfl⟩
  | cons e l ih =>
    obtain ⟨n, rfl⟩ := Nat.exists_eq_add_of_le' (Nat.le_trans (Nat.le_add_left 1 _) hn)
    obtain ⟨a', hok, h'⟩ := h.drawEntity e
    obtain ⟨c, hc⟩ := ih h' (Nat.le_of_succ_le_succ hn)
    exact ⟨c, by rw [List.foldlM_cons, hok]; exact hc⟩

/-! ## Termination -/

/-- **The decode loop** of a load ends after one read for each element of the file
at most, or after the first of a file without elements, exactly when it finds an
`END_FILE`: in the file, or in the reader that an empty file leaves as it was. -/
theorem decodeLoop_iff (a : Area) (file : List Element) (reader : Element)
    (hgen : a.Supplied (file.count .endEntity)) :
    (∃ r, ∀ fuel, max 1 file.length ≤ fuel → decodeLoop fuel file (.start reader) a = .ok r) ↔
      .endFile ∈ file ∨ file = [] ∧ reader = .endFile := by
  constructor
  · rintro ⟨r, hr⟩
    by_contra hnot
    rw [not_or, not_and] at hnot
    exact decodeLoop_endless hnot.1 hnot.2 _ a r (hr _ (Nat.le_refl _))
  · rintro (hend | ⟨rfl, rfl⟩)
    · obtain ⟨c, hc⟩ := hgen.drawAll (Decoder.entities_length_le (.start reader) file)
      refine ⟨((Decoder.start reader).readAll file, c), fun fuel hfuel => ?_⟩
      rw [decodeLoop_eq hend (Nat.le_trans (Nat.le_max_right ..) hfuel), hc]
      rfl
    · refine ⟨((Decoder.start .endFile).read .endFile, a), fun fuel hfuel => ?_⟩
      obtain ⟨fuel, rfl⟩ := Nat.exists_eq_add_of_le' (Nat.le_trans (Nat.le_max_left ..) hfuel)
      rw [decodeLoop_succ]
      rfl

/-- One gate of unknown type without an id, then an AND gate. -/
def twoEntities : List Element :=
  [.gateType 9, .endEntity, .gateType 0, .gateId 5, .endEntity, .endFile]

theorem decodeLoop_iff_twoEntities :
    (start [7, 8]).Supplied (twoEntities.count .endEntity) ∧
      ∃ r, ∀ fuel, 6 ≤ fuel →
        decodeLoop fuel twoEntities (.start .other) (start [7, 8]) = .ok r := by
  have hgen : (start [7, 8]).Supplied (twoEntities.count .endEntity) :=
    ⟨[7, 8], by decide, by decide, by decide⟩
  exact ⟨hgen, (decodeLoop_iff (start [7, 8]) twoEntities .other hgen).mpr (Or.inl (by decide))⟩

/-- **A cut file.**  After the id of a gate nothing follows: the loop reads it forever. -/
theorem cutFile_endless :
    (start []).Supplied ([Element.gateId 5].count .endEntity) ∧
      ∀ fuel r, decodeLoop fuel [.gateId 5] (.start .endFile) (start []) ≠ .ok r :=
  ⟨⟨[], by decide, by decide, by decide⟩,
    fun fuel r => decodeLoop_endless (by decide) (by simp) fuel (start []) r⟩

end Area

end SimGate

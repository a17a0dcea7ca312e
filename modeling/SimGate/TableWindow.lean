import SimGate.Editor
import SimGate.TableOfTruth

/-!
# The window of the table (`TableOfTruth.h`, `mainwindow.cpp`, `schemearea.h`)

The Table of Truth opens in a window of its own.  The scheme can be edited on while it is
open, and the gates the table was made for are labelled with the headers of their columns.

* `session_labels`: in every state of a run there is at most one window, and the labels are
  those of the window that is open.
-/

namespace SimGate

open Execution

/-! ## The program -/

inductive SessionFault
  | scheme (fault : Fault)
  | table (fault : TableFault)
  deriving DecidableEq, Repr

/-- `emitter` is the instance of the singleton, if there is one, and says whether its
signals are connected to the scheme. -/
structure TableOfTruthEmitter where
  m_valid : Bool
  emitter : Option Bool
  deriving DecidableEq, Repr

/-- `m_label` is the text of the label of a gate, if there is one; `windows` are the tables
that are shown. -/
structure Session where
  area : Area
  m_label : GatePtr → Option String
  emitter : TableOfTruthEmitter
  windows : List TableDialog

/-- A label that is there keeps its text. -/
def Gate.createDesc (desc : String) (m_label : Option String) : Option String :=
  if desc = "" then none
  else
    match m_label with
    | none => some desc
    | some text => some text

namespace Area

def createTableOfTruthDesc (a : Area) (idx : Id) (desc : String)
    (m_label : GatePtr → Option String) : GatePtr → Option String :=
  a.m_gates.elems.foldl (fun m_label it =>
    if it.id = idx then Function.update m_label it.ptr (Gate.createDesc desc (m_label it.ptr))
    else m_label) m_label

def clearDesc (a : Area) (m_label : GatePtr → Option String) : GatePtr → Option String :=
  a.m_gates.elems.foldl (fun m_label it => Function.update m_label it.ptr none) m_label

def HasGate (a : Area) (gate : GatePtr) : Prop := ∃ g ∈ a.m_gates.elems, g.ptr = gate

instance (a : Area) (gate : GatePtr) : Decidable (a.HasGate gate) := by
  unfold HasGate; infer_instance

end Area

namespace TableOfTruthEmitter

/-- `Instance`. -/
def get (e : TableOfTruthEmitter) : TableOfTruthEmitter :=
  match e.emitter with
  | none => ⟨true, some false⟩
  | some _ => e

/-- Both signals are connected. -/
def connect (e : TableOfTruthEmitter) : TableOfTruthEmitter := { e.get with emitter := some true }

end TableOfTruthEmitter

namespace Session

def create (gen : List Id) : Except SessionFault Session :=
  match Area.create gen with
  | .error e => .error (.scheme e)
  | .ok area => .ok ⟨area, fun _ => none, ⟨false, none⟩, []⟩

/-- A gate takes its label along when it goes, and a new one has none. -/
def edit (act : Action) (s : Session) : Except SessionFault Session :=
  match Area.step act s.area with
  | .error e => .error (.scheme e)
  | .ok area =>
    .ok { s with
      area := area
      m_label := fun gate =>
        if s.area.HasGate gate ∧ area.HasGate gate then s.m_label gate else none }

/-- The handler of the button, with the labels that `init` has painted. -/
def tableButton (p : Platform) (fuel : Nat) (s : Session) : Except SessionFault Session :=
  if s.emitter.m_valid then .ok s
  else
    match s.area.createSimMap with
    | .error e => .error (.scheme e)
    | .ok map =>
      match tableOfTruth p fuel map with
      | .error e => .error (.table e)
      | .ok dialog =>
        .ok { s with
          emitter := s.emitter.connect
          m_label := dialog.headers.foldl
            (fun m_label h => s.area.createTableOfTruthDesc h.id h.name m_label) s.m_label
          windows := s.windows ++ [dialog] }

/-- The emitter removes the labels and deletes itself. -/
def closeEvent (window : Nat) (s : Session) : Session :=
  match s.windows[window]? with
  | none => s
  | some _ =>
    -- `Instance` may still make the emitter that is then deleted
    let i := { s.emitter.get with m_valid := false }
    { s with
      m_label := if i.emitter = some true then s.area.clearDesc s.m_label else s.m_label
      emitter := { i with emitter := none }
      windows := s.windows.eraseIdx window }

end Session

inductive SessionAction
  | edit (act : Action)
  | tableButton (fuel : Nat)
  | closeEvent (window : Nat)

def Session.step (p : Platform) : SessionAction → Session → Except SessionFault Session
  | .edit act, s => s.edit act
  | .tableButton fuel, s => s.tableButton p fuel
  | .closeEvent window, s => .ok (s.closeEvent window)

/-! ## A gate keeps its id -/

namespace Area

variable {a b c : Area}

/-- Every gate of `b` is one of `a`, with its id, or was drawn later. -/
structure Kept (a b : Area) : Prop where
  gates : ∀ h ∈ b.m_gates.elems, (∃ g ∈ a.m_gates.elems, g.ptr = h.ptr ∧ g.id = h.id) ∨
    a.nextGate ≤ h.ptr
  nextGate : a.nextGate ≤ b.nextGate

theorem Kept.refl (a : Area) : Kept a a := ⟨fun g hg => Or.inl ⟨g, hg, rfl, rfl⟩, Nat.le_refl _⟩

theorem Kept.trans (h : Kept a b) (h' : Kept b c) : Kept a c where
  gates k hk := by
    rcases h'.gates k hk with ⟨g, hg, hptr, hid⟩ | hnew
    · rcases h.gates g hg with ⟨g₀, hg₀, hptr₀, hid₀⟩ | hnew
      · exact Or.inl ⟨g₀, hg₀, hptr₀.trans hptr, hid₀.trans hid⟩
      · exact Or.inr (hptr ▸ hnew)
    · exact Or.inr (Nat.le_trans h.nextGate hnew)
  nextGate := Nat.le_trans h.nextGate h'.nextGate

theorem Kept.modify (h : Kept a b) (gate : GatePtr) {f : Gate → Gate}
    (hf : ∀ g, (f g).ptr = g.ptr) (hid : ∀ g, (f g).id = g.id) :
    Kept a { b with m_gates := b.m_gates.modify gate f hf } where
  gates k hk := by
    simp only [KeySet.mem_modify] at hk
    obtain ⟨g, hg, rfl⟩ := hk
    split
    · rw [hf, hid]
      exact h.gates g hg
    · exact h.gates g hg
  nextGate := h.nextGate

theorem displayFree_kept (a : Area) : DisplayFree (Kept a) where
  pixmap _ gate pixmap h :=
    h.modify (f := fun g => { g with pixmap := pixmap }) gate (fun _ => rfl) fun _ => rfl
  scene _ _ _ h := ⟨h.gates, h.nextGate⟩
  flag _ _ h := ⟨h.gates, h.nextGate⟩

theorem Kept.draw (h : Kept a b) {type : CommonGateType} {id : Id} {x y : Qreal}
    (hdraw : b.draw type id x y = .ok c) : Kept a c := by
  obtain ⟨tmpId, gen, _, _, _, rfl⟩ := draw_ok hdraw
  split
  · exact ⟨h.gates, Nat.le_succ_of_le h.nextGate⟩
  · refine ⟨fun k hk => ?_, Nat.le_succ_of_le h.nextGate⟩
    rcases KeySet.mem_insert.mp hk with hk | ⟨rfl, _⟩
    · exact h.gates k hk
    · refine Or.inr ?_
      rw [Gate.drawn_eq]
      exact h.nextGate

theorem Kept.connectPair (h : Kept a b) {pair : Id × Id} (hpair : b.connectPair pair = .ok c) :
    Kept a c := by
  rcases connectPair_ok hpair with rfl | ⟨_, _, _, _, _, _, rfl⟩
  · exact h
  · exact ⟨h.gates, h.nextGate⟩

theorem Kept.load (h : Kept a b) {fuel : Nat} {file : Option (List Element)} {reader : Element}
    (hload : b.loadProject fuel file reader = .ok c) : Kept a c := by
  obtain ⟨d, hd, hload⟩ := bind_eq_ok hload
  have hcleared : Kept a d := by
    obtain ⟨s, _, hd⟩ := bind_eq_ok hd
    cases hd
    exact ⟨by rintro k ⟨⟩, h.nextGate⟩
  split at hload
  · cases hload
    exact hcleared
  · obtain ⟨⟨_, e⟩, he, hload⟩ := bind_eq_ok hload
    have hdrawn : Kept a e := foldlM_invariant (fun _ _ _ _ hi h => Kept.draw hi h) hcleared
      (decodeLoop_ok he).1
    exact foldlM_invariant (fun _ _ _ _ hi h => Kept.connectPair hi h) hdrawn hload

theorem step_kept {act : Action} (ha : a.Sound) (h : step act a = .ok b) : Kept a b := by
  cases act with
  | draw type => exact (Kept.refl a).draw (show a.draw type gNotValidGateId 0 0 = .ok b from h)
  | click hitbox =>
    rcases click_ok ha.pending h with rfl | ⟨s, _, rfl⟩
    · exact .refl b
    · exact ⟨(Kept.refl a).gates, Nat.le_refl _⟩
  | deleteWire wire =>
    obtain ⟨live, rfl⟩ := deleteWire_ok ha.wellFormed.consistent h
    exact ⟨(Kept.refl a).gates, Nat.le_refl _⟩
  | deleteGate gate =>
    rcases deleteGate_ok ha.wellFormed h with ⟨_, rfl⟩ | ⟨_, _, _, live, _, h⟩
    · exact .refl b
    · refine (displayFree_kept a).clearSimulate ?_ h
      exact ⟨fun k hk => (Kept.refl a).gates k (KeySet.mem_erase.mp hk).1, Nat.le_refl _⟩
  | changeTypeInput gate =>
    have htoggled := (Kept.refl a).modify gate Gate.toggle_ptr Gate.toggle_id
    rcases changeTypeInput_ok h with rfl | rfl | h
    · exact .refl b
    · exact htoggled
    · exact (displayFree_kept a).simulate htoggled h
  | simulate => exact (displayFree_kept a).simulate (.refl a) h
  | clearSimulate => exact (displayFree_kept a).clearSimulate (.refl a) h
  | load fuel file reader => exact (Kept.refl a).load h

end Area

/-! ## Labels -/

theorem Gate.createDesc_idem (desc : String) (m_label : Option String) :
    Gate.createDesc desc (Gate.createDesc desc m_label) = Gate.createDesc desc m_label := by
  unfold Gate.createDesc
  split
  · rfl
  · cases m_label <;> rfl

namespace Area

theorem createTableOfTruthDesc_apply (a : Area) (idx : Id) (desc : String)
    (m_label : GatePtr → Option String) (gate : GatePtr) :
    a.createTableOfTruthDesc idx desc m_label gate =
      if ∃ g ∈ a.m_gates.elems, g.ptr = gate ∧ g.id = idx then
        Gate.createDesc desc (m_label gate) else m_label gate := by
  rw [createTableOfTruthDesc]
  induction a.m_gates.elems generalizing m_label with
  | nil => simp
  | cons g l ih =>
    rw [List.foldl_cons, ih]
    simp only [List.exists_mem_cons_iff]
    by_cases hid : g.id = idx
    · by_cases hptr : g.ptr = gate
      · subst hptr
        simp [hid, Gate.createDesc_idem]
      · simp [hid, hptr, Function.update_of_ne (Ne.symm hptr)]
    · simp [hid]

theorem clearDesc_apply (a : Area) (m_label : GatePtr → Option String) (gate : GatePtr) :
    a.clearDesc m_label gate =
      if ∃ g ∈ a.m_gates.elems, g.ptr = gate then none else m_label gate := by
  rw [clearDesc]
  induction a.m_gates.elems generalizing m_label with
  | nil => simp
  | cons g l ih =>
    rw [List.foldl_cons, ih]
    simp only [List.exists_mem_cons_iff]
    by_cases hptr : g.ptr = gate
    · subst hptr
      simp
    · simp [hptr, Function.update_of_ne (Ne.symm hptr)]

end Area

/-- The header of the column of a gate. -/
def TableDialog.nameOf (td : TableDialog) (id : Id) : Option String :=
  (td.headers.find? fun h => h.id = id).map Header.name

/-- The labels that the headers leave on gates without one. -/
theorem labels_apply {a : Area} {headers : List Header} (hname : ∀ h ∈ headers, h.name ≠ "")
    (m_label : GatePtr → Option String) {g : Gate} (hg : g ∈ a.m_gates.elems) :
    headers.foldl (fun m_label h => a.createTableOfTruthDesc h.id h.name m_label) m_label g.ptr =
      (m_label g.ptr).or ((headers.find? fun h => h.id = g.id).map Header.name) := by
  induction headers generalizing m_label with
  | nil => simp
  | cons h headers ih =>
    obtain ⟨hh, hname⟩ := List.forall_mem_cons.mp hname
    rw [List.foldl_cons, ih hname, Area.createTableOfTruthDesc_apply]
    have hiff : (∃ x ∈ a.m_gates.elems, x.ptr = g.ptr ∧ x.id = h.id) ↔ h.id = g.id := by
      constructor
      · rintro ⟨x, hx, hptr, hid⟩
        rw [← hid, KeySet.eq_of_key hx hg hptr]
      · exact fun hid => ⟨g, hg, rfl, hid.symm⟩
    by_cases hid : h.id = g.id
    · rw [if_pos (hiff.mpr hid), List.find?_cons_of_pos (by simpa using hid)]
      cases m_label g.ptr <;> simp [Gate.createDesc, hh]
    · rw [if_neg (mt hiff.mp hid), List.find?_cons_of_neg (by simpa using hid)]

theorem labels_other {a : Area} {gate : GatePtr} (hgate : ¬ a.HasGate gate) (headers : List Header)
    (m_label : GatePtr → Option String) :
    headers.foldl (fun m_label h => a.createTableOfTruthDesc h.id h.name m_label) m_label gate =
      m_label gate := by
  induction headers generalizing m_label with
  | nil => rfl
  | cons h headers ih =>
    rw [List.foldl_cons, ih, Area.createTableOfTruthDesc_apply]
    exact if_neg fun ⟨g, hg, hptr, _⟩ => hgate ⟨g, hg, hptr⟩

theorem header_name {inputs outputs : List Id} {i : Nat} {h : Header}
    (hok : header inputs outputs i = .ok h) : h.name ≠ "" := by
  have happend : ∀ s t : String, s ≠ "" → s ++ t ≠ "" := fun s t hs => by simp [hs]
  unfold header at hok
  simp only at hok
  split at hok
  · split at hok
    · rw [← Except.ok.inj hok]
      exact happend _ _ (by decide)
    · cases hok
  · split at hok
    · rw [← Except.ok.inj hok]
      exact happend _ _ (by decide)
    · cases hok

theorem tableOfTruth_headers {p : Platform} {fuel : Nat} {map : SimMap} {td : TableDialog}
    (hok : tableOfTruth p fuel map = .ok td) : ∀ h ∈ td.headers, h.name ≠ "" := by
  obtain ⟨dialog, hinit, hok⟩ := bind_eq_ok hok
  have hdialog : ∀ h ∈ dialog.headers, h.name ≠ "" := by
    obtain ⟨headers, hheaders, hinit⟩ := bind_eq_ok hinit
    cases hinit
    intro h hh
    obtain ⟨i, _, hi⟩ := mapM_mem hheaders h hh
    exact header_name hi
  split at hok
  · cases hok
  · cases hok
  · cases hok
    rw [fillRows_eq]
    exact hdialog

/-! ## The window and the labels -/

namespace Session

/-- The gates that are left of the scheme `a` have the headers of their columns as labels. -/
def LabelledBy (td : TableDialog) (a : Area) (s : Session) : Prop :=
  ∀ g ∈ s.area.m_gates.elems, s.m_label g.ptr = if a.HasGate g.ptr then td.nameOf g.id else none

/-- `R` relates the schemes the button was pressed for to the tables that were made. -/
structure Inv (R : Area → TableDialog → Prop) (s : Session) : Prop where
  sound : s.area.Sound
  emitter : s.emitter = if s.windows = [] then ⟨false, none⟩ else ⟨true, some true⟩
  one : s.windows.length ≤ 1
  alive : ∀ gate, ¬ s.area.HasGate gate → s.m_label gate = none
  closed : s.windows = [] → ∀ gate, s.m_label gate = none
  opened : ∀ td ∈ s.windows, ∃ a : Area, a.WellFormed ∧ a.Kept s.area ∧ R a td ∧ s.LabelledBy td a

variable {p : Platform} {R : Area → TableDialog → Prop} {s s' : Session}

theorem Inv.mono {R' : Area → TableDialog → Prop} (hs : s.Inv R) (h : ∀ a td, R a td → R' a td) :
    s.Inv R' := by
  refine ⟨hs.sound, hs.emitter, hs.one, hs.alive, hs.closed, fun td htd => ?_⟩
  obtain ⟨a, ha, hkept, hr, hlabel⟩ := hs.opened td htd
  exact ⟨a, ha, hkept, h a td hr, hlabel⟩

theorem Inv.edit {act : Action} (hs : s.Inv R) (h : s.edit act = .ok s') : s'.Inv R := by
  unfold Session.edit at h
  split at h
  · cases h
  · next area hstep =>
    cases h
    have hkept := Area.step_kept hs.sound hstep
    refine ⟨Area.step_sound hs.sound hstep, hs.emitter, hs.one, fun gate hgate => ?_,
      fun hwin gate => ?_, fun td htd => ?_⟩
    · exact if_neg fun h => hgate h.2
    · show (if _ then s.m_label gate else none) = none
      rw [hs.closed hwin gate, ite_self]
    · obtain ⟨a, ha, hakept, hr, hlabel⟩ := hs.opened td htd
      refine ⟨a, ha, hakept.trans hkept, hr, fun h hh => ?_⟩
      have hhas : area.HasGate h.ptr := ⟨h, hh, rfl⟩
      show (if s.area.HasGate h.ptr ∧ area.HasGate h.ptr then s.m_label h.ptr else none) = _
      rcases hkept.gates h hh with ⟨g, hg, hptr, hid⟩ | hnew
      · rw [if_pos ⟨⟨g, hg, hptr⟩, hhas⟩, ← hptr, ← hid, hlabel g hg]
      · have hnone : ∀ b : Area, b.WellFormed → b.nextGate ≤ h.ptr → ¬ b.HasGate h.ptr := by
          rintro b hb hle ⟨g, hg, hptr⟩
          exact absurd (hb.allocated g hg) (not_lt.mpr (hptr ▸ hle))
        rw [if_neg fun h' => hnone _ hs.sound.wellFormed hnew h'.1,
          if_neg (hnone a ha (Nat.le_trans hakept.nextGate hnew))]

theorem Inv.tableButton {fuel : Nat} (hs : s.Inv R) (h : s.tableButton p fuel = .ok s')
    (hr : ∀ map td, s.area.createSimMap = .ok map → tableOfTruth p fuel map = .ok td →
      R s.area td) : s'.Inv R := by
  unfold Session.tableButton at h
  split at h
  · cases h
    exact hs
  · next hvalid =>
    have hwin : s.windows = [] := by
      by_contra hwin
      rw [hs.emitter, if_neg hwin] at hvalid
      exact hvalid rfl
    split at h
    · cases h
    · next map hmap =>
      split at h
      · cases h
      · next dialog htable =>
        cases h
        have hname := tableOfTruth_headers htable
        refine ⟨hs.sound, ?_, ?_, fun gate hgate => ?_, ?_, fun td htd => ?_⟩
        · simp [hwin, TableOfTruthEmitter.connect, TableOfTruthEmitter.get, hs.emitter]
        · simp [hwin]
        · exact (labels_other hgate _ _).trans (hs.alive gate hgate)
        · simp
        · rw [hwin, List.nil_append, List.mem_singleton] at htd
          subst htd
          refine ⟨s.area, hs.sound.wellFormed, .refl _, hr map td hmap htable, fun g hg => ?_⟩
          rw [if_pos ⟨g, hg, rfl⟩]
          show List.foldl _ s.m_label _ g.ptr = _
          rw [labels_apply hname _ hg, hs.closed hwin]
          rfl

theorem Inv.closeEvent (window : Nat) (hs : s.Inv R) : (s.closeEvent window).Inv R := by
  unfold Session.closeEvent
  split
  · exact hs
  · next td htd =>
    have hne : s.windows ≠ [] := by
      rintro hwin
      rw [hwin] at htd
      cases htd
    have hrest : s.windows.eraseIdx window = [] := by
      have hlt := (List.getElem?_eq_some_iff.mp htd).1
      have hone := hs.one
      have hlen := List.length_eraseIdx_of_lt hlt
      exact List.eq_nil_of_length_eq_zero (by omega)
    have hclear : ∀ gate, s.area.clearDesc s.m_label gate = none := by
      intro gate
      rw [Area.clearDesc_apply]
      split
      · rfl
      · next hgate => exact hs.alive gate hgate
    have hemitter : s.emitter.get.emitter = some true := by
      rw [hs.emitter, if_neg hne]
      rfl
    simp only [hemitter, if_true]
    refine ⟨hs.sound, ?_, ?_, fun gate _ => hclear gate, fun _ => hclear, ?_⟩
    · simp [hrest]
    · simp [hrest]
    · simp [hrest]

theorem create_inv {gen : List Id} (h : create gen = .ok s) : s.Inv R := by
  unfold Session.create at h
  split at h
  · cases h
  · next area harea =>
    cases h
    exact ⟨Area.create_sound harea, rfl, Nat.zero_le _, fun _ _ => rfl, fun _ _ => rfl, by simp⟩

/-- In the run the button was pressed for the scheme `a` and made the table `td`. -/
def Pressed (p : Platform) (gen : List Id) (acts : List SessionAction) (a : Area)
    (td : TableDialog) : Prop :=
  ∃ pre fuel t map, pre ++ [.tableButton fuel] <+: acts ∧
    create gen >>= runs (step p) pre = .ok t ∧ t.area = a ∧ a.createSimMap = .ok map ∧
    tableOfTruth p fuel map = .ok td

theorem runs_inv {gen : List Id} {acts : List SessionAction}
    (h : create gen >>= runs (step p) acts = .ok s) : s.Inv (Pressed p gen acts) := by
  induction acts using List.reverseRecOn generalizing s with
  | nil =>
    obtain ⟨t, ht, h⟩ := bind_eq_ok h
    cases h
    exact create_inv ht
  | append_singleton acts act ih =>
    obtain ⟨t₀, ht₀, h⟩ := bind_eq_ok h
    rw [runs_append] at h
    obtain ⟨t, ht, h⟩ := bind_eq_ok h
    have hpre : create gen >>= runs (step p) acts = .ok t := by
      rw [ht₀]
      exact ht
    have hinv : t.Inv (Pressed p gen (acts ++ [act])) := by
      refine (ih hpre).mono ?_
      rintro a td ⟨pre, fuel, u, map, hprefix, hu⟩
      exact ⟨pre, fuel, u, map, hprefix.trans (List.prefix_append ..), hu⟩
    obtain ⟨u, hu, h⟩ := bind_eq_ok h
    cases h
    cases act with
    | edit act => exact hinv.edit hu
    | tableButton fuel =>
      exact hinv.tableButton hu fun map td hmap htd =>
        ⟨acts, fuel, t, map, List.prefix_refl _, hpre, rfl, hmap, htd⟩
    | closeEvent window =>
      cases hu
      exact hinv.closeEvent window

/-- **The window of the table.**  However the scheme is edited and the table opened and
closed, there is never a second window, without one no gate has a label, and with one the
gates that are left of the scheme it was made for have the headers of their columns. -/
theorem session_labels {gen : List Id} {acts : List SessionAction}
    (h : create gen >>= runs (step p) acts = .ok s) :
    s.windows.length ≤ 1 ∧ (s.emitter.m_valid = true ↔ s.windows ≠ []) ∧
      (s.windows = [] → ∀ gate, s.m_label gate = none) ∧
      ∀ td ∈ s.windows, ∃ a, Pressed p gen acts a td ∧ s.LabelledBy td a := by
  have hinv := runs_inv h
  refine ⟨hinv.one, ?_, hinv.closed, fun td htd => ?_⟩
  · rw [hinv.emitter]
    by_cases hwin : s.windows = [] <;> simp [hwin]
  · obtain ⟨a, _, _, hr, hlabel⟩ := hinv.opened td htd
    exact ⟨a, hr, hlabel⟩

/-- The table of an output that reads an input state; then a gate is drawn and the input
state deleted. -/
def editedTable : List SessionAction :=
  [.edit (.draw .highState), .edit (.click ⟨0, .input1⟩), .edit (.click ⟨1, .output⟩),
    .tableButton 4, .edit (.draw .not), .edit (.deleteGate 1)]

theorem session_labels_editedTable :
    ∃ s, create [7, 8, 9] >>= runs (step .qt) editedTable = .ok s ∧
      [s.m_label 0, s.m_label 1, s.m_label 2] = [some "Output1", none, none] ∧
      s.windows.length = 1 ∧
      (s.windows.length ≤ 1 ∧ (s.emitter.m_valid = true ↔ s.windows ≠ []) ∧
        (s.windows = [] → ∀ gate, s.m_label gate = none) ∧
        ∀ td ∈ s.windows, ∃ a, Pressed .qt [7, 8, 9] editedTable a td ∧ s.LabelledBy td a) := by
  obtain ⟨s, hrun, hlabels, hwindows⟩ : ∃ s,
      create [7, 8, 9] >>= runs (step .qt) editedTable = .ok s ∧
      [s.m_label 0, s.m_label 1, s.m_label 2] = [some "Output1", none, none] ∧
      s.windows.length = 1 :=
    ⟨_, rfl, by decide, rfl⟩
  exact ⟨s, hrun, hlabels, hwindows, session_labels hrun⟩

end Session

end SimGate

import Mathlib.Order.Basic
import Mathlib.Data.List.Basic
import Mathlib.Data.List.Sort
import Mathlib.Tactic.Common

/-!
# Ordered containers

`KeySet key` is a finite set of records kept in strictly increasing order of
`key`: an ordered map whose records carry their own key, or an ordered set when
`key` is the identity.  Iteration is the list `elems`.

* `find?_insert`, `find?_assign`, `find?_map`, `find?_modify`: an operation is described
  by its effect on `find?`, and `erase` by `mem_erase`;
* `ext_find`: two containers with the same lookups are equal.
-/

namespace KeySet

/-- Insert `a` into a sorted list; `pick old new` decides on an equal key. -/
def place {α κ : Type*} [LinearOrder κ] (key : α → κ) (pick : α → α → α) (a : α) :
    List α → List α
  | [] => [a]
  | b :: l =>
    if key a < key b then a :: b :: l
    else if key b < key a then b :: place key pick a l
    else pick b a :: l

end KeySet

/-- Records in strictly increasing order of their key. -/
structure KeySet {α κ : Type*} [LinearOrder κ] (key : α → κ) where
  elems : List α
  sorted : elems.Pairwise (fun a b => key a < key b)

namespace KeySet

variable {α κ : Type*} [LinearOrder κ] {key : α → κ}

/-! ## Placing an element in a sorted list -/

theorem mem_place {pick : α → α → α} {a x : α} {l : List α} (h : x ∈ place key pick a l) :
    x ∈ l ∨ x = a ∨ ∃ b ∈ l, key b = key a ∧ x = pick b a := by
  induction l with
  | nil => simp_all [place]
  | cons b l ih =>
    simp only [place] at h
    split at h
    · rcases List.mem_cons.mp h with rfl | h
      · exact Or.inr (Or.inl rfl)
      · exact Or.inl h
    · split at h
      · rcases List.mem_cons.mp h with rfl | h
        · exact Or.inl (List.mem_cons_self ..)
        · rcases ih h with h | h | ⟨c, hc, h⟩
          · exact Or.inl (List.mem_cons_of_mem _ h)
          · exact Or.inr (Or.inl h)
          · exact Or.inr (Or.inr ⟨c, List.mem_cons_of_mem _ hc, h⟩)
      · have hk : key b = key a := le_antisymm (not_lt.mp ‹_›) (not_lt.mp ‹_›)
        rcases List.mem_cons.mp h with rfl | h
        · exact Or.inr (Or.inr ⟨b, List.mem_cons_self .., hk, rfl⟩)
        · exact Or.inl (List.mem_cons_of_mem _ h)

theorem sorted_place (pick : α → α → α) (a : α)
    (hp : ∀ b, key b = key a → key (pick b a) = key a) {l : List α}
    (hl : l.Pairwise (fun a b => key a < key b)) :
    (place key pick a l).Pairwise (fun a b => key a < key b) := by
  induction l with
  | nil => simp [place]
  | cons b l ih =>
    have hb := List.pairwise_cons.mp hl
    simp only [place]
    split
    · next hab =>
      refine List.pairwise_cons.mpr ⟨?_, hl⟩
      intro x hx
      rcases List.mem_cons.mp hx with rfl | hx
      · exact hab
      · exact hab.trans (hb.1 x hx)
    · split
      · next hba =>
        refine List.pairwise_cons.mpr ⟨?_, ih hb.2⟩
        intro x hx
        rcases mem_place hx with hx | rfl | ⟨c, _, hk, rfl⟩
        · exact hb.1 x hx
        · exact hba
        · rw [hp c hk]; exact hba
      · have hk : key b = key a := le_antisymm (not_lt.mp ‹_›) (not_lt.mp ‹_›)
        refine List.pairwise_cons.mpr ⟨?_, hb.2⟩
        intro x hx
        rw [hp b hk, ← hk]
        exact hb.1 x hx

theorem find?_place (pick : α → α → α) (a : α)
    (hp : ∀ b, key b = key a → key (pick b a) = key a) {l : List α}
    (hl : l.Pairwise (fun a b => key a < key b)) (k : κ) :
    (place key pick a l).find? (fun x => key x = k) =
      if key a = k then
        some (match l.find? (fun x => key x = k) with
          | some b => pick b a
          | none => a)
      else l.find? (fun x => key x = k) := by
  induction l with
  | nil => by_cases h : key a = k <;> simp [place, h]
  | cons b l ih =>
    have hb := List.pairwise_cons.mp hl
    simp only [place]
    split
    · next hab =>
      by_cases h : key a = k
      · -- every key of the list is above `key a`, so the lookup there fails
        have hn : (b :: l).find? (fun x => key x = k) = none := by
          simp only [List.find?_eq_none, decide_eq_true_eq, ← h]
          intro x hx
          rcases List.mem_cons.mp hx with rfl | hx
          · exact ne_of_gt hab
          · exact ne_of_gt (hab.trans (hb.1 x hx))
        simp [h, hn]
      · simp [h]
    · split
      · next hba =>
        by_cases hbk : key b = k
        · have h : key a ≠ k := fun h => absurd (hbk.trans h.symm) (ne_of_lt hba)
          simp [hbk, h]
        · simp [hbk, ih hb.2]
      · have hk : key b = key a := le_antisymm (not_lt.mp ‹_›) (not_lt.mp ‹_›)
        by_cases h : key a = k
        · simp [h, hk, hp b hk]
        · simp [h, hk, hp b hk]

/-! ## The container -/

def empty : KeySet key := ⟨[], List.Pairwise.nil⟩

instance : EmptyCollection (KeySet key) := ⟨empty⟩

def size (s : KeySet key) : Nat := s.elems.length

def find? (s : KeySet key) (k : κ) : Option α := s.elems.find? (fun a => key a = k)

/-- Insert unless the key is taken. -/
def insert (s : KeySet key) (a : α) : KeySet key :=
  ⟨place key (fun old _ => old) a s.elems, sorted_place _ a (fun _ h => h) s.sorted⟩

/-- Insert one after the other; the first record of a key stays. -/
def ofList (l : List α) : KeySet key := l.foldl insert ∅

/-- Insert, or overwrite the record of that key. -/
def assign (s : KeySet key) (a : α) : KeySet key :=
  ⟨place key (fun _ new => new) a s.elems, sorted_place _ a (fun _ _ => rfl) s.sorted⟩

/-- Change every record in place; the keys stay. -/
def map (s : KeySet key) (f : α → α) (hf : ∀ a, key (f a) = key a) : KeySet key :=
  ⟨s.elems.map f, by
    rw [List.pairwise_map]
    exact s.sorted.imp (fun h => by rw [hf, hf]; exact h)⟩

/-- Change the record of one key in place. -/
def modify (s : KeySet key) (k : κ) (f : α → α) (hf : ∀ a, key (f a) = key a) : KeySet key :=
  s.map (fun a => if key a = k then f a else a) (fun a => by
    by_cases h : key a = k
    · simpa [h] using (hf a).trans h
    · simp [h])

def erase (s : KeySet key) (k : κ) : KeySet key :=
  ⟨s.elems.filter (fun a => key a ≠ k), s.sorted.filter _⟩

/-! ## Lookups -/

theorem find?_eq_some {s : KeySet key} {k : κ} {a : α} :
    s.find? k = some a ↔ a ∈ s.elems ∧ key a = k := by
  constructor
  · intro h
    exact ⟨List.mem_of_find?_eq_some h, by simpa using List.find?_some h⟩
  · rintro ⟨ha, rfl⟩
    obtain ⟨l, hl⟩ := s
    simp only [find?] at ha ⊢
    induction l with
    | nil => simp at ha
    | cons b l ih =>
      have hb := List.pairwise_cons.mp hl
      rcases List.mem_cons.mp ha with rfl | ha
      · simp
      · have hne : key b ≠ key a := ne_of_lt (hb.1 a ha)
        simpa [hne] using ih hb.2 ha

theorem find?_eq_none {s : KeySet key} {k : κ} :
    s.find? k = none ↔ ∀ a ∈ s.elems, key a ≠ k := by
  simp [find?, List.find?_eq_none]

theorem key_of_find? {s : KeySet key} {k : κ} {a : α} (h : s.find? k = some a) : key a = k :=
  (find?_eq_some.mp h).2

theorem mem_of_find? {s : KeySet key} {k : κ} {a : α} (h : s.find? k = some a) : a ∈ s.elems :=
  (find?_eq_some.mp h).1

theorem find?_of_mem {s : KeySet key} {a : α} (h : a ∈ s.elems) : s.find? (key a) = some a :=
  find?_eq_some.mpr ⟨h, rfl⟩

@[simp] theorem elems_empty : (∅ : KeySet key).elems = [] := rfl

@[simp] theorem find?_empty (k : κ) : (∅ : KeySet key).find? k = none := rfl

theorem find?_insert (s : KeySet key) (a : α) (k : κ) :
    (s.insert a).find? k = if key a = k then some ((s.find? k).getD a) else s.find? k := by
  have h := find?_place (fun old _ => old) a (fun _ h => h) s.sorted k
  simp only [find?, insert]
  rw [h]
  cases s.elems.find? (fun x => key x = k) <;> rfl

theorem find?_ofList (l : List α) (k : κ) :
    (ofList l : KeySet key).find? k = l.find? (fun a => key a = k) := by
  have h : ∀ s : KeySet key, (l.foldl insert s).find? k =
      (s.find? k).or (l.find? (fun a => key a = k)) := by
    induction l with
    | nil => simp
    | cons a l ih =>
      intro s
      rw [List.foldl_cons, ih, find?_insert]
      by_cases hk : key a = k
      · cases s.find? k <;> simp [hk]
      · simp [hk]
  simpa [ofList] using h ∅

theorem mem_of_mem_ofList {l : List α} {a : α} (h : a ∈ (ofList l : KeySet key).elems) :
    a ∈ l := by
  have hf := find?_of_mem h
  rw [find?_ofList] at hf
  exact List.mem_of_find?_eq_some hf

theorem find?_assign (s : KeySet key) (a : α) (k : κ) :
    (s.assign a).find? k = if key a = k then some a else s.find? k := by
  have h := find?_place (fun _ new => new) a (fun _ _ => rfl) s.sorted k
  simp only [find?, assign]
  rw [h]
  cases s.elems.find? (fun x => key x = k) <;> rfl

theorem find?_map (s : KeySet key) (f : α → α) (hf : ∀ a, key (f a) = key a) (k : κ) :
    (s.map f hf).find? k = (s.find? k).map f := by
  simp only [find?, map, List.find?_map]
  congr 2
  funext a
  simp [hf]

theorem find?_modify (s : KeySet key) (k : κ) (f : α → α) (hf : ∀ a, key (f a) = key a)
    (j : κ) : (s.modify k f hf).find? j = if j = k then (s.find? j).map f else s.find? j := by
  rw [modify, find?_map]
  cases h : s.find? j with
  | none => simp
  | some a =>
    have hk := key_of_find? h
    by_cases hj : j = k <;> simp [hk, hj]

/-! ## Membership -/

theorem nodup (s : KeySet key) : s.elems.Nodup :=
  s.sorted.imp fun h he => absurd (congrArg key he) (ne_of_lt h)

theorem nodup_keys (s : KeySet key) : (s.elems.map key).Nodup :=
  List.pairwise_map.mpr (s.sorted.imp fun h => ne_of_lt h)

theorem eq_of_key {s : KeySet key} {a b : α} (ha : a ∈ s.elems) (hb : b ∈ s.elems)
    (h : key a = key b) : a = b := by
  have hf := find?_of_mem ha
  rw [h, find?_of_mem hb] at hf
  exact (Option.some.inj hf).symm

theorem mem_insert {s : KeySet key} {a b : α} :
    b ∈ (s.insert a).elems ↔ b ∈ s.elems ∨ b = a ∧ s.find? (key a) = none := by
  have hb : b ∈ (s.insert a).elems ↔ (s.insert a).find? (key b) = some b := by
    simp [find?_eq_some]
  have hb' : b ∈ s.elems ↔ s.find? (key b) = some b := by simp [find?_eq_some]
  rw [hb, hb', find?_insert]
  split
  · next hk =>
    rw [hk]
    cases hf : s.find? (key b) with
    | none => simp [eq_comm]
    | some c => simp
  · next hk =>
    have hne : b ≠ a := fun h => hk (by rw [h])
    simp [hne]

theorem mem_modify {s : KeySet key} {k : κ} {f : α → α} {hf : ∀ a, key (f a) = key a} {b : α} :
    b ∈ (s.modify k f hf).elems ↔ ∃ a ∈ s.elems, (if key a = k then f a else a) = b := by
  simp [modify, map]

theorem mem_erase {s : KeySet key} {k : κ} {a : α} :
    a ∈ (s.erase k).elems ↔ a ∈ s.elems ∧ key a ≠ k := by
  simp [erase]

theorem elems_insert_last {s : KeySet key} {a : α} (h : ∀ b ∈ s.elems, key b < key a) :
    (s.insert a).elems = s.elems ++ [a] := by
  obtain ⟨l, hl⟩ := s
  simp only [insert] at h ⊢
  induction l with
  | nil => rfl
  | cons b l ih =>
    obtain ⟨hb, h⟩ := List.forall_mem_cons.mp h
    simp only [place, if_neg (not_lt_of_gt hb), if_pos hb, List.cons_append]
    rw [ih hl.of_cons h]

theorem erase_head {a : α} {l : List α}
    (h : (a :: l).Pairwise (fun a b => key a < key b)) :
    (⟨a :: l, h⟩ : KeySet key).erase (key a) = ⟨l, h.of_cons⟩ := by
  simp only [erase, mk.injEq, List.filter_cons, ne_eq, not_true_eq_false, decide_false,
    Bool.false_eq_true, if_false]
  refine List.filter_eq_self.mpr fun b hb => ?_
  have hne : key b ≠ key a := ne_of_gt (List.rel_of_pairwise_cons h hb)
  simp [hne]

theorem find?_of_nodup {l : List α} (hl : (l.map key).Nodup) {a : α} (ha : a ∈ l) :
    l.find? (fun b => key b = key a) = some a := by
  induction l with
  | nil => cases ha
  | cons b l ih =>
    obtain ⟨hb, hl⟩ := List.nodup_cons.mp hl
    rcases List.mem_cons.mp ha with rfl | ha
    · simp
    · have hne : key b ≠ key a := fun h => hb (h ▸ List.mem_map_of_mem ha)
      simp [hne, ih hl ha]

theorem mem_ofList {l : List α} (hl : (l.map key).Nodup) {a : α} :
    a ∈ (ofList l : KeySet key).elems ↔ a ∈ l := by
  refine ⟨mem_of_mem_ofList, fun ha => ?_⟩
  exact mem_of_find? ((find?_ofList l (key a)).trans (find?_of_nodup hl ha))

theorem size_ofList {l : List α} (hl : (l.map key).Nodup) :
    (ofList l : KeySet key).size = l.length :=
  ((List.perm_ext_iff_of_nodup (nodup _) hl.of_map).mpr fun _ => mem_ofList hl).length_eq

/-! ## Changing every record -/

theorem map_map (s : KeySet key) {f g : α → α} (hf : ∀ a, key (f a) = key a)
    (hg : ∀ a, key (g a) = key a) :
    (s.map f hf).map g hg = s.map (fun a => g (f a)) (fun a => (hg _).trans (hf a)) := by
  simp [map]

theorem map_congr {s : KeySet key} {f g : α → α} (hf : ∀ a, key (f a) = key a)
    (hg : ∀ a, key (g a) = key a) (h : ∀ a ∈ s.elems, f a = g a) : s.map f hf = s.map g hg := by
  simp only [map, mk.injEq]
  exact List.map_congr_left h

theorem map_id (s : KeySet key) {f : α → α} (hf : ∀ a, key (f a) = key a)
    (h : ∀ a ∈ s.elems, f a = a) : s.map f hf = s := by
  obtain ⟨l, hl⟩ := s
  simp only [map, mk.injEq]
  simpa using List.map_congr_left (g := fun a => a) h

/-! ## Equality -/

theorem ext_mem {s t : KeySet key} (h : ∀ a, a ∈ s.elems ↔ a ∈ t.elems) : s = t := by
  have hirr : Std.Irrefl (fun a b : α => key a < key b) := ⟨fun a => lt_irrefl (key a)⟩
  have hanti : Std.Antisymm (fun a b : α => key a < key b) :=
    ⟨fun _ _ hab hba => absurd (hab.trans hba) (lt_irrefl _)⟩
  obtain ⟨l, hl⟩ := s
  obtain ⟨m, hm⟩ := t
  simp only [mk.injEq]
  exact hl.eq_of_mem_iff hm h

theorem ext_find {s t : KeySet key} (h : ∀ k, s.find? k = t.find? k) : s = t := by
  apply ext_mem
  intro a
  have hs : s.find? (key a) = some a ↔ _ := find?_eq_some
  have ht : t.find? (key a) = some a ↔ _ := find?_eq_some
  rw [h (key a)] at hs
  simpa using hs.symm.trans ht

theorem ofList_elems (s : KeySet key) : (ofList s.elems : KeySet key) = s :=
  ext_find fun k => find?_ofList s.elems k

end KeySet

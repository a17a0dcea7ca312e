import Mathlib.Data.Finset.Range
import Mathlib.Data.List.Find
import SimGate.Lib.Slice
import SimGate.Semantics

/-!
# Ids as labels

`Sim` starts from the `OUTPUT` gates in id order, and a loop is cut where the
traversal first meets it.  So a renaming of the ids may change what is reported
(`crossLoop_relabelled`), but only through the order of the `OUTPUT` gates that read
a common loop (`sim_renamed`).
-/

namespace SimGate

open StraightLine Demand Execution Relation

/-! ## Renaming the gates of a map -/

/-- An unconnected input stays unconnected. -/
def renameRef (ρ : Id → Id) (id : Id) : Id :=
  if id = gNotValidGateId then gNotValidGateId else ρ id

def Entry.rename (ρ : Id → Id) (it : Entry) : Entry :=
  ⟨{ it.first with id := ρ it.first.id }, (renameRef ρ it.second.1, renameRef ρ it.second.2)⟩

def SimMap.renamed (map : SimMap) (ρ : Id → Id) : SimMap :=
  KeySet.ofList (map.elems.map (Entry.rename ρ))

/-- Every input is unconnected or wired to a gate of the map. -/
def SimMap.Closed (map : SimMap) : Prop :=
  ∀ it ∈ map.elems, ∀ c ∈ [it.second.1, it.second.2],
    c = gNotValidGateId ∨ map.find? c ≠ none

/-- `ρ` sends the ids of the map to distinct non-zero ids. -/
structure Relabels (map : SimMap) (ρ : Id → Id) : Prop where
  injective : ∀ it ∈ map.elems, ∀ it' ∈ map.elems, ρ it.id = ρ it'.id → it.id = it'.id
  nonzero : ∀ it ∈ map.elems, ρ it.id ≠ gNotValidGateId

instance (map : SimMap) : Decidable map.Closed := by unfold SimMap.Closed; infer_instance

theorem relabels_iff {map : SimMap} {ρ : Id → Id} : Relabels map ρ ↔
    (∀ it ∈ map.elems, ∀ it' ∈ map.elems, ρ it.id = ρ it'.id → it.id = it'.id) ∧
      ∀ it ∈ map.elems, ρ it.id ≠ gNotValidGateId :=
  ⟨fun h => ⟨h.injective, h.nonzero⟩, fun h => ⟨h.1, h.2⟩⟩

instance (map : SimMap) (ρ : Id → Id) : Decidable (Relabels map ρ) :=
  decidable_of_iff' _ relabels_iff

@[simp] theorem rename_isInput (ρ : Id → Id) (it : Entry) :
    (it.rename ρ).first.isInput = it.first.isInput := rfl

theorem find_renamed {map : SimMap} {ρ : Id → Id} (hρ : Relabels map ρ) {id : Id} {it : Entry}
    (hit : map.find? id = some it) : (map.renamed ρ).find? (ρ id) = some (it.rename ρ) := by
  have hmem := KeySet.mem_of_find? hit
  have hid := KeySet.key_of_find? hit
  rw [SimMap.renamed, KeySet.find?_ofList, List.find?_map]
  have hsame : map.elems.find? ((fun a => decide (Entry.id a = ρ id)) ∘ Entry.rename ρ) =
      map.elems.find? (fun a => decide (Entry.id a = id)) := by
    apply List.find?_congr
    intro a ha
    have hiff : ρ a.id = ρ id ↔ a.id = id := by
      constructor
      · intro h
        rw [← hid] at h ⊢
        exact hρ.injective a ha it hmem h
      · exact fun h => by rw [h]
    exact decide_eq_decide.mpr hiff
  rw [hsame]
  exact congrArg (Option.map (Entry.rename ρ)) hit

theorem find_renamed_none {map : SimMap} {ρ : Id → Id} {id : Id}
    (h : ∀ it ∈ map.elems, ρ it.id ≠ id) : (map.renamed ρ).find? id = none := by
  rw [SimMap.renamed, KeySet.find?_ofList, List.find?_eq_none]
  intro a ha
  obtain ⟨it, hit, rfl⟩ := List.mem_map.mp ha
  have hne : ρ it.first.id ≠ id := h it hit
  simp [Entry.rename, Entry.id, hne]

theorem renamed_fresh {map : SimMap} (hf : map.Fresh) (ρ : Id → Id) : (map.renamed ρ).Fresh := by
  intro a ha
  obtain ⟨it, hit, rfl⟩ := List.mem_map.mp (KeySet.mem_of_mem_ofList ha)
  have hd := hf it hit
  obtain ⟨⟨type, id, out⟩, ins⟩ := it
  cases type <;> simpa [CommonData.defaultValue, Entry.rename] using hd

/-! ## A renaming of all ids -/

/-- `ρ` on the gates of the map; other ids are moved out of the way. -/
def extend (map : SimMap) (ρ : Id → Id) (bound : Nat) (id : Id) : Id :=
  if (map.find? id).isSome then ρ id
  else if id = gNotValidGateId then gNotValidGateId
  else id + bound

section

variable {map : SimMap} {ρ : Id → Id} (hρ : Relabels map ρ) (hid : map.NonzeroIds)
  {bound : Nat} (hb : ∀ it ∈ map.elems, ρ it.id < bound)

theorem extend_of_find {id : Id} {it : Entry} (h : map.find? id = some it) :
    extend map ρ bound id = ρ id := by simp [extend, h]

theorem extend_zero (hid : map.NonzeroIds) :
    extend map ρ bound gNotValidGateId = gNotValidGateId := by
  have h0 : map.find? gNotValidGateId = none := by
    cases h : map.find? gNotValidGateId with
    | none => rfl
    | some it => exact absurd (KeySet.key_of_find? h) (hid it (KeySet.mem_of_find? h))
  simp [extend, h0]

include hρ hb

theorem extend_injective : Function.Injective (extend map ρ bound) := by
  have hin : ∀ id, (map.find? id).isSome = true → 0 < ρ id ∧ ρ id < bound := by
    intro id h
    obtain ⟨it, hit⟩ := Option.isSome_iff_exists.mp h
    have hm := KeySet.mem_of_find? hit
    rw [← KeySet.key_of_find? hit]
    exact ⟨Nat.pos_of_ne_zero (hρ.nonzero it hm), hb it hm⟩
  have hinj : ∀ x y, (map.find? x).isSome = true → (map.find? y).isSome = true →
      ρ x = ρ y → x = y := by
    intro x y hx hy h
    obtain ⟨it, hit⟩ := Option.isSome_iff_exists.mp hx
    obtain ⟨it', hit'⟩ := Option.isSome_iff_exists.mp hy
    rw [← KeySet.key_of_find? hit, ← KeySet.key_of_find? hit'] at h ⊢
    exact hρ.injective it (KeySet.mem_of_find? hit) it' (KeySet.mem_of_find? hit') h
  intro x y hxy
  simp only [extend, gNotValidGateId] at hxy
  grind

/-- Each gate is found under its new id, and nothing else is. -/
theorem find_extend (id : Id) :
    (map.renamed ρ).find? (extend map ρ bound id) = (map.find? id).map (Entry.rename ρ) := by
  cases hit : map.find? id with
  | some it =>
    rw [extend_of_find hit, find_renamed hρ hit]
    rfl
  | none =>
    refine find_renamed_none fun it hm => ?_
    have h0 : 0 < ρ it.id := Nat.pos_of_ne_zero (hρ.nonzero it hm)
    have hlt := hb it hm
    simp only [extend, hit, gNotValidGateId]
    grind

theorem renamed_wiring (hid : map.NonzeroIds) (hcl : map.Closed) :
    Renamed (extend map ρ bound) map.wiring (map.renamed ρ).wiring := by
  intro id
  simp only [SimMap.wiring, find_extend hρ hb, Option.map_map]
  cases hit : map.find? id with
  | none => rfl
  | some it =>
    have href : ∀ c ∈ [it.second.1, it.second.2], renameRef ρ c = extend map ρ bound c := by
      intro c hc
      by_cases h0 : c = gNotValidGateId
      · rw [h0, extend_zero hid]
        rfl
      · obtain ⟨it', hit'⟩ := Option.ne_none_iff_exists'.mp
          ((hcl it (KeySet.mem_of_find? hit) c hc).resolve_left h0)
        rw [extend_of_find hit', renameRef, if_neg h0]
    have h1 := href it.second.1 (by simp)
    have h2 := href it.second.2 (by simp)
    have hsec : (it.rename ρ).second =
        (extend map ρ bound it.second.1, extend map ρ bound it.second.2) := by
      rw [← h1, ← h2]; rfl
    simp only [Option.map_some, Function.comp, rename_isInput, hsec]
    cases it.first.isInput <;> rfl

theorem renamed_typeOf (id : Id) :
    (map.renamed ρ).typeOf (extend map ρ bound id) = map.typeOf id := by
  simp only [SimMap.typeOf, find_extend hρ hb]
  cases map.find? id <;> rfl

theorem renamed_outOf (id : Id) :
    (map.renamed ρ).outOf (extend map ρ bound id) = map.outOf id := by
  simp only [SimMap.outOf, find_extend hρ hb]
  cases map.find? id <;> rfl

/-- A renamed schedule computes the same values. -/
theorem run_renamed {p : List (Instr Id)} (hp : Valid p) (id : Id) :
    run (map.renamed ρ).interp (p.map (Instr.rename (extend map ρ bound)))
      (extend map ρ bound id) = run map.interp p id := by
  have hrel := run_related (I := map.interp) (J := (map.renamed ρ).interp)
    (extend_injective hρ hb) (R := fun _ v v' => v = v') hp ?_ id
  · rw [List.forall₂_eq_eq_eq] at hrel
    exact hrel.symm
  · -- operands of one instruction read the same on both sides
    have hread : ∀ (o : Operand Id) v v', o.Related map.interp (map.renamed ρ).interp
        (extend map ρ bound) (fun _ v v' => v = v') v v' → v = v' := by
      intro o v v' h
      cases o with
      | absent => exact h.1.trans h.2.symm
      | leaf n =>
        rw [h.1, h.2, interp_leaf, interp_leaf, renamed_outOf hρ hb]
      | cut n =>
        rw [h.1, h.2, interp_cut, interp_cut, renamed_typeOf hρ hb]
      | value n j => exact h
    intro i _ a a' b b' ha hb'
    rw [hread _ _ _ ha, hread _ _ _ hb', interp_apply, interp_apply, renamed_typeOf hρ hb]

/-- The `OUTPUT` gates of the renamed map, as gates of the original one. -/
theorem renamed_outputs :
    ∃ roots : List Id, roots.map (extend map ρ bound) = (map.renamed ρ).outputs ∧
      (∀ o, o ∈ roots ↔ o ∈ map.outputs) ∧
      roots.Pairwise (fun p q => extend map ρ bound p < extend map ρ bound q) := by
  have hmem : ∀ o, extend map ρ bound o ∈ (map.renamed ρ).outputs ↔ o ∈ map.outputs := by
    intro o
    rw [mem_outputs, mem_outputs, find_extend hρ hb]
    cases map.find? o <;> simp [Entry.rename]
  have hback : ∀ x ∈ (map.renamed ρ).outputs, ∃ o, extend map ρ bound o = x := by
    intro x hx
    obtain ⟨it', hit', _⟩ := mem_outputs.mp hx
    obtain ⟨it, hit, rfl⟩ := List.mem_map.mp (KeySet.mem_of_mem_ofList (KeySet.mem_of_find? hit'))
    refine ⟨it.id, ?_⟩
    rw [extend_of_find (KeySet.find?_of_mem hit), ← KeySet.key_of_find? hit']
    rfl
  have hinv := Function.leftInverse_invFun (extend_injective hρ hb)
  have hright : ∀ x ∈ (map.renamed ρ).outputs,
      extend map ρ bound (Function.invFun (extend map ρ bound) x) = x := fun x hx =>
    Function.invFun_eq (hback x hx)
  have hroots : ((map.renamed ρ).outputs.map (Function.invFun (extend map ρ bound))).map
      (extend map ρ bound) = (map.renamed ρ).outputs := by
    rw [List.map_map]
    exact (List.map_congr_left hright).trans (List.map_id _)
  refine ⟨_, hroots, fun o => ?_, ?_⟩
  · rw [← hmem o, ← hroots, List.mem_map_of_injective (extend_injective hρ hb), hroots]
  · rw [← List.pairwise_map (f := extend map ρ bound), hroots]
    exact filter_ids_sorted _ _

end

/-! ## The order of the roots -/

/-- `p` reads, directly or transitively, a gate on a feedback loop that `o`
reads too. -/
def SimMap.SharesLoop (map : SimMap) (o p : Id) : Prop :=
  ∃ l, Reach map.wiring o l ∧ TransGen (Reads map.wiring) l l ∧ Reach map.wiring p l

theorem sharesLoop_reads {map : SimMap} {o n m : Id} (hn : ¬ map.SharesLoop o n)
    (h : Reads map.wiring n m) : ¬ map.SharesLoop o m := by
  rintro ⟨l, hol, hl, hm⟩
  exact hn ⟨l, hol, hl, ReflTransGen.head h hm⟩

/-- A gate that `o` reads and that leads to none of the loops of `o`. -/
theorem loopFree_of_not_sharesLoop {map : SimMap} {o n : Id} (hn : ¬ map.SharesLoop o n)
    (hr : Reach map.wiring o n) : map.LoopFree n :=
  fun l hnl hl => hn ⟨l, hr.trans hnl, hl, hnl⟩

section

variable {map : SimMap} (hf : map.Fresh) (hid : map.NonzeroIds)

include hf hid

/-- A gate without loops below it takes its meaning in every schedule. -/
theorem head_of_loopFree {t t' : State Id} (ht : Done map.wiring t) (ht' : Done map.wiring t')
    {o : Id} (ho : o ∈ t.used) (ho' : o ∈ t'.used) (hfree : map.LoopFree o) :
    (run map.interp t.prog o).head? = (run map.interp t'.prog o).head? := by
  have hhead : ∀ t : State Id, Done map.wiring t → o ∈ t.used →
      ∃ b, Denotes map o b ∧ (run map.interp t.prog o).head? = some (ofBool b) := by
    intro t ht ho
    have hlen : 0 < (run map.interp t.prog o).length := by
      rw [occ_run]; exact (ht.all o ho).1
    cases hl : run map.interp t.prog o with
    | nil => simp [hl] at hlen
    | cons v l =>
      obtain ⟨b, hb, rfl⟩ := run_meaning hf ht.ok o v (by simp [hl]) hfree
      exact ⟨b, hb, rfl⟩
  obtain ⟨b, hb, h⟩ := hhead t ht ho
  obtain ⟨b', hb', h'⟩ := hhead t' ht' ho'
  rw [h, h', hb.unique hid hb']

omit hf in
theorem exists_meaning : ∃ g : Id → CommonValueOutput, ∀ n v, Meaning map n v → v = g n := by
  classical
  refine ⟨fun n => if h : ∃ v, Meaning map n v then h.choose else .unknown, fun n v hv => ?_⟩
  have h : ∃ v, Meaning map n v := ⟨v, hv⟩
  obtain ⟨b, hb, rfl⟩ := hv
  obtain ⟨b', hb', h'⟩ := h.choose_spec
  simp only [dif_pos h]
  rw [h', hb.unique hid hb']

/-- The part of `o`'s schedule that its loops depend on. -/
def LoopPart (map : SimMap) (o n : Id) : Prop := Reach map.wiring o n ∧ map.SharesLoop o n

open Classical in
/-- On the loop part other operands have a meaning, so the slice computes the
same values. -/
theorem run_loopPart : ∃ g : Id → CommonValueOutput, ∀ (t : State Id) (o : Id),
    Ok map.wiring t → ∀ n, LoopPart map o n →
      run { map.interp with leaf := g } (slice (LoopPart map o) t.prog) n =
        run map.interp t.prog n := by
  obtain ⟨g, hg⟩ := exists_meaning hid
  refine ⟨g, fun t o hk => run_slice _ g hk.valid fun i hi hW => ?_⟩
  obtain ⟨a, b, hG, hx, hy⟩ := hk.operands i hi
  have key : ∀ c x, (Inner map.wiring c → Reads map.wiring i.node c) →
      OperandOf map.wiring i.node c x → x.Outside (LoopPart map o) map.interp g t.prog := by
    intro c x hr hof
    cases x with
    | absent => trivial
    | leaf m =>
      obtain ⟨rfl, hl⟩ := hof
      exact (hg m _ (Meaning.leaf hf hl)).symm
    | cut m =>
      obtain ⟨rfl, hi, hback⟩ := hof
      obtain ⟨l, hol, hl, hnl⟩ := hW.2
      exact ⟨hW.1.tail (hr hi), l, hol, hl, hback.trans hnl⟩
    | value m j =>
      obtain ⟨rfl, hi⟩ := hof
      have hom : Reach map.wiring o m := hW.1.tail (hr hi)
      by_cases hm : map.SharesLoop o m
      · exact Or.inl ⟨hom, hm⟩
      · exact Or.inr fun v hv =>
          hg m v (run_meaning hf hk m v hv (loopFree_of_not_sharesLoop hm hom))
  exact ⟨key a _ (reads_left hG) hx, key b _ (reads_right hG) hy⟩

open Classical in
/-- **Order of roots.**  What `o` is reported with depends on the roots that
share a loop with it, and on their order, only. -/
theorem head_of_roots {fuel fuel' : Nat} {roots roots' : List Id} {t t' : State Id} {o : Id}
    (ht : visitAll map.wiring fuel roots State.start = some t)
    (ht' : visitAll map.wiring fuel' roots' State.start = some t')
    (hin : ∀ r ∈ roots, Inner map.wiring r) (ho : o ∈ roots) (ho' : o ∈ roots')
    (hord : roots.filter (map.SharesLoop o) = roots'.filter (map.SharesLoop o)) :
    (run map.interp t.prog o).head? = (run map.interp t'.prog o).head? := by
  obtain ⟨hd, _, hu, _⟩ := visitAll_spec (Done.start _) ht
  obtain ⟨hd', _, hu', _⟩ := visitAll_spec (Done.start _) ht'
  by_cases hfree : map.LoopFree o
  · exact head_of_loopFree hf hid hd hd' (hu o ho) (hu' o ho') hfree
  · have hW : LoopPart map o o := by
      simp only [SimMap.LoopFree, not_forall, not_not] at hfree
      obtain ⟨l, hol, hl⟩ := hfree
      exact ⟨.refl, l, hol, hl, hol⟩
    have hin₀ : ∀ r ∈ roots.filter (map.SharesLoop o), Inner map.wiring r :=
      fun r hr => hin r (List.mem_of_mem_filter hr)
    obtain ⟨t₀, h₀⟩ := visitAll_wiring_total map hin₀
    have h₁ := visitAll_slice (U := map.SharesLoop o) (fun _ _ => sharesLoop_reads)
      (Done.start _) (Done.start _) rfl ht h₀
    have h₂ := visitAll_slice (U := map.SharesLoop o) (fun _ _ => sharesLoop_reads)
      (Done.start _) (Done.start _) rfl ht' (hord ▸ h₀)
    have hprog : slice (map.SharesLoop o) t.prog = slice (map.SharesLoop o) t'.prog :=
      congrArg State.prog (h₁.trans h₂.symm)
    have hslice : slice (LoopPart map o) t.prog = slice (LoopPart map o) t'.prog := by
      rw [← slice_slice (map.SharesLoop o) (LoopPart map o) (fun _ h => h.2), hprog,
        slice_slice (map.SharesLoop o) (LoopPart map o) (fun _ h => h.2)]
    obtain ⟨g, hg⟩ := run_loopPart hf hid
    rw [← hg t o hd.ok o hW, ← hg t' o hd'.ok o hW, hslice]

end

/-! ## Renamed maps -/

/-- **Renaming.**  After `Sim` on a renamed map an `OUTPUT` gate is reported
with the same value if the renaming keeps the order of the `OUTPUT` gates that
share a feedback loop with it. -/
theorem sim_renamed (map : SimMap) (hf : map.Fresh) (hid : map.NonzeroIds) (hcl : map.Closed)
    (ρ : Id → Id) (hρ : Relabels map ρ) (o : Id) (ho : o ∈ map.outputs)
    (hord : ∀ p ∈ map.outputs, ∀ q ∈ map.outputs, map.SharesLoop o p → map.SharesLoop o q →
      p < q → ρ p < ρ q) :
    ∃ s s', Returns (fun fuel => SimState.run fuel (.start map)) s ∧
      Returns (fun fuel => SimState.run fuel (.start (map.renamed ρ))) s' ∧
      s'.sim.getValue (ρ o) = s.sim.getValue o := by
  classical
  obtain ⟨bound, hbound⟩ := ((map.elems.map (fun it => ρ it.id)).toFinset).exists_nat_subset_range
  have hb : ∀ it ∈ map.elems, ρ it.id < bound := by
    intro it hit
    have hm : ρ it.id ∈ (map.elems.map (fun it => ρ it.id)).toFinset :=
      List.mem_toFinset.mpr (List.mem_map.mpr ⟨it, hit, rfl⟩)
    exact Finset.mem_range.mp (hbound hm)
  obtain ⟨s, t, ht, _, hd, hr, hret⟩ := run_refines hf.ready
  obtain ⟨s', t₂, ht₂, _, _, hr', hret'⟩ := run_refines (renamed_fresh hf ρ).ready
  obtain ⟨roots, hroots, hmem, hsorted⟩ := renamed_outputs hρ hb
  -- the second traversal, read back on the original gates
  have hback : ∃ t', visitAll map.wiring ((map.renamed ρ).size + 1) roots State.start = some t' ∧
      t₂ = t'.rename (extend map ρ bound) := by
    have hren := visitAll_rename (extend_injective hρ hb) (renamed_wiring hρ hb hid hcl)
      ((map.renamed ρ).size + 1) roots State.start
    rw [hroots] at hren
    rw [SimMap.traversal] at ht₂
    rw [show (State.start : State Id).rename (extend map ρ bound) = State.start from rfl,
      ht₂] at hren
    obtain ⟨t', ht', he⟩ := Option.map_eq_some_iff.mp hren.symm
    exact ⟨t', ht', he.symm⟩
  obtain ⟨t', ht', rfl⟩ := hback
  have hout : map.outputs.Pairwise (· < ·) := filter_ids_sorted map _
  have hfilter : map.outputs.filter (map.SharesLoop o) = roots.filter (map.SharesLoop o) := by
    refine (hout.filter _).eq_of_mem_iff (r := (· < ·)) ?_ ?_
    · refine (hsorted.filter _).imp_of_mem fun {p q} hp hq hpq => ?_
      simp only [List.mem_filter, decide_eq_true_eq, hmem] at hp hq
      obtain ⟨it, hit, _⟩ := mem_outputs.mp hp.1
      obtain ⟨it', hit', _⟩ := mem_outputs.mp hq.1
      rw [extend_of_find hit, extend_of_find hit'] at hpq
      rcases Nat.lt_trichotomy p q with h | rfl | h
      · exact h
      · exact absurd hpq (lt_irrefl _)
      · exact absurd (hord q hq.1 p hp.1 hq.2 hp.2 h) (not_lt.mpr hpq.le)
    · intro r
      simp only [List.mem_filter, hmem]
  have hhead := head_of_roots hf hid ht ht' (fun _ => inner_of_mem_outputs) ho ((hmem o).mpr ho)
    hfilter
  obtain ⟨a, b, hG⟩ := inner_of_mem_outputs ho
  obtain ⟨it, hit, _⟩ := mem_outputs.mp ho
  have hinner : Inner (map.renamed ρ).wiring (extend map ρ bound o) := by
    rw [Demand.Inner, renamed_wiring hρ hb hid hcl o, hG]
    exact ⟨_, _, rfl⟩
  have hρo : extend map ρ bound o = ρ o := extend_of_find hit
  refine ⟨s, s', hret, hret', ?_⟩
  rw [← hρo, hr'.getValue_inner hinner, hr.getValue_inner ⟨a, b, hG⟩, hhead,
    show (t'.rename (extend map ρ bound)).prog = t'.prog.map (Instr.rename (extend map ρ bound))
      from rfl, run_renamed hρ hb (visitAll_spec (Done.start _) ht').1.ok.valid]

/-- A `NOT` and an `OR` in a loop, each read by an `OUTPUT`. -/
def crossLoop : SimMap := .ofGates
  [(.not, 1, 2, 0), (.or, 2, 1, 1), (.output, 3, 1, 0), (.output, 4, 2, 0)]

/-- New ids that swap the two gates around and keep the order of the outputs. -/
def crossLabels (id : Id) : Id := if id = 1 then 7 else if id = 2 then 1 else id + 1

theorem sim_renamed_crossLoop : ∃ s s',
    Returns (fun fuel => SimState.run fuel (.start crossLoop)) s ∧
    Returns (fun fuel => SimState.run fuel (.start (crossLoop.renamed crossLabels))) s' ∧
    s'.sim.getValue (crossLabels 3) = s.sim.getValue 3 := by
  refine sim_renamed crossLoop (by decide) (by decide) (by decide) crossLabels (by decide) 3
    (by decide) ?_
  have h : ∀ p ∈ crossLoop.outputs, ∀ q ∈ crossLoop.outputs, p < q →
      crossLabels p < crossLabels q := by decide
  exact fun p hp q hq _ _ hpq => h p hp q hq hpq

/-- With the ids of its two `OUTPUT` gates swapped the loop is entered at the
other gate. -/
theorem crossLoop_relabelled :
    crossLoop.Fresh ∧ crossLoop.NonzeroIds ∧ crossLoop.Closed ∧
    Relabels crossLoop (Equiv.swap 3 4) ∧ 3 ∈ crossLoop.outputs ∧
    ∃ s s', Returns (fun fuel => SimState.run fuel (.start crossLoop)) s ∧
      Returns (fun fuel => SimState.run fuel (.start (crossLoop.renamed (Equiv.swap 3 4)))) s' ∧
      s'.sim.getValue (Equiv.swap 3 4 3) ≠ s.sim.getValue 3 := by
  obtain ⟨s, hs, h⟩ := SimState.exists_returns (n := 5) (s := .start crossLoop)
    (P := fun s => s.sim.getValue 3 = .low) (by decide)
  obtain ⟨s', hs', h'⟩ := SimState.exists_returns (n := 5)
    (s := .start (crossLoop.renamed (Equiv.swap 3 4)))
    (P := fun s => s.sim.getValue (Equiv.swap 3 4 3) = .high) (by decide)
  exact ⟨by decide, by decide, by decide, by decide, by decide, s, s', hs, hs', by
    rw [h, h']; decide⟩

end SimGate

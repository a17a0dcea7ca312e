import SimGate.Schedule

/-!
# The Boolean semantics of a loop-free circuit

`Denotes map id b` is the plain recursive meaning of a circuit.  On a map
without feedback loops a simulator run never cuts, so every evaluation of a
gate, first or repeated, gives the gate's meaning (`sim_denotes`).
-/

namespace SimGate

open StraightLine Demand Execution Relation

def ofBool (b : Bool) : CommonValueOutput := if b then .high else .low

/-- The truth function of a gate; unused inputs are ignored. -/
def truth : CommonGateType → Bool → Bool → Bool
  | .and, a, b => a && b
  | .nand, a, b => !(a && b)
  | .or, a, b => a || b
  | .nor, a, b => !(a || b)
  | .xor, a, b => a ^^ b
  | .not, a, _ => !a
  | .highState, _, _ => true
  | .lowState, _, _ => false
  | .output, a, _ | .enumSize, a, _ => a

theorem ofBool_injective {a b : Bool} (h : ofBool a = ofBool b) : a = b := by
  cases a <;> cases b <;> simp_all [ofBool]

/-- On the bytes 0 and 0xFF the callbacks compute the truth functions. -/
theorem callback_truth (type : CommonGateType) (a b : Bool) :
    levelOf (getCallback type (ofBool a) (ofBool b)) = ofBool (truth type a b) := by
  cases type <;> cases a <;> cases b <;> rfl

/-- The value of a gate, and of an input reference: an unconnected or absent
input counts as `LOW`. -/
inductive Denotes (map : SimMap) : Id → Bool → Prop
  | unconnected : Denotes map gNotValidGateId false
  | absent {id : Id} : map.find? id = none → Denotes map id false
  | high {id : Id} {it : Entry} : map.find? id = some it → it.first.type = .highState →
      Denotes map id true
  | low {id : Id} {it : Entry} : map.find? id = some it → it.first.type = .lowState →
      Denotes map id false
  | gate {id : Id} {it : Entry} {a b : Bool} : map.find? id = some it →
      it.first.isInput = false → Denotes map it.second.1 a → Denotes map it.second.2 b →
      Denotes map id (truth it.first.type a b)

def SimMap.NonzeroIds (map : SimMap) : Prop := ∀ it ∈ map.elems, it.id ≠ gNotValidGateId

instance (map : SimMap) : Decidable map.NonzeroIds := by
  unfold SimMap.NonzeroIds; infer_instance

def SimMap.Acyclic (map : SimMap) : Prop := ∀ id, ¬ TransGen (Reads map.wiring) id id

/-- No gate that `id` reads, directly or transitively, is on a feedback loop. -/
def SimMap.LoopFree (map : SimMap) (id : Id) : Prop :=
  ∀ l, Reach map.wiring id l → ¬ TransGen (Reads map.wiring) l l

theorem SimMap.LoopFree.reads {map : SimMap} {n c : Id} (h : map.LoopFree n)
    (hr : Reads map.wiring n c) : map.LoopFree c :=
  fun l hl => h l (ReflTransGen.head hr hl)

/-- A rank that falls along every connection excludes feedback loops. -/
theorem SimMap.acyclic_of_rank {map : SimMap} (rank : Id → Nat)
    (h : ∀ it ∈ map.elems, it.first.isInput = false →
      (map.find? it.second.1 ≠ none → rank it.second.1 < rank it.id) ∧
      (map.find? it.second.2 ≠ none → rank it.second.2 < rank it.id)) : map.Acyclic := by
  have hstep : ∀ n m, Reads map.wiring n m → rank m < rank n := by
    rintro n m ⟨a, b, hG, hm, hne⟩
    obtain ⟨it, hit, hi, hsec⟩ := wiring_inner hG
    have hr := h it (KeySet.mem_of_find? hit) hi
    rw [hsec, KeySet.key_of_find? hit] at hr
    have hfind : map.find? m ≠ none := fun hn => hne (wiring_eq_none.mpr hn)
    rcases hm with rfl | rfl
    · exact hr.1 hfind
    · exact hr.2 hfind
  have hpath : ∀ n m, TransGen (Reads map.wiring) n m → rank m < rank n := by
    intro n m hnm
    induction hnm with
    | single h => exact hstep _ _ h
    | tail _ h ih => exact (hstep _ _ h).trans ih
  exact fun id hid => lt_irrefl _ (hpath id id hid)

theorem Denotes.unique {map : SimMap} (hid : map.NonzeroIds) {id : Id} {a b : Bool}
    (ha : Denotes map id a) (hb : Denotes map id b) : a = b := by
  have hzero : ∀ it, map.find? gNotValidGateId ≠ some it := fun it h =>
    hid it (KeySet.mem_of_find? h) (KeySet.key_of_find? h)
  induction ha generalizing b with
  | unconnected =>
    cases hb with
    | unconnected => rfl
    | absent => rfl
    | high h => exact absurd h (hzero _)
    | low h => exact absurd h (hzero _)
    | gate h => exact absurd h (hzero _)
  | absent hn => cases hb <;> simp_all
  | high h ht =>
    cases hb with
    | unconnected => exact absurd h (hzero _)
    | absent hn => simp [h] at hn
    | high => rfl
    | low h' ht' =>
      rw [h] at h'
      cases h'
      simp [ht] at ht'
    | gate h' hi =>
      rw [h] at h'
      cases h'
      simp [CommonData.isInput, ht] at hi
  | low h ht =>
    cases hb with
    | unconnected => rfl
    | absent hn => rfl
    | high h' ht' =>
      rw [h] at h'
      cases h'
      simp [ht] at ht'
    | low => rfl
    | gate h' hi =>
      rw [h] at h'
      cases h'
      simp [CommonData.isInput, ht] at hi
  | gate h hi _ _ ih₁ ih₂ =>
    cases hb with
    | unconnected => exact absurd h (hzero _)
    | absent hn => simp [h] at hn
    | high h' ht =>
      rw [h] at h'
      cases h'
      simp [CommonData.isInput, ht] at hi
    | low h' ht =>
      rw [h] at h'
      cases h'
      simp [CommonData.isInput, ht] at hi
    | gate h' _ ha hb =>
      rw [h] at h'
      cases h'
      rw [ih₁ ha, ih₂ hb]

/-- `v` is the level of the meaning of `id`. -/
def Meaning (map : SimMap) (id : Id) (v : CommonValueOutput) : Prop :=
  ∃ b, Denotes map id b ∧ v = ofBool b

/-- A fresh input gate carries its meaning. -/
theorem Meaning.leaf {map : SimMap} (hf : map.Fresh) {id : Id}
    (h : map.wiring id = some .leaf) : Meaning map id (map.outOf id) := by
  obtain ⟨it, hit, hi⟩ := wiring_leaf h
  have hd := hf it (KeySet.mem_of_find? hit)
  rw [outOf_of_find hit, ← hd]
  rcases it.first.isInput_iff.mp hi with ht | ht
  · exact ⟨true, .high hit ht, by simp [CommonData.defaultValue, ht, ofBool]⟩
  · exact ⟨false, .low hit ht, by simp [CommonData.defaultValue, ht, ofBool]⟩

/-- Without feedback loops no operand of the schedule is a cut, so what an
instruction reads for an input is the meaning of that input. -/
theorem operand_meaning {map : SimMap} (hf : map.Fresh) {n c : Id} (hac : map.LoopFree n)
    (hread : Inner map.wiring c → Reads map.wiring n c) {o : Operand Id}
    (ho : OperandOf map.wiring n c o) {v : CommonValueOutput}
    (hv : o.Sat map.interp (fun n v => map.LoopFree n → Meaning map n v) v) :
    Meaning map c v := by
  cases o with
  | absent => exact ⟨false, .absent (wiring_eq_none.mp ho), hv⟩
  | leaf m =>
    obtain ⟨rfl, hl⟩ := ho
    rw [hv]
    exact Meaning.leaf hf hl
  | cut m =>
    obtain ⟨rfl, hi, hr⟩ := ho
    exact absurd (TransGen.head' (hread hi) hr) (hac n .refl)
  | value m j =>
    obtain ⟨rfl, hi⟩ := ho
    exact hv (hac.reads (hread hi))

/-- Every evaluation of a gate that reads no loop gives the gate's meaning. -/
theorem run_meaning {map : SimMap} (hf : map.Fresh) {t : State Id} (hk : Ok map.wiring t) :
    ∀ n, ∀ v ∈ run map.interp t.prog n, map.LoopFree n → Meaning map n v := by
  refine run_invariant (P := fun n v => map.LoopFree n → Meaning map n v) hk.valid ?_
  intro i hi a b ha hb hac
  obtain ⟨x, y, hG, hx, hy⟩ := hk.operands i hi
  obtain ⟨it, hit, hin, hsec⟩ := wiring_inner hG
  obtain ⟨p, hp, rfl⟩ := operand_meaning hf hac (reads_left hG) hx ha
  obtain ⟨q, hq, rfl⟩ := operand_meaning hf hac (reads_right hG) hy hb
  refine ⟨truth it.first.type p q, .gate hit hin (by rwa [hsec]) (by rwa [hsec]), ?_⟩
  rw [interp_apply, typeOf_of_find hit, callback_truth]

/-- **Loop-free circuits.**  After `Sim` on a fresh map without feedback loops,
every gate that an `OUTPUT` reads is reported with its Boolean meaning. -/
theorem sim_denotes (map : SimMap) (hid : map.NonzeroIds) (hac : map.Acyclic)
    (hf : map.Fresh) :
    ∃ s, Returns (fun fuel => SimState.run fuel (.start map)) s ∧
      ∀ id, map.ReadByOutput id →
        ∃ b, (∀ c, Denotes map id c ↔ c = b) ∧ s.sim.getValue id = ofBool b := by
  obtain ⟨s, t, ht, _, hd, hr, hret⟩ := run_refines hf.ready
  refine ⟨s, hret, fun id hio => ?_⟩
  have hrep : Meaning map id (s.sim.getValue id) := by
    rcases hr.reported ht hio with ⟨_, hm⟩ | ⟨hl, hv⟩
    · exact run_meaning hf hd.ok id _ hm (fun l _ => hac l)
    · rw [hv]
      exact Meaning.leaf hf hl
  obtain ⟨b, hb, hv⟩ := hrep
  refine ⟨b, fun c => ⟨fun hc => hc.unique hid hb, ?_⟩, hv⟩
  rintro rfl
  exact hb

/-- A half adder: the two input gates are shared by both outputs. -/
def halfAdder : SimMap := .ofGates
  [(.highState, 1, 0, 0), (.lowState, 2, 0, 0), (.xor, 3, 1, 2), (.and, 4, 1, 2),
    (.output, 5, 3, 0), (.output, 6, 4, 0)]

theorem sim_denotes_halfAdder : halfAdder.NonzeroIds ∧ halfAdder.Fresh ∧
    ∃ s, Returns (fun fuel => SimState.run fuel (.start halfAdder)) s ∧
      ∀ id, halfAdder.ReadByOutput id →
        ∃ b, (∀ c, Denotes halfAdder id c ↔ c = b) ∧ s.sim.getValue id = ofBool b :=
  ⟨by decide, by decide, sim_denotes halfAdder (by decide)
    (SimMap.acyclic_of_rank (fun id => id) (by decide)) (by decide)⟩

end SimGate

import Mathlib.Data.List.Basic
import SimGate.HitBox

/-!
# What a replay does to the slots

The loader replays a list of recorded connections, pairs of a gate id and the
id it reads, as clicks.  A `Board` is what matters to it: which slot reads which
id, and what the click handler holds between two pairs.

* `replay_idle`: with an idle handler the slots of a gate are filled in the
  order of its pairs;
* `used_replay_le`, `used_stale`: with a leftover input the first pair is lost.
-/

namespace SimGate

/-- The click handler between two pairs: nothing pending, an input pending that
is gone, or the output of a gate pending. -/
inductive Handler
  | idle | staleInput
  | output (id : Id)
  deriving DecidableEq, Repr

structure Board where
  slot : Id → HitBoxType → Option Id
  handler : Handler

namespace Board

def bare (handler : Handler) : Board := ⟨fun _ _ => none, handler⟩

def put (id : Id) (slot : HitBoxType) (source : Id) (b : Board) : Board :=
  { b with slot := fun i t => if i = id ∧ t = slot then some source else b.slot i t }

/-- The slot the loader clicks: the second one when the first is taken. -/
def pick (b : Board) (id : Id) : HitBoxType :=
  if b.slot id .input1 = none then .input1 else .input2

/-- The two clicks of one pair.  A pending output meets the input of the next pair. -/
def replay (b : Board) (pair : Id × Id) : Board :=
  match b.handler with
  | .idle => b.put pair.1 (b.pick pair.1) pair.2
  | .staleInput => { b with handler := .output pair.2 }
  | .output x =>
    { (if x = pair.1 then b else b.put pair.1 (b.pick pair.1) x) with handler := .output pair.2 }

/-- The ids recorded for a gate. -/
def reads (id : Id) (pairs : List (Id × Id)) : List Id :=
  (pairs.filter fun pair => pair.1 = id).map Prod.snd

theorem reads_cons (id : Id) (pair : Id × Id) (pairs : List (Id × Id)) :
    reads id (pair :: pairs) =
      if pair.1 = id then pair.2 :: reads id pairs else reads id pairs := by
  by_cases h : pair.1 = id <;> simp [reads, h]

theorem reads_append (id : Id) (pairs pairs' : List (Id × Id)) :
    reads id (pairs ++ pairs') = reads id pairs ++ reads id pairs' := by
  simp [reads]

/-! ## An idle handler -/

/-- The slots of every gate hold the first two of the given ids. -/
structure Holds (b : Board) (ids : Id → List Id) : Prop where
  handler : b.handler = .idle
  first : ∀ id, b.slot id .input1 = (ids id)[0]?
  second : ∀ id, b.slot id .input2 = (ids id)[1]?
  output : ∀ id, b.slot id .output = none

theorem Holds.replay {b : Board} {ids : Id → List Id} (hb : b.Holds ids) {pair : Id × Id}
    (hlen : (ids pair.1).length ≤ 1) :
    (b.replay pair).Holds fun id => if pair.1 = id then ids id ++ [pair.2] else ids id := by
  obtain ⟨id, source⟩ := pair
  have hpick : b.pick id = if ids id = [] then .input1 else .input2 := by
    rw [pick, hb.first]
    cases ids id <;> rfl
  have hreplay : b.replay (id, source) = b.put id (b.pick id) source := by
    simp only [Board.replay, hb.handler]
  rw [hreplay, hpick]
  refine ⟨hb.handler, fun i => ?_, fun i => ?_, fun i => ?_⟩ <;>
    by_cases hi : i = id
  · subst hi
    cases hids : ids i with
    | nil => simp [put]
    | cons x l => simp [put, hids, hb.first]
  · simp [put, hi, Ne.symm hi, hb.first]
  · subst hi
    cases hids : ids i with
    | nil => simp [put, hids, hb.second]
    | cons x l =>
      have hl : l = [] := List.length_eq_zero_iff.mp (by simpa [hids] using hlen)
      simp [put, hl]
  · simp [put, hi, Ne.symm hi, hb.second]
  · subst hi
    cases ids i <;> simp [put, hb.output]
  · simp [put, hi, hb.output]

/-- **An idle replay.**  Every gate reads what was recorded for it, from its
first slot on. -/
theorem replay_idle {pairs : List (Id × Id)} (hlen : ∀ id, (reads id pairs).length ≤ 2) :
    (pairs.foldl replay (bare .idle)).Holds fun id => reads id pairs := by
  induction pairs using List.reverseRecOn with
  | nil => exact ⟨rfl, fun _ => rfl, fun _ => rfl, fun _ => rfl⟩
  | append_singleton pairs pair ih =>
    have hsnoc : ∀ id, reads id (pairs ++ [pair]) =
        if pair.1 = id then reads id pairs ++ [pair.2] else reads id pairs := by
      intro id
      rw [reads_append, reads_cons]
      split
      · rfl
      · exact List.append_nil _
    have hle : ∀ id, (reads id pairs).length ≤ 2 := by
      intro id
      have h := hlen id
      rw [reads_append, List.length_append] at h
      omega
    have hlast : (reads pair.1 pairs).length ≤ 1 := by
      have h := hlen pair.1
      rw [hsnoc, if_pos rfl, List.length_append] at h
      simpa using h
    rw [List.foldl_append, List.foldl_cons, List.foldl_nil]
    simpa only [hsnoc] using (ih hle).replay hlast

/-! ## Counting -/

/-- The number of input slots of a gate that are taken. -/
def used (b : Board) (id : Id) : Nat :=
  (b.slot id .input1).toList.length + (b.slot id .input2).toList.length

theorem used_put_le (b : Board) (id : Id) (slot : HitBoxType) (source i : Id) :
    (b.put id slot source).used i ≤ b.used i + if i = id then 1 else 0 := by
  by_cases hi : i = id
  · cases slot with
    | input1 => simp [used, put, hi]; omega
    | input2 => simp [used, put, hi]
    | output => simp [used, put, hi]
  · simp [used, put, hi]

theorem used_replay_step (b : Board) (pair : Id × Id) (id : Id) :
    (b.replay pair).used id ≤ b.used id + if pair.1 = id then 1 else 0 := by
  have hput := b.used_put_le pair.1 (b.pick pair.1)
  simp only [eq_comm (a := pair.1)]
  unfold replay
  split
  · exact hput pair.2 id
  · exact Nat.le_add_right _ _
  · next x _ =>
    split
    · exact Nat.le_add_right _ _
    · exact hput x id

theorem used_replay_le (pairs : List (Id × Id)) (b : Board) (id : Id) :
    (pairs.foldl replay b).used id ≤ b.used id + (reads id pairs).length := by
  induction pairs generalizing b with
  | nil => simp [reads]
  | cons pair pairs ih =>
    have hstep := b.used_replay_step pair id
    have hrest := ih (b.replay pair)
    rw [List.foldl_cons, reads_cons]
    split at hstep
    · next h => rw [if_pos h, List.length_cons]; omega
    · next h => rw [if_neg h]; omega

/-- **A leftover input.**  The gate of the first pair ends with fewer connections
than recorded. -/
theorem used_stale (pair : Id × Id) (pairs : List (Id × Id)) :
    ((pair :: pairs).foldl replay (bare .staleInput)).used pair.1 <
      (reads pair.1 (pair :: pairs)).length := by
  have h := used_replay_le pairs ((bare .staleInput).replay pair) pair.1
  have h0 : ((bare .staleInput).replay pair).used pair.1 = 0 := rfl
  rw [List.foldl_cons, reads_cons, if_pos rfl, List.length_cons]
  omega

theorem Holds.used_eq {b : Board} {ids : Id → List Id} (hb : b.Holds ids) {id : Id}
    (hlen : (ids id).length ≤ 2) : b.used id = (ids id).length := by
  rw [used, hb.first, hb.second]
  match hids : ids id with
  | [] => rfl
  | [_] => rfl
  | [_, _] => rfl
  | _ :: _ :: _ :: _ =>
    rw [hids] at hlen
    simp only [List.length_cons] at hlen
    omega

end Board

end SimGate

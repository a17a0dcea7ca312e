import SimGate.Returning

/-!
# Gates that no output reads

A run evaluates the `OUTPUT` gates and what they read, directly or transitively.
The other gates are reported as `UNKNOWN` (`reports_unread`), and they may be
added, dropped and rewired without any other report changing (`reports_congr`).
-/

namespace SimGate

open Demand Execution

/-- A fresh simulator, after a run on the map, has the value `v` for the gate. -/
def SimMap.Reports (map : SimMap) (id : Id) (v : CommonValueOutput) : Prop :=
  ∃ s, Returns (fun fuel => SimState.run fuel (.start map)) s ∧ s.sim.getValue id = v

theorem reports_of_run {map : SimMap} {n : Nat} {s : SimState}
    (h : SimState.run n (.start map) = .ok s) (id : Id) : map.Reports id (s.sim.getValue id) :=
  ⟨s, SimState.run_returns h, rfl⟩

theorem reports_unique {map : SimMap} {id : Id} {v w : CommonValueOutput} (hv : map.Reports id v)
    (hw : map.Reports id w) : v = w := by
  obtain ⟨s, hs, rfl⟩ := hv
  obtain ⟨t, ht, rfl⟩ := hw
  rw [hs.unique ht]

theorem reports_unread {map : SimMap} (hready : map.Ready) {id : Id}
    (hid : ¬ map.ReadByOutput id) : map.Reports id .unknown := by
  obtain ⟨s, t, ht, _, _, hr, hret⟩ := run_refines hready
  exact ⟨s, hret, hr.unreported ht hid⟩

/-! ## Two maps that agree where the outputs read -/

/-- Two states that agree on `R`, which holds what its gates read. -/
structure Alike (R : Id → Prop) (s s' : SimState) : Prop where
  sim : s.sim = s'.sim
  find : ∀ id, R id → s.map.find? id = s'.map.find? id
  closed : ∀ id it, R id → s.map.find? id = some it → R it.second.1 ∧ R it.second.2

namespace Alike

variable {R : Id → Prop} {s s' : SimState} (h : Alike R s s')

include h

theorem enter (id : Id) : Alike R (s.enter id) (s'.enter id) :=
  ⟨by simp [SimState.enter, h.sim], h.find, h.closed⟩

theorem getValue {c : Id} (hc : R c) :
    (s.getValue c).1 = (s'.getValue c).1 ∧ Alike R (s.getValue c).2 (s'.getValue c).2 := by
  have hfind := h.find c hc
  simp only [SimState.getValue, ← hfind, ← h.sim]
  cases s.map.find? c with
  | none => exact ⟨rfl, h⟩
  | some it =>
    simp only
    split_ifs
    · exact ⟨rfl, by simp, h.find, h.closed⟩
    · exact ⟨rfl, h⟩
    · exact ⟨rfl, h⟩
    · exact ⟨rfl, h⟩

theorem finish (id : Id) (a b out : CommonValueOutput) :
    Alike R (s.finish id a b out) (s'.finish id a b out) := by
  refine ⟨by simp [SimState.finish, h.sim], fun c hc => ?_, fun c it hc hit => ?_⟩
  · simp only [SimState.finish, KeySet.find?_modify, h.find c hc]
  · simp only [SimState.finish, KeySet.find?_modify] at hit
    split at hit
    · obtain ⟨e, he, rfl⟩ := Option.map_eq_some_iff.mp hit
      exact h.closed c e hc he
    · exact h.closed c it hc hit

end Alike

section

variable {R : Id → Prop}

theorem force_alike {rec : Id → SimState → Except SimFault SimState}
    (ih : ∀ {id s s'}, Alike R s s' → R id → Lockstep (Alike R) (rec id s) (rec id s'))
    (v : Option CommonValueOutput) {c : Id} (hc : R c) {s s' : SimState} (h : Alike R s s') :
    Lockstep (fun r r' => r.1 = r'.1 ∧ Alike R r.2 r'.2) (force rec v c s) (force rec v c s') := by
  cases v with
  | some x => exact .ok ⟨rfl, h⟩
  | none =>
    simp only [force, ← h.find c hc]
    split
    · exact .error _
    · refine (ih h hc).bind fun t t' ht => .ok ⟨?_, ht⟩
      rw [SimState.getOutput, SimState.getOutput, ht.find c hc]

/-- **One call** on two maps. -/
theorem simulate_alike {fuel : Nat} {id : Id} {s s' : SimState} (h : Alike R s s') (hid : R id) :
    Lockstep (Alike R) (simulate fuel id s) (simulate fuel id s') := by
  induction fuel generalizing id s s' with
  | zero => exact .error _
  | succ fuel ih =>
    simp only [simulate, ← h.find id hid]
    cases hit : s.map.find? id with
    | none => exact .error _
    | some it =>
      obtain ⟨hc₁, hc₂⟩ := h.closed id it hid hit
      obtain ⟨hv₁, h₁⟩ := (h.enter id).getValue hc₁
      obtain ⟨hv₂, h₂⟩ := h₁.getValue hc₂
      simp only [← hv₁, ← hv₂]
      refine (force_alike ih _ hc₁ h₂).bind ?_
      rintro ⟨v₁, t⟩ ⟨_, t'⟩ ⟨rfl, ht⟩
      refine (force_alike ih _ hc₂ ht).bind ?_
      rintro ⟨v₂, u⟩ ⟨_, u'⟩ ⟨rfl, hu⟩
      cases v₁ with
      | none => exact .error _
      | some a =>
        cases v₂ with
        | none => exact .error _
        | some b => exact .ok (hu.finish id a b _)

end

theorem outputs_congr {map map' : SimMap} (h : ∀ id, id ∈ map.outputs ↔ id ∈ map'.outputs) :
    map.outputs = map'.outputs := by
  have hirr : Std.Irrefl (fun a b : Id => a < b) := ⟨Nat.lt_irrefl⟩
  have hanti : Std.Antisymm (fun a b : Id => a < b) :=
    ⟨fun _ _ hab hba => absurd hab (Nat.lt_asymm hba)⟩
  exact (filter_ids_sorted map _).eq_of_mem_iff (filter_ids_sorted map' _) h

/-- **What is not read does not matter.**  Maps with the same `OUTPUT` gates and the
same entries wherever these read have the same reports. -/
theorem reports_congr {map map' : SimMap} {R : Id → Prop}
    (hroots : ∀ id, id ∈ map.outputs ∨ id ∈ map'.outputs → R id)
    (hfind : ∀ id, R id → map.find? id = map'.find? id)
    (hclosed : ∀ id it, R id → map.find? id = some it → R it.second.1 ∧ R it.second.2)
    {id : Id} {v : CommonValueOutput} (h : map.Reports id v) : map'.Reports id v := by
  obtain ⟨s, ⟨n, hn⟩, rfl⟩ := h
  have houtputs : map.outputs = map'.outputs := by
    refine outputs_congr fun id => ?_
    constructor <;> intro hid
    · have hR := hroots id (Or.inl hid)
      rw [mem_outputs] at hid ⊢
      rwa [← hfind id hR]
    · have hR := hroots id (Or.inr hid)
      rw [mem_outputs] at hid ⊢
      rwa [hfind id hR]
  have hrun : ∀ m : SimMap, SimState.run n (.start m) =
      m.outputs.foldlM (fun s id => simulate n id s) (.start m) :=
    fun m => simLoop_eq_foldlM n m.elems (.start m)
  have hok : SimState.run n (.start map) = .ok s := hn n (Nat.le_refl n)
  have halike : Alike R (.start map) (.start map') := ⟨rfl, hfind, hclosed⟩
  have hstep : Lockstep (Alike R) (SimState.run n (.start map)) (SimState.run n (.start map')) := by
    rw [hrun, hrun, ← houtputs]
    refine Lockstep.foldlM (fun id hid t t' ht => ?_) halike
    exact simulate_alike ht (hroots id (Or.inl hid))
  rw [hok] at hstep
  generalize hr : SimState.run n (.start map') = r at hstep
  cases hstep with
  | ok hs =>
    rw [hs.sim]
    exact reports_of_run hr id

end SimGate

import SimGate.CircuitRefinement
import SimGate.Reloading

/-!
# Simulating and saving a loaded project

A scheme can be saved when its second inputs are connected, but its connections are moved
to the first inputs when the file is loaded.  Here the ids of the scheme are distinct and
no click is pending before the load.

* `reload_readable`: the loaded scheme gives the simulator and the table the map of the
  saved one, or else simulating it and saving it follow a null pointer;
* `resave_iff`: when saving the loaded scheme writes what was written before;
* `reload_settles`: after one load, saving and loading again changes nothing.
-/

namespace SimGate

open Execution

namespace Area

/-! ## Schemes that cannot be read -/

/-- The only way in which reading the connections fails. -/
theorem WellFormed.createSimMap_null {a : Area} (ha : a.WellFormed) (h : ¬ a.SecondsConnected) :
    a.createSimMap = .error .nullPointer := by
  cases hm : a.createSimMap with
  | ok map => exact absurd (ha.secondsConnected_of_map hm) h
  | error e =>
    refine congrArg Except.error (foldlM_error (P := fun e => e = Fault.nullPointer) ?_ hm)
    intro g hg map e he
    rw [ha.inputIds_eq hg] at he
    split at he
    · cases he
      rfl
    · cases he

theorem WellFormed.saveProject_null {a : Area} (ha : a.WellFormed) (h : ¬ a.SecondsConnected) :
    a.saveProject = .error .nullPointer := by
  cases hs : a.saveProject with
  | ok file => exact absurd (ha.secondsConnected hs) h
  | error e =>
    rw [saveProject] at hs
    cases hm : a.m_gates.elems.mapM a.saveGate with
    | ok entities =>
      rw [hm] at hs
      cases hs
    | error e' =>
      rw [hm] at hs
      cases hs
      refine congrArg Except.error (mapM_error (P := fun e => e = Fault.nullPointer) ?_ hm)
      intro g hg e he
      rw [ha.saveGate_eq hg] at he
      split at he
      · cases he
        rfl
      · cases he

/-! ## The slots of a loaded scheme -/

section

variable {a b : Area} (ha : a.WellFormed) (hd : a.DistinctIds)
  (hshows : b.Shows (a.allRecorded.foldl Board.replay (.bare .idle))) {g h : Gate}
  (hg : g ∈ a.m_gates.elems) (hh : h ∈ b.m_gates.elems) (hcopy : Copy g h)

include hd hshows hg hh hcopy

theorem reloaded_slots :
    wiredId (b.slotId h .input1) = (a.sources g)[0]? ∧
      wiredId (b.slotId h .input2) = (a.sources g)[1]? := by
  obtain ⟨h1, h2, _⟩ := idle_slots hd hg
  have hslot : ∀ slot, wiredId (b.slotId h slot) =
      (a.allRecorded.foldl Board.replay (.bare .idle)).slot g.id slot := by
    intro slot
    refine Option.ext fun y => ?_
    rw [wiredId_eq_some, ← wired_slotId hshows.wellFormed hshows.distinct hh, hcopy.id,
      hshows.slots]
  exact ⟨(hslot .input1).trans h1, (hslot .input2).trans h2⟩

include ha

/-- The second slot is connected only if both were. -/
theorem reloaded_second :
    b.Connected h .input2 ↔ a.Connected g .input1 ∧ a.Connected g .input2 := by
  have h2 := (reloaded_slots hd hshows hg hh hcopy).2
  rw [hshows.wellFormed.connected_slotId, ha.connected_slotId, ha.connected_slotId]
  have hsome : b.slotId h .input2 ≠ gNotValidGateId ↔ (a.sources g)[1]? ≠ none := by
    rw [← h2, wiredId]
    split <;> simp_all
  rw [hsome, sources]
  by_cases hx : a.slotId g .input1 = gNotValidGateId <;>
    by_cases hy : a.slotId g .input2 = gNotValidGateId <;> simp [hx, hy]

theorem reloaded_slotId (hcond : a.Connected g .input2 → a.Connected g .input1) :
    ∀ slot, b.slotId h slot = a.slotId g slot := by
  have hinj : ∀ {x y : Id}, wiredId x = wiredId y → x = y := by
    intro x y hxy
    unfold wiredId at hxy
    split at hxy <;> split at hxy <;> simp_all
  rw [ha.connected_slotId, ha.connected_slotId] at hcond
  obtain ⟨h1, h2⟩ := reloaded_slots hd hshows hg hh hcopy
  obtain ⟨hs1, hs2⟩ := sources_getElem (a := a) (g := g) fun hx =>
    not_not.mp fun hy => hcond hy hx
  intro slot
  cases slot with
  | input1 => exact hinj (h1.trans hs1)
  | input2 => exact hinj (h2.trans hs2)
  | output => rw [hshows.wellFormed.slotId_output, ha.slotId_output]

end

/-! ## The loaded scheme -/

section

variable {a b : Area} (ha : a.WellFormed) (hd : a.DistinctIds) (hcopies : Copies a b)
  (hshows : b.Shows (a.allRecorded.foldl Board.replay (.bare .idle)))

include ha hd hcopies hshows

theorem reloaded_secondsConnected_iff (hc : a.SecondsConnected) :
    b.SecondsConnected ↔ ∀ g ∈ a.m_gates.elems, a.Connected g .input2 → a.Connected g .input1 := by
  constructor
  · intro hb g hg h2
    obtain ⟨h, hh, hcopy⟩ := hcopies.copied g hg
    have htwo : twoInputs g.type := by
      rw [ha.connected_iff] at h2
      have hslot : .input2 ∈ hitBoxTypes g.type := by
        by_contra hslot
        exact h2 (ha.source_of_missing hg hslot)
      simpa [twoInputs] using hslot
    exact ((reloaded_second ha hd hshows hg hh hcopy).mp (hb h hh (hcopy.type ▸ htwo))).1
  · intro hcond h hh htwo
    obtain ⟨g, hg, hcopy⟩ := hcopies.original h hh
    have h2 := hc g hg (hcopy.type ▸ htwo)
    exact (reloaded_second ha hd hshows hg hh hcopy).mpr ⟨hcond g hg h2, h2⟩

theorem reloaded_simMap
    (hcond : ∀ g ∈ a.m_gates.elems, a.Connected g .input2 → a.Connected g .input1) :
    b.simMap = a.simMap := by
  refine KeySet.ext_find fun id => ?_
  by_cases hid : ∃ g ∈ a.m_gates.elems, g.id = id
  · obtain ⟨g, hg, rfl⟩ := hid
    obtain ⟨h, hh, hcopy⟩ := hcopies.copied g hg
    have hentry : b.entry h = a.entry g :=
      entry_congr hcopy.type hcopy.id (reloaded_slotId ha hd hshows hg hh hcopy (hcond g hg))
    rw [hd.find_simMap hg, ← hcopy.id, hshows.distinct.find_simMap hh, hentry]
  · have hnone : ∀ {c : Area}, (∀ g ∈ c.m_gates.elems, g.id ≠ id) → c.simMap.find? id = none := by
      intro c hne
      rw [find_simMap, Option.map_eq_none_iff, getGate, List.find?_eq_none]
      exact fun g hg => by simpa using hne g hg
    rw [hnone fun g hg he => hid ⟨g, hg, he⟩, hnone fun h hh he => ?_]
    obtain ⟨g, hg, hcopy⟩ := hcopies.original h hh
    exact hid ⟨g, hg, hcopy.id.symm.trans he⟩

end

/-- **Simulating a loaded project**, whose ids are distinct and which is loaded with no click
pending.  The simulator and the table get the map that the saved scheme gave them; but if a
gate had only its second input connected, simulating the loaded scheme, opening its table
and saving it again follow a null pointer. -/
theorem reload_readable {a a₀ : Area} {file : List Element} (ha : a.WellFormed)
    (hd : a.DistinctIds) (hsave : a.saveProject = .ok file) (ha₀ : a₀.WellFormed)
    (hin : a₀.scene.input = none) (hout : a₀.scene.output = none) (reader : Element) :
    ∃ b, Returns (fun fuel => a₀.loadProject fuel (some file) reader) b ∧
      ((∀ g ∈ a.m_gates.elems, a.Connected g .input2 → a.Connected g .input1) →
        b.createSimMap = a.createSimMap) ∧
      ((∃ g ∈ a.m_gates.elems, a.Connected g .input2 ∧ ¬ a.Connected g .input1) →
        b.createSimMap = .error .nullPointer ∧ b.saveProject = .error .nullPointer) := by
  obtain ⟨b, hret, hcopies, hshows⟩ :=
    load_returns ha hd hsave ha₀ reader fun h => absurd hout h.2
  rw [leftover_idle hin] at hshows
  have hc := ha.secondsConnected hsave
  have hiff := reloaded_secondsConnected_iff ha hd hcopies hshows hc
  have hb := hshows.wellFormed
  refine ⟨b, hret, fun hcond => ?_, ?_⟩
  · rw [hb.createSimMap_eq (hiff.mpr hcond), ha.createSimMap_eq hc]
    exact congrArg Except.ok (reloaded_simMap ha hd hcopies hshows hcond)
  · rintro ⟨g, hg, h2, h1⟩
    have hnot : ¬ b.SecondsConnected := fun hall => h1 (hiff.mp hall g hg h2)
    exact ⟨hb.createSimMap_null hnot, hb.saveProject_null hnot⟩

/-- The AND gate of `lowerAnd` is saved, loaded and then simulated. -/
theorem reload_readable_lowerAnd :
    ∃ a file b, create [7, 8, 9] >>= runs step lowerAnd = .ok a ∧ a.saveProject = .ok file ∧
      Returns (fun fuel => a.loadProject fuel (some file) .endFile) b ∧
      (∃ map, a.createSimMap = .ok map) ∧ b.createSimMap = .error .nullPointer ∧
      b.saveProject = .error .nullPointer := by
  obtain ⟨a, file, map, hrun, hsave, hmap, hin, hout, g, hg, h1, h2⟩ : ∃ a file map,
      create [7, 8, 9] >>= runs step lowerAnd = .ok a ∧ a.saveProject = .ok file ∧
      a.createSimMap = .ok map ∧ a.scene.input = none ∧ a.scene.output = none ∧
      ∃ g ∈ a.m_gates.elems, a.slotId g .input1 = 0 ∧ a.slotId g .input2 ≠ 0 :=
    ⟨_, _, _, rfl, rfl, rfl, rfl, rfl, by decide⟩
  obtain ⟨ha, hd⟩ := runs_distinctIds (by decide) hrun
  have hw := ha.wellFormed
  obtain ⟨b, hret, _, hnull⟩ := reload_readable hw hd hsave hw hin hout .endFile
  have hlower : a.Connected g .input2 ∧ ¬ a.Connected g .input1 := by
    rw [hw.connected_slotId, hw.connected_slotId]
    exact ⟨h2, not_not.mpr h1⟩
  exact ⟨a, file, b, hrun, hsave, hret, ⟨map, hmap⟩, hnull ⟨g, hg, hlower⟩⟩

/-! ## Saving again -/

/-- The two schemes write the same records, in any order. -/
def SavesAlike (a b : Area) : Prop :=
  (b.m_gates.elems.map b.saved).Perm (a.m_gates.elems.map a.saved)

theorem saved_id {a b : Area} {g g' : Gate} (h : a.saved g = b.saved g') : g.id = g'.id := by
  simpa [saved] using congrArg List.head? h

theorem DistinctIds.nodup_saved {a : Area} (hd : a.DistinctIds) :
    (a.m_gates.elems.map a.saved).Nodup :=
  a.m_gates.nodup.map_on fun g hg g' hg' h => hd g hg g' hg' (saved_id h)

theorem Copy.saved_iff {a b : Area} {g h : Gate} (hcopy : Copy g h)
    (hslot : ∀ slot, b.slotId h slot = a.slotId g slot) :
    b.saved h = a.saved g ↔ (g.x = 0 ↔ g.y = 0) := by
  rw [← hcopy.placed_iff]
  simp [saved, placed, hcopy.id, hcopy.type, hslot]

theorem Copies.savesAlike {a b : Area} (hd : a.DistinctIds) (hd' : b.DistinctIds)
    (hcopies : Copies a b)
    (hsaved : ∀ g ∈ a.m_gates.elems, ∀ h ∈ b.m_gates.elems, Copy g h → b.saved h = a.saved g) :
    SavesAlike a b := by
  refine (List.perm_ext_iff_of_nodup hd'.nodup_saved hd.nodup_saved).mpr fun r => ?_
  simp only [List.mem_map]
  constructor
  · rintro ⟨h, hh, rfl⟩
    obtain ⟨g, hg, hcopy⟩ := hcopies.original h hh
    exact ⟨g, hg, (hsaved g hg h hh hcopy).symm⟩
  · rintro ⟨g, hg, rfl⟩
    obtain ⟨h, hh, hcopy⟩ := hcopies.copied g hg
    exact ⟨h, hh, hsaved g hg h hh hcopy⟩

/-- **Saving a loaded project.**  When the ids are distinct and no click was pending before
the load, it writes the records of the file again exactly when no coordinate alone is 0 and
no gate had only its second input connected. -/
theorem resave_iff {a a₀ : Area} {file : List Element} (ha : a.WellFormed)
    (hd : a.DistinctIds) (hsave : a.saveProject = .ok file) (ha₀ : a₀.WellFormed)
    (hin : a₀.scene.input = none) (hout : a₀.scene.output = none) (reader : Element) :
    (∃ b file', Returns (fun fuel => a₀.loadProject fuel (some file) reader) b ∧
      b.saveProject = .ok file' ∧ SavesAlike a b) ↔
    (∀ g ∈ a.m_gates.elems, g.x = 0 ↔ g.y = 0) ∧
      ∀ g ∈ a.m_gates.elems, a.Connected g .input2 → a.Connected g .input1 := by
  obtain ⟨b, hret, hcopies, hshows⟩ :=
    load_returns ha hd hsave ha₀ reader fun h => absurd hout h.2
  rw [leftover_idle hin] at hshows
  have hiff := reloaded_secondsConnected_iff ha hd hcopies hshows (ha.secondsConnected hsave)
  constructor
  · rintro ⟨b', file', hret', hsave', halike⟩
    cases hret.unique hret'
    have hcond := hiff.mp (hshows.wellFormed.secondsConnected hsave')
    refine ⟨fun g hg => ?_, hcond⟩
    obtain ⟨h, hh, hcopy⟩ := hcopies.copied g hg
    have hslot := reloaded_slotId ha hd hshows hg hh hcopy (hcond g hg)
    refine (hcopy.saved_iff hslot).mp ?_
    obtain ⟨g', hg', hrecord⟩ := List.mem_map.mp (halike.subset (List.mem_map_of_mem hh))
    rw [← hrecord, hd g' hg' g hg ((saved_id hrecord).trans hcopy.id)]
  · rintro ⟨hplaced, hcond⟩
    refine ⟨b, _, hret, hshows.wellFormed.saveProject_eq (hiff.mpr hcond), ?_⟩
    exact hcopies.savesAlike hd hshows.distinct fun g hg h hh hcopy =>
      (hcopy.saved_iff (reloaded_slotId ha hd hshows hg hh hcopy (hcond g hg))).mpr (hplaced g hg)

theorem resave_iff_fedAnd :
    ∃ a file, create [7, 8, 9] >>= runs step fedAnd = .ok a ∧ a.saveProject = .ok file ∧
      ∃ b file', Returns (fun fuel => a.loadProject fuel (some file) .endFile) b ∧
        b.saveProject = .ok file' ∧ SavesAlike a b := by
  obtain ⟨a, file, hrun, hsave, hin, hout, hplaced, hslots⟩ : ∃ a file,
      create [7, 8, 9] >>= runs step fedAnd = .ok a ∧ a.saveProject = .ok file ∧
      a.scene.input = none ∧ a.scene.output = none ∧
      (∀ g ∈ a.m_gates.elems, g.x = 0 ↔ g.y = 0) ∧
      ∀ g ∈ a.m_gates.elems, a.slotId g .input2 ≠ 0 → a.slotId g .input1 ≠ 0 :=
    ⟨_, _, rfl, rfl, rfl, rfl, by decide, by decide⟩
  obtain ⟨ha, hd⟩ := runs_distinctIds (by decide) hrun
  have hw := ha.wellFormed
  refine ⟨a, file, hrun, hsave, (resave_iff hw hd hsave hw hin hout .endFile).mpr
    ⟨hplaced, fun g hg h2 => ?_⟩⟩
  rw [hw.connected_slotId] at h2 ⊢
  exact hslots g hg h2

/-! ## Saving and loading over and over -/

/-- `b` is what a file that `a` saved gives when it is loaded while no click is pending. -/
def Reloads (a b : Area) : Prop :=
  ∃ (file : List Element) (a₀ : Area) (reader : Element), a.saveProject = .ok file ∧
    a₀.WellFormed ∧ a₀.scene.input = none ∧ a₀.scene.output = none ∧
    Returns (fun fuel => a₀.loadProject fuel (some file) reader) b

/-- What a load leaves of a scheme, whatever it was: no coordinate alone is 0 and no gate
has only its second input connected. -/
structure Settled (a : Area) : Prop where
  wellFormed : a.WellFormed
  distinct : a.DistinctIds
  placed : ∀ g ∈ a.m_gates.elems, g.x = 0 ↔ g.y = 0
  first : ∀ g ∈ a.m_gates.elems, a.Connected g .input2 → a.Connected g .input1

theorem Reloads.copies {a b : Area} (ha : a.WellFormed) (hd : a.DistinctIds) (h : Reloads a b) :
    Copies a b ∧ b.Shows (a.allRecorded.foldl Board.replay (.bare .idle)) := by
  obtain ⟨file, a₀, reader, hsave, ha₀, hin, hout, hret⟩ := h
  obtain ⟨b', hret', hcopies, hshows⟩ :=
    load_returns ha hd hsave ha₀ reader fun h => absurd hout h.2
  rw [leftover_idle hin] at hshows
  cases hret.unique hret'
  exact ⟨hcopies, hshows⟩

/-- What can be saved can be loaded. -/
theorem SecondsConnected.exists_reload {a : Area} (hc : a.SecondsConnected) (ha : a.WellFormed)
    (hd : a.DistinctIds) : ∃ b, Reloads a b := by
  have hsave := ha.saveProject_eq hc
  have hstart := (start_sound []).wellFormed
  obtain ⟨b, hret, _⟩ := load_returns ha hd hsave hstart .endFile fun h => absurd rfl h.2
  exact ⟨b, _, start [], .endFile, hsave, hstart, rfl, rfl, hret⟩

theorem Copy.placed_zero {g h : Gate} (hcopy : Copy g h) : h.x = 0 ↔ h.y = 0 := by
  rw [hcopy.x, hcopy.y]
  split <;> simp_all

theorem Reloads.settled {a b : Area} (ha : a.WellFormed) (hd : a.DistinctIds)
    (h : Reloads a b) : b.Settled := by
  obtain ⟨hcopies, hshows⟩ := h.copies ha hd
  refine ⟨hshows.wellFormed, hshows.distinct, fun k hk => ?_, fun k hk h2 => ?_⟩
  · obtain ⟨g, _, hcopy⟩ := hcopies.original k hk
    exact hcopy.placed_zero
  · obtain ⟨g, hg, hcopy⟩ := hcopies.original k hk
    obtain ⟨h1, h2'⟩ := (reloaded_second ha hd hshows hg hk hcopy).mp h2
    rw [hshows.wellFormed.connected_slotId, reloaded_slotId ha hd hshows hg hk hcopy fun _ => h1,
      ← ha.connected_slotId]
    exact h1

/-- Saving and loading a settled scheme changes nothing that is saved or simulated. -/
theorem Settled.reloads {a b : Area} (ha : a.Settled) (h : Reloads a b) :
    SavesAlike a b ∧ b.createSimMap = a.createSimMap ∧ a.SecondsConnected ∧
      b.SecondsConnected := by
  obtain ⟨hcopies, hshows⟩ := h.copies ha.wellFormed ha.distinct
  obtain ⟨file, _, _, hsave, _⟩ := h
  have hc := ha.wellFormed.secondsConnected hsave
  have hc' := (reloaded_secondsConnected_iff ha.wellFormed ha.distinct hcopies hshows hc).mpr
    ha.first
  refine ⟨?_, ?_, hc, hc'⟩
  · exact hcopies.savesAlike ha.distinct hshows.distinct fun g hg k hk hcopy =>
      (hcopy.saved_iff (reloaded_slotId ha.wellFormed ha.distinct hshows hg hk hcopy
        (ha.first g hg))).mpr (ha.placed g hg)
  · rw [hshows.wellFormed.createSimMap_eq hc', ha.wellFormed.createSimMap_eq hc]
    exact congrArg Except.ok
      (reloaded_simMap ha.wellFormed ha.distinct hcopies hshows ha.first)

/-- **One load settles a project** with distinct ids.  However often it is then saved and
loaded, each time with no click pending, the files have the same records, the simulator and
the table get the same map, and the project can still be saved if it could be. -/
theorem reload_settles {a b c : Area} (ha : a.WellFormed) (hd : a.DistinctIds) (h : Reloads a b)
    (hs : Relation.ReflTransGen Reloads b c) :
    SavesAlike b c ∧ c.createSimMap = b.createSimMap ∧
      ∀ file, b.saveProject = .ok file → ∃ file', c.saveProject = .ok file' := by
  have hb := h.settled ha hd
  suffices hc : c.Settled ∧ SavesAlike b c ∧ c.createSimMap = b.createSimMap ∧
      (b.SecondsConnected → c.SecondsConnected) by
    obtain ⟨hc, halike, hmap, hsec⟩ := hc
    exact ⟨halike, hmap, fun file hfile =>
      ⟨_, hc.wellFormed.saveProject_eq (hsec (hb.wellFormed.secondsConnected hfile))⟩⟩
  induction hs with
  | refl => exact ⟨hb, List.Perm.refl _, rfl, fun h => h⟩
  | tail _ hlast ih =>
    obtain ⟨hc, halike, hmap, _⟩ := ih
    obtain ⟨halike', hmap', _, hsec'⟩ := hc.reloads hlast
    exact ⟨hlast.settled hc.wellFormed hc.distinct, halike'.trans halike, hmap'.trans hmap,
      fun _ => hsec'⟩

/-- The AND gate of `fedAnd`, moved to where one coordinate is 0, is loaded three times. -/
theorem reload_settles_fedAnd :
    ∃ a b c d, create [7, 8, 9] >>= runs step fedAnd = .ok a ∧ Reloads (a.drag 2 0 40) b ∧
      Reloads b c ∧ Reloads c d ∧ SavesAlike b d ∧ d.createSimMap = b.createSimMap ∧
      ∀ file, b.saveProject = .ok file → ∃ file', d.saveProject = .ok file' := by
  obtain ⟨a, file, hrun, hsave, hslots⟩ : ∃ a file,
      create [7, 8, 9] >>= runs step fedAnd = .ok a ∧ (a.drag 2 0 40).saveProject = .ok file ∧
      ∀ g ∈ (a.drag 2 0 40).m_gates.elems, (a.drag 2 0 40).slotId g .input2 ≠ 0 →
        (a.drag 2 0 40).slotId g .input1 ≠ 0 :=
    ⟨_, _, rfl, rfl, by decide⟩
  obtain ⟨ha, hd⟩ := runs_distinctIds (by decide) hrun
  have hw := ha.wellFormed.drag 2 0 40
  have hd := hd.drag 2 0 40
  have hc := hw.secondsConnected hsave
  obtain ⟨b, hab⟩ := hc.exists_reload hw hd
  obtain ⟨hcopies, hshows⟩ := hab.copies hw hd
  have hb := hab.settled hw hd
  have hcb : b.SecondsConnected := by
    refine (reloaded_secondsConnected_iff hw hd hcopies hshows hc).mpr fun g hg h2 => ?_
    rw [hw.connected_slotId] at h2 ⊢
    exact hslots g hg h2
  obtain ⟨c, hbc⟩ := hcb.exists_reload hb.wellFormed hb.distinct
  have hcs := hbc.settled hb.wellFormed hb.distinct
  obtain ⟨_, _, _, hcc⟩ := hb.reloads hbc
  obtain ⟨d, hcd⟩ := hcc.exists_reload hcs.wellFormed hcs.distinct
  exact ⟨a, b, c, d, hrun, hab, hbc, hcd, reload_settles hw hd hab (.tail (.single hbc) hcd)⟩

end Area

end SimGate

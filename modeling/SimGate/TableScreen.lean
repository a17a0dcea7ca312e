import SimGate.Levels
import SimGate.TableOfTruth

/-!
# The table and the screen

The Table of Truth switches the inputs in a copy of the scheme.  Whatever the feedback,
row `r` is what the screen shows once the user has switched the inputs to the bits of `r`
and simulated.

* `table_screen`: every cell against the picture of its `OUTPUT` gate, or the wires that
  leave its input.
-/

namespace SimGate

open Execution

/-! ## Switching the inputs of a circuit -/

namespace Part

theorem toggle_id (p : Part) : p.toggle.id = p.id := by unfold toggle; split <;> rfl

/-- The part after the gates of `l` are toggled. -/
def toggleIn (l : List GatePtr) (p : Part) : Part := if p.ptr ∈ l then p.toggle else p

variable (l : List GatePtr) (p : Part)

@[simp] theorem toggleIn_ptr : (p.toggleIn l).ptr = p.ptr := by
  unfold toggleIn
  split
  · exact p.toggle_ptr
  · rfl

@[simp] theorem toggleIn_id : (p.toggleIn l).id = p.id := by
  unfold toggleIn
  split
  · exact p.toggle_id
  · rfl

@[simp] theorem twoInputs_toggleIn : twoInputs (p.toggleIn l).type = twoInputs p.type := by
  unfold toggleIn toggle
  split
  · split
    · next h => rw [h]; rfl
    · next h => rw [h]; rfl
    · rfl
  · rfl

end Part

namespace Circuit

def toggled (c : Circuit) (l : List GatePtr) : Circuit :=
  { c with parts := c.parts.map (Part.toggleIn l) }

variable {c : Circuit}

theorem complete_toggled {l : List GatePtr} : (c.toggled l).Complete ↔ c.Complete := by
  constructor
  · intro h p hp htwo
    have hsecond := h (p.toggleIn l) (List.mem_map_of_mem hp)
    rw [Part.twoInputs_toggleIn, Part.toggleIn_ptr] at hsecond
    exact hsecond htwo
  · intro h p hp htwo
    obtain ⟨x, hx, rfl⟩ := List.mem_map.mp hp
    rw [Part.twoInputs_toggleIn] at htwo
    rw [Part.toggleIn_ptr]
    exact h x hx htwo

theorem toggle_eq (c : Circuit) (gate : GatePtr) : c.toggle gate =
    if c.simulated = true ∧ c.HasPart gate ∧ ¬ c.Complete then none
    else some (c.toggled [gate]) := by
  have hparts : (c.parts.map fun p : Part => if p.ptr = gate then p.toggle else p) =
      c.parts.map (Part.toggleIn [gate]) :=
    List.map_congr_left fun p _ => by simp only [Part.toggleIn, List.mem_singleton]
  rw [toggle, hparts]
  by_cases hgate : c.HasPart gate
  · rw [if_pos hgate]
    show (if c.simulated then (c.toggled [gate]).simulate else some (c.toggled [gate])) = _
    by_cases hflag : c.simulated = true
    · rw [if_pos hflag, simulate]
      simp only [complete_toggled, hflag, hgate, true_and]
      split
      · exact congrArg some (Circuit.ext rfl rfl rfl hflag.symm rfl rfl)
      · rfl
    · rw [if_neg hflag, if_neg fun h => hflag h.1]
  · rw [if_neg hgate, if_neg fun h => hgate h.2.1]
    have hsame : c.parts.map (Part.toggleIn [gate]) = c.parts :=
      (List.map_congr_left fun p hp => if_neg fun h =>
        hgate ⟨p, hp, List.mem_singleton.mp h⟩).trans (List.map_id _)
    exact congrArg some (Circuit.ext hsame.symm rfl rfl rfl rfl rfl)

theorem Complete.toggle (hc : c.Complete) (gate : GatePtr) :
    c.toggle gate = some (c.toggled [gate]) := by
  rw [toggle_eq, if_neg fun h => h.2.2 hc]

/-- Every gate of the list is toggled once. -/
theorem toggles_eq {l : List GatePtr} (hl : l.Nodup) (hc : c.Complete) :
    (l.map Edit.toggle).foldlM step c = some (c.toggled l) := by
  induction l generalizing c with
  | nil => exact congrArg some (Circuit.ext (List.map_id _).symm rfl rfl rfl rfl rfl)
  | cons gate l ih =>
    obtain ⟨hgate, hl⟩ := List.nodup_cons.mp hl
    rw [List.map_cons, List.foldlM_cons, show c.step (.toggle gate) = _ from hc.toggle gate]
    refine (ih hl (complete_toggled.mpr hc)).trans ?_
    refine congrArg some (Circuit.ext ?_ rfl rfl rfl rfl rfl)
    simp only [toggled, List.map_map]
    refine List.map_congr_left fun p _ => ?_
    by_cases hp : p.ptr = gate
    · have hnot : p.ptr ∉ l := hp ▸ hgate
      simp [Part.toggleIn, hp, Part.toggle_ptr, hgate]
    · simp [Part.toggleIn, hp]

/-! ## The map of a switched circuit -/

theorem find_map (c : Circuit) (id : Id) :
    (KeySet.ofList (c.parts.map c.entry) : SimMap).find? id = (c.getPart id).map c.entry := by
  rw [KeySet.find?_ofList, List.find?_map, getPart]
  congr 2
  funext p
  simp [Entry.id, entry]

theorem slotId_toggled (l : List GatePtr) (p : Part) (slot : HitBoxType) :
    (c.toggled l).slotId (p.toggleIn l) slot = c.slotId p slot := by
  unfold slotId
  simp only [toggled, Part.toggleIn_ptr, List.find?_map, Option.map_map]
  cases c.source ⟨p.ptr, slot⟩ with
  | none => rfl
  | some q =>
    have hptr : (fun x : Part => decide (x.ptr = q)) ∘ Part.toggleIn l =
        fun x : Part => decide (x.ptr = q) := by
      funext x
      simp
    have hid : Part.id ∘ Part.toggleIn l = Part.id := funext fun x => x.toggleIn_id l
    simp only [hptr, hid]

/-- The inputs that are not where the bits of `r` want them. -/
def switches (c : Circuit) (map : SimMap) (r : Nat) : List GatePtr :=
  (c.parts.filter fun p => map.switchedType r (.create p.type p.id) ≠ p.type).map Part.ptr

theorem toggleIn_switches (hptr : (c.parts.map Part.ptr).Nodup) {map : SimMap} {r : Nat} {p : Part}
    (hp : p ∈ c.parts) : p.toggleIn (c.switches map r) =
      { p with type := map.switchedType r (.create p.type p.id) } := by
  have hmem : p.ptr ∈ c.switches map r ↔
      map.switchedType r (.create p.type p.id) ≠ p.type := by
    simp only [switches, List.mem_map, List.mem_filter, decide_eq_true_eq]
    constructor
    · rintro ⟨x, ⟨hx, hne⟩, hxp⟩
      rwa [List.inj_on_of_nodup_map hptr hx hp hxp] at hne
    · exact fun hne => ⟨p, ⟨hp, hne⟩, rfl⟩
  rw [Part.toggleIn]
  split
  · next h =>
    have hne := hmem.mp h
    obtain ⟨ptr, type, id⟩ := p
    cases type <;>
      simp_all [SimMap.switchedType, Part.toggle, CommonData.isInput]
  · next h =>
    have hsame := not_not.mp (mt hmem.mpr h)
    rw [hsame]

theorem simMap_switched (hptr : (c.parts.map Part.ptr).Nodup) {map : SimMap}
    (hmap : c.simMap = some map) (r : Nat) :
    (c.toggled (c.switches map r)).simMap = some (map.switched r) := by
  rw [simMap] at hmap ⊢
  split at hmap
  · next hc =>
    have hfind : ∀ id, map.find? id = (c.getPart id).map c.entry := fun id => by
      rw [← Option.some.inj hmap, find_map]
    have hget : ∀ id, (c.toggled (c.switches map r)).getPart id =
        (c.getPart id).map (Part.toggleIn (c.switches map r)) := by
      intro id
      rw [getPart, toggled, List.find?_map]
      simp only [Function.comp_def, Part.toggleIn_id]
      rfl
    rw [if_pos (complete_toggled.mpr hc)]
    refine congrArg some (KeySet.ext_find fun id => ?_)
    rw [find_map, SimMap.switched, KeySet.find?_map, hfind, hget]
    cases hp : c.getPart id with
    | none => rfl
    | some p =>
      refine congrArg some ?_
      rw [entry, slotId_toggled, slotId_toggled,
        toggleIn_switches hptr (List.mem_of_find?_eq_some hp)]
      simp [Entry.update, entry]
  · cases hmap

end Circuit

/-! ## The screen after switching -/

namespace Area

variable {a : Area}

theorem toggles_simulated {c : Circuit} (h : Abstracts a c) (l : List GatePtr) :
    Simulated Abstracts (runs step (l.map .changeTypeInput) a)
      ((l.map Edit.toggle).foldlM Circuit.step c) := by
  induction l generalizing a c with
  | nil => exact .step h
  | cons gate l ih => exact (toggle_simulated h gate).bind fun _ _ h' => ih h'

/-- **Switching and simulating** succeeds wherever the scheme can be read, and shows the
map with the inputs at the bits of `r`. -/
theorem Sound.switched (ha : a.Sound) {map : SimMap} (hmap : a.createSimMap = .ok map) (r : Nat) :
    ∃ a', runs step ((a.circuit.switches map r).map .changeTypeInput ++ [.simulate]) a = .ok a' ∧
      a'.WellFormed ∧ a'.createSimMap = .ok (map.switched r) ∧
      a'.Displays (map.switched r).Reports := by
  have hptr : (a.circuit.parts.map Part.ptr).Nodup := by
    have h := a.m_gates.nodup_keys
    rwa [circuit, List.map_map]
  obtain ⟨_, hc, rfl⟩ := ha.wellFormed.simMap_simulated.of_ok hmap
  have hcomplete : a.circuit.Complete := by
    by_contra hnot
    rw [Circuit.simMap, if_neg hnot] at hc
    cases hc
  have hnodup : (a.circuit.switches map r).Nodup := hptr.sublist (List.filter_sublist.map _)
  obtain ⟨b, hb, habs⟩ := (toggles_simulated ⟨ha, rfl⟩ _).of_some
    (Circuit.toggles_eq hnodup hcomplete)
  have hsim := simulate_simulated habs
  rw [Circuit.simulate, if_pos (Circuit.complete_toggled.mpr hcomplete)] at hsim
  obtain ⟨a', ha', habs'⟩ := hsim.of_some rfl
  have hmap' : a'.createSimMap = .ok (map.switched r) := by
    have hread := habs'.sound.wellFormed.simMap_simulated
    rw [habs'.circuit] at hread
    obtain ⟨map', hmap', heq⟩ := hread.of_some (Circuit.simMap_switched hptr hc r)
    rw [hmap', heq]
  have hshown := simulate_inStep habs.sound.wellFormed ha'
  rw [InStep, if_pos (simulate_flag habs.sound.wellFormed ha'),
    ← createSimMap_ok habs'.sound.wellFormed hmap'] at hshown
  refine ⟨a', ?_, habs'.sound.wellFormed, hmap', hshown⟩
  rw [runs_append, hb]
  show b.simulate >>= runs step [] = .ok a'
  rw [ha']
  rfl

end Area

/-! ## The table -/

/-- Some toggles take the scheme to the inputs of row `r`, and what is shown there is what
the row has in the column of each gate. -/
def TableDialog.RowShown (td : TableDialog) (a : Area) (map : SimMap) (r : Nat) : Prop :=
  ∃ toggles a', (∀ act ∈ toggles, ∃ gate, act = .changeTypeInput gate) ∧
    runs Area.step (toggles ++ [.simulate]) a = .ok a' ∧
    a'.createSimMap = .ok (map.switched r) ∧
    ∀ (col : Nat) id, (map.inputs ++ map.outputs)[col]? = some id →
      ∃ v, ⟨r, col, cellText v⟩ ∈ td.items ∧ ∀ g ∈ a'.m_gates.elems, g.id = id →
        (g.isOutput = true → g.pixmap = Area.valuePixmap v) ∧
        ∀ q w, a'.scene.wire q = some w → w.output.owner = g.ptr → w.color = Area.valueColor v

namespace Area

/-- **The table and the screen.**  Once the inputs are switched to the bits of `r` and
simulated, row `r` shows in the column of an `OUTPUT` gate what its picture shows, and in
that of an input what its wires show. -/
theorem table_screen {gen : List Id} {acts : List Action} {a : Area} (p : Platform) {map : SimMap}
    (h : create gen >>= runs step acts = .ok a) (hmap : a.createSimMap = .ok map)
    (hn : 1 ≤ map.inputs.length) (hn' : map.inputs.length ≤ 30)
    (hlen : (map.inputs ++ map.outputs).length < 0x80000000) :
    ∃ td, Returns (fun fuel => tableOfTruth p fuel map) td ∧
      ∀ r, r < 2 ^ map.inputs.length → td.RowShown a map r := by
  have ha := runs_sound h
  obtain ⟨rows, s, hrun, hrows, hcells⟩ := generateCombination_returns (.start map) _ hn
  obtain ⟨td, htable, htab⟩ := tableOfTruth_returns p hn' hlen hrun hrows
  refine ⟨td, htable, fun r hr => ?_⟩
  obtain ⟨a', hrun', ha', hmap', hshown⟩ := ha.switched hmap r
  refine ⟨_, a', ?_, hrun', hmap', fun col id hcol => ?_⟩
  · intro act hact
    obtain ⟨gate, _, rfl⟩ := List.mem_map.mp hact
    exact ⟨gate, rfl⟩
  · obtain ⟨row, t, hrow, ht, hvalue⟩ := hcells r hr
    obtain ⟨it, hit, hio⟩ := find_of_column hcol
    have hcell := htab.cells r col row id hrow hcol
    rw [retValue, hvalue id it hit hio] at hcell
    have hreport : (map.switched r).Reports id (t.sim.getValue id) := ⟨t, ht, rfl⟩
    refine ⟨t.sim.getValue id, hcell, fun g hg hid => ⟨fun hout => ?_, fun q w hw howner => ?_⟩⟩
    · obtain ⟨v, hv, hpix⟩ := hshown.output g hg hout
      rw [hid] at hv
      rw [hpix, reports_unique hv hreport]
    · obtain ⟨x, hx, hptr, v, hv, hcolor⟩ := hshown.wire q w hw
      have hsame : x = g := KeySet.eq_of_key hx hg (hptr.trans howner)
      rw [hsame, hid] at hv
      rw [hcolor, reports_unique hv hreport]

theorem table_screen_negated :
    ∃ a map, create [7, 8, 9] >>= runs step negated = .ok a ∧ a.createSimMap = .ok map ∧
      map.inputs = [8] ∧ map.outputs = [7] ∧
      ∃ td, Returns (fun fuel => tableOfTruth .qt fuel map) td ∧
        ∀ r, r < 2 ^ map.inputs.length → td.RowShown a map r := by
  obtain ⟨a, map, h, hmap, hin, hout⟩ :
      ∃ a map, create [7, 8, 9] >>= runs step negated = .ok a ∧ a.createSimMap = .ok map ∧
        map.inputs = [8] ∧ map.outputs = [7] :=
    ⟨_, _, rfl, rfl, rfl, rfl⟩
  exact ⟨a, map, h, hmap, hin, hout, table_screen .qt h hmap (by simp [hin]) (by simp [hin])
    (by simp [hin, hout])⟩

end Area

end SimGate

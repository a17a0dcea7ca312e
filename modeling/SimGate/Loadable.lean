import SimGate.Drawable

/-!
# Which maps can be loaded

A file may give several gates one id.  The map keeps the first of them, so what a gate
reads need not be what the map has under the id: it can be the gate itself, and it can be
an output.

* `loadable_iff`: the maps of all runs are the loadable ones.
-/

namespace SimGate

open Execution

/-! ## The file -/

/-- The file that draws the entities and connects nothing. -/
def fileOf (l : List Entity) : List Element :=
  l.flatMap (fun e => [.gateId e.id, .gateType e.type.code, .x e.x, .y e.y, .endEntity]) ++
    [.endFile]

namespace Area.Decoder

theorem entities_fileOf (d : Decoder) (l : List Entity) : d.entities (fileOf l) = l := by
  induction l generalizing d with
  | nil => rfl
  | cons e l ih =>
    have hrest := ih ((((((d.read (.gateId e.id)).read (.gateType e.type.code)).read (.x e.x)).read
      (.y e.y)).read .endEntity))
    have htype : CommonGateType.ofCode e.type.code = e.type := CommonGateType.ofCode_code e.type
    simpa [fileOf, entities, read, entity, htype] using hrest

theorem readAll_fileOf (d : Decoder) (l : List Entity) :
    (d.readAll (fileOf l)).connVec = d.connVec := by
  induction l generalizing d with
  | nil => rfl
  | cons e l ih =>
    have hrest := ih ((((((d.read (.gateId e.id)).read (.gateType e.type.code)).read (.x e.x)).read
      (.y e.y)).read .endEntity))
    simpa [fileOf, readAll, read] using hrest

end Area.Decoder

namespace Circuit

def entityOf (it : Entry) : Entity := ⟨it.first.type, it.id, 0, 0⟩

/-- Gates whose ids are given are drawn one pointer after the other. -/
theorem foldlM_drawEntity {l : List Entity} {c : Circuit}
    (hl : ∀ e ∈ l, e.type ≠ .enumSize ∧ e.id ≠ gNotValidGateId) :
    l.foldlM drawEntity c = some { c with
      parts := c.parts ++ l.mapIdx fun i e => ⟨c.next + i, e.type, e.id⟩
      next := c.next + l.length } := by
  induction l generalizing c with
  | nil => exact congrArg some (Circuit.ext (List.append_nil _).symm rfl rfl rfl rfl rfl)
  | cons e l ih =>
    obtain ⟨⟨ht, hid⟩, hl⟩ := List.forall_mem_cons.mp hl
    have hdraw : c.drawEntity e = some { c with
        parts := c.parts ++ [⟨c.next, e.type, e.id⟩]
        next := c.next + 1 } := by
      have hgiven : e.given (c.parts.map Part.id) c.gen = some (e.id, c.gen) := if_neg hid
      rw [drawEntity, hgiven]
      exact congrArg some (Circuit.ext (if_neg ht) rfl rfl rfl rfl rfl)
    rw [List.foldlM_cons, hdraw]
    refine (ih hl).trans ?_
    simp [List.mapIdx_cons, Nat.add_assoc, Nat.add_comm 1]

theorem mapIdx_entityOf (n : GatePtr) (l : List Entry) :
    ((l.map entityOf).mapIdx fun i e => (⟨n + i, e.type, e.id⟩ : Part)) = partsOf n l := by
  induction l generalizing n with
  | nil => rfl
  | cons it l ih =>
    rw [List.map_cons, List.mapIdx_cons, partsOf, drawnOf, List.map_cons]
    refine congrArg₂ List.cons rfl ((congrArg (List.mapIdx · _) ?_).trans (ih (n + 1)))
    funext i e
    rw [Nat.add_assoc, Nat.add_comm 1]

/-- Loading a file with the entries. -/
def loadOf (l : List Entry) : Edit :=
  .load (fileOf (l.map entityOf)).length (some (fileOf (l.map entityOf))) .endFile

theorem step_loadOf {l : List Entry} (c : Circuit)
    (hl : ∀ it ∈ l, it.first.type ≠ .enumSize ∧ it.id ≠ gNotValidGateId) :
    c.step (loadOf l) =
      some { c.clear with parts := partsOf c.next l, next := c.next + l.length } := by
  have hends : Ends (fileOf (l.map entityOf)).length (fileOf (l.map entityOf)) .endFile := by
    refine Or.inl ?_
    rw [List.take_length, fileOf]
    exact List.mem_append_right _ (List.mem_singleton_self _)
  have hconn := Area.Decoder.readAll_fileOf (.start .endFile) (l.map entityOf)
  have hvalid : ∀ e ∈ l.map entityOf, e.type ≠ .enumSize ∧ e.id ≠ gNotValidGateId :=
    List.forall_mem_map.mpr hl
  rw [loadOf, step, load]
  simp only [if_pos hends, Area.Decoder.entities_fileOf, foldlM_drawEntity hvalid,
    mapIdx_entityOf, List.length_map]
  show ((Area.Decoder.start .endFile).readAll _).connVec.foldlM connectPair _ = _
  rw [hconn]
  rfl

/-! ## Twins -/

/-- A second gate with the id of an entry, which has an output. -/
def twin (it : Entry) : Entry := ⟨.create .highState it.id, (gNotValidGateId, gNotValidGateId)⟩

@[simp] theorem twin_id (it : Entry) : (twin it).id = it.id := CommonData.create_id ..

@[simp] theorem twin_type (it : Entry) : (twin it).first.type = .highState :=
  CommonData.create_type ..

theorem twin_read (it : Entry) (slot : HitBoxType) : (twin it).read slot = gNotValidGateId := by
  cases slot <;> rfl

theorem ofList_twins (map : SimMap) :
    (KeySet.ofList (map.elems ++ map.elems.map twin) : SimMap) = map := by
  refine KeySet.ext_find fun id => ?_
  rw [KeySet.find?_ofList, List.find?_append]
  show (map.find? id).or _ = map.find? id
  cases hit : map.find? id with
  | some it => rfl
  | none =>
    rw [Option.none_or, List.find?_eq_none]
    intro x hx
    obtain ⟨y, hy, rfl⟩ := List.mem_map.mp hx
    simpa using KeySet.find?_eq_none.mp hit y hy

theorem mem_twins {map : SimMap} {n : GatePtr} {x : Part} :
    x ∈ partsOf n (map.elems.map twin) ↔
      ∃ y ∈ map.elems, (x, twin y) ∈ drawnOf n (map.elems.map twin) := by
  rw [mem_partsOf]
  constructor
  · rintro ⟨it, hr⟩
    obtain ⟨y, hy, rfl⟩ := List.mem_map.mp (mem_drawnOf hr).1
    exact ⟨y, hy, hr⟩
  · rintro ⟨y, _, hr⟩
    exact ⟨_, hr⟩

/-- The twins drive the gates of the map. -/
theorem drivable_of_loadable {map : SimMap} (hm : map.Loadable) (n : GatePtr) :
    Drivable (drawnOf n (map.elems ++ map.elems.map twin))
      (partsOf (n + map.elems.length) (map.elems.map twin)) := by
  have hids : (map.elems.map twin).map Entry.id = map.elems.map Entry.id := by
    rw [List.map_map]
    exact List.map_congr_left fun it _ => twin_id it
  rw [drawnOf_append]
  refine ⟨?_, fun x hx => ?_, fun r hr => ?_, fun r hr slot => ?_, fun r hr htwo => ?_⟩
  · rw [partsOf_id, hids]
    exact map.nodup_keys
  · obtain ⟨y, hy, hr⟩ := mem_twins.mp hx
    refine ⟨?_, ?_⟩
    · rw [List.map_append]
      exact List.mem_append_right _ hx
    · rw [(mem_drawnOf hr).2.1, twin_id]
      exact (hm.gate y hy).2.2
  · rcases List.mem_append.mp hr with hr | hr
    · obtain ⟨hit, hid, htype, _⟩ := mem_drawnOf hr
      rw [hid, htype]
      exact (hm.gate _ hit).1
    · obtain ⟨hit, hid, htype, _⟩ := mem_drawnOf hr
      obtain ⟨y, _, hy⟩ := List.mem_map.mp hit
      rw [hid, htype, ← hy, twin_id, twin_type]
      rfl
  · rcases List.mem_append.mp hr with hr | hr
    · obtain ⟨hit, _, htype, _, hlt⟩ := mem_drawnOf hr
      refine (hm.read hit slot).imp id ?_
      rintro ⟨hslot, y, hy, hyid⟩
      have hmem : y.id ∈ (partsOf (n + map.elems.length) (map.elems.map twin)).map Part.id := by
        rw [partsOf_id, hids]
        exact List.mem_map_of_mem hy
      obtain ⟨x, hx, hid⟩ := List.mem_map.mp hmem
      obtain ⟨z, _, hs⟩ := mem_twins.mp hx
      obtain ⟨_, _, hxtype, hle, _⟩ := mem_drawnOf hs
      refine ⟨htype ▸ hslot, x, hx, hid.trans hyid, (Nat.lt_of_lt_of_le hlt hle).ne, ?_⟩
      rw [hxtype, twin_type]
      decide
    · obtain ⟨y, _, hy⟩ := List.mem_map.mp (mem_drawnOf hr).1
      exact Or.inl (hy ▸ twin_read y slot)
  · rcases List.mem_append.mp hr with hr | hr
    · obtain ⟨hit, _, htype, _⟩ := mem_drawnOf hr
      exact hm.second_ne hit (htype ▸ htwo)
    · obtain ⟨hit, _, htype, _⟩ := mem_drawnOf hr
      obtain ⟨y, _, hy⟩ := List.mem_map.mp hit
      rw [htype, ← hy, twin_type] at htwo
      exact absurd htwo (by decide)

/-- **Loading a map**: a file with the gates of the map and then their twins is loaded, and
every gate is connected to the twin of what it reads. -/
theorem exists_loading {map : SimMap} (hm : map.Loadable) :
    ∃ es c, (.draw .output :: es).foldlM step (start [1]) = some c ∧ c.simMap = some map := by
  let first : Circuit := ⟨[⟨0, .output, 1⟩], fun _ => none, none, false, 1, []⟩
  let entries : List Entry := map.elems ++ map.elems.map twin
  let loaded : Circuit :=
    ⟨partsOf 1 entries, fun _ => none, none, false, 1 + entries.length, []⟩
  have hfirst : (start [1]).step (.draw .output) = some first := by
    simp [step, drawEntity, Entity.given, start, nextId, gNotValidGateId, first]
  have hvalid : ∀ it ∈ entries, it.first.type ≠ .enumSize ∧ it.id ≠ gNotValidGateId := by
    intro it hit
    rcases List.mem_append.mp hit with hit | hit
    · exact (hm.gate it hit).2
    · obtain ⟨y, hy, rfl⟩ := List.mem_map.mp hit
      rw [twin_type, twin_id]
      exact ⟨by decide, (hm.gate y hy).2.2⟩
  have hloaded := step_loadOf first hvalid
  obtain ⟨c, ⟨es, _, hrun⟩, hmap⟩ :=
    wire_reaches (c := loaded) (drivable_of_loadable hm 1) rfl rfl fun _ => rfl
  refine ⟨loadOf entries :: es, c, ?_, ?_⟩
  · rw [List.foldlM_cons, hfirst]
    show List.foldlM step first (loadOf entries :: es) = _
    rw [List.foldlM_cons, hloaded]
    exact hrun
  · rw [hmap, ofList_twins]

end Circuit

namespace Area

/-- **The maps that can be loaded.**  With loads, what runs give the simulator and the
table is exactly the loadable maps: any feedback of a gate on itself and any connection
from an output is possible. -/
theorem loadable_iff (map : SimMap) :
    (∃ gen acts a, create gen >>= runs step acts = .ok a ∧ a.createSimMap = .ok map) ↔
      map.Loadable := by
  constructor
  · rintro ⟨gen, acts, a, hrun, hmap⟩
    exact (runs_sound hrun).wellFormed.loadable hmap
  · intro hm
    obtain ⟨es, c, hc, hmap⟩ := Circuit.exists_loading hm
    obtain ⟨acts, _, hsim⟩ := realize_abstracts [1] es
    obtain ⟨a, ha, hsound, rfl⟩ := hsim.of_some hc
    obtain ⟨map', hmap', rfl⟩ := hsound.wellFormed.simMap_simulated.of_some hmap
    exact ⟨_, acts, a, ha, hmap'⟩

end Area

end SimGate

import Skew.Proofs.Coercion
import Skew.Proofs.Reading

/-!
# Where what is read comes from

An entity that is read from a document was read from a document nested in it, stands in a
default that was stored for null, or was made by a codec. A property that holds of each of
these, and passes from a document to those around it, holds of all entities that are read
(`Json.Tracked.entities`).

The induction is on the document; at each one it goes through the kinds that can read it.
-/

namespace Skew

/-- Induction over nested documents: an array follows from its items, an object from its
members and from what the objects among them hold. -/
@[elab_as_elim]
theorem Json.nested {P : Json → Prop} (null : P .null) (bool : ∀ b, P (.bool b))
    (int : ∀ n, P (.int n)) (float : ∀ x, P (.float x)) (str : ∀ s, P (.str s))
    (arr : ∀ js, (∀ j ∈ js, P j) → P (.arr js))
    (obj : ∀ ms : Members, (∀ m ∈ ms, P m.2) → (∀ m ∈ ms, ∀ ds, m.2 = .obj ds → ∀ d ∈ ds, P d.2) →
      P (.obj ms)) (j : Json) : P j :=
  -- Beside the claim for a document, the claim for the members of an object.
  let Q (j : Json) : Prop := P j ∧ ∀ ds, j = .obj ds → ∀ d ∈ ds, P d.2
  (@Json.rec Q (fun js => ∀ j ∈ js, Q j) (fun ms => ∀ m ∈ ms, Q m.2) (fun m => Q m.2)
    ⟨null, nofun⟩ (fun b => ⟨bool b, nofun⟩) (fun n => ⟨int n, nofun⟩) (fun x => ⟨float x, nofun⟩)
    (fun s => ⟨str s, nofun⟩) (fun js ih => ⟨arr js fun j hj => (ih j hj).1, nofun⟩)
    (fun ms ih => ⟨obj ms (fun m hm => (ih m hm).1) fun m hm => (ih m hm).2,
      fun _ h => (Json.obj.inj h) ▸ fun d hd => (ih d hd).1⟩)
    (List.forall_mem_nil _) (fun _ _ hj ih => List.forall_mem_cons.mpr ⟨hj, ih⟩)
    (List.forall_mem_nil _) (fun _ _ hm ih => List.forall_mem_cons.mpr ⟨hm, ih⟩)
    (fun _ _ ih => ih) j).1

theorem Value.ofItems_eq (js : List Json) : Value.ofItems js = js.map Value.ofJson := by
  induction js with
  | nil => rfl
  | cons j js ih => rw [Value.ofItems, ih, List.map_cons]

theorem Value.ofMembers_eq (ms : Members) :
    Value.ofMembers ms = ms.map fun m => (m.1, Value.ofJson m.2) := by
  induction ms with
  | nil => rfl
  | cons m ms ih => rw [Value.ofMembers, ih, List.map_cons]

/-- Nothing is taken for an entity in a document that is read as a plain value. -/
theorem Json.graph_ofJson (j : Json) : (Value.ofJson j).graph = [] := by
  induction j using Json.nested with
  | null | bool | float | str => rfl
  | int n =>
      rw [Value.ofJson, Value.ofInt]
      split
      · rfl
      · split <;> rfl
  | arr js ih =>
      rw [Value.ofJson, Value.graph, Value.itemGraph_eq, Value.ofItems_eq, List.flatMap_map]
      exact List.flatMap_eq_nil_iff.mpr ih
  | obj ms ih =>
      rw [Value.ofJson, Value.graph, Value.entryGraph_eq, Value.ofMembers_eq, List.flatMap_map]
      exact List.flatMap_eq_nil_iff.mpr ih

section

variable [Codecs]

theorem Kind.coerce_bare {k : Kind} {v w : Value} (h : k.coerce v = .ok w) :
    w = .null ∨ k.bare.coerce v = .ok w := by
  induction k with
  | nullable k ih =>
      rw [Kind.coerce] at h
      split at h
      · cases h; exact Or.inl rfl
      · exact ih h
  | _ => exact Or.inr h

/-- An entity that a default brings in: the data has a document that the kind of a field
reads as null, and the entity stands in the default that is stored instead. -/
def Entity.Supplied (registry : Registry) (c? : Option Context) (p : Primitive) (d : Entity) :
    Prop :=
  ∃ v s n f j x, Version.ofText p.version = .ok v ∧ registry.resolve p.name v = .ok s ∧
    s.field? n = some f ∧ f.isNullable = false ∧ Record.get? p.data n = some j ∧
    (j.reading registry c?).field n f.kind = .ok .null ∧ f.default? = some x ∧ d ∈ x.graph

/-- A property of entities, by the document they are read from, that has a reason for each way
an entity can come in. -/
structure Json.Tracked (registry : Registry) (c? : Option Context) (Q : Json → Entity → Prop) :
    Prop where
  read : ∀ ms p d, Primitive.ofMembers ms = .ok p → d.ReadFrom registry c? p → Q (.obj ms) d
  supplied : ∀ ms p d, Primitive.ofMembers ms = .ok p → d.Supplied registry c? p → Q (.obj ms) d
  made : ∀ j d, Codecs.Makes d → Q j d
  item : ∀ js, ∀ j ∈ js, ∀ d, Q j d → Q (.arr js) d
  member : ∀ ms : Members, ∀ m ∈ ms, ∀ d, Q m.2 d → Q (.obj ms) d

/-- The property holds of all entities in what any kind reads and coerces. -/
def Json.FieldsHave (registry : Registry) (c? : Option Context) (Q : Json → Entity → Prop)
    (j : Json) : Prop :=
  ∀ name k u w, (j.reading registry c?).field name k = .ok u → k.coerce u = .ok w →
    ∀ d ∈ w.graph, Q j d

/-- What is read from a primitive comes from its data, from a default or from a codec. -/
theorem Entity.ReadFrom.origin {registry : Registry} {c? : Option Context} {p : Primitive}
    {e : Entity} (he : e.ReadFrom registry c? p) {Q : Json → Entity → Prop}
    (hdata : ∀ m ∈ p.data, m.2.FieldsHave registry c? Q) {n : String} {v : Value}
    (hv : (n, v) ∈ e.values) {d : Entity} (hd : d ∈ v.graph) :
    (∃ m ∈ p.data, Q m.2 d) ∨ d.Supplied registry c? p ∨ Codecs.Makes d := by
  obtain ⟨f, j, hf, hj, htake⟩ := he.exists_take (Record.get?_of_mem he.ascending.nodup hv)
  have hmem := Record.mem_of_get? hj
  rcases Field.origin_of_take htake hd with ⟨u, hu, hcoerce⟩ | ⟨hnull, hf', x, hx, hdx⟩ | hmade
  · exact Or.inl ⟨_, hmem, hdata _ hmem n f.kind u v hu hcoerce d hd⟩
  · exact Or.inr (Or.inl ⟨e.version, e.schema, n, f, j, x, he.version, he.schema, hf, hf', hj,
      hnull, hx, hdx⟩)
  · exact Or.inr (Or.inr hmade)

namespace Json.Tracked

variable {registry : Registry} {c? : Option Context} {Q : Json → Entity → Prop}
  (hQ : Json.Tracked registry c? Q)
include hQ

omit hQ in
/-- It is enough to look at kinds without nullable layers. -/
theorem fields_of_bare {j : Json} (h : ∀ name k u w, k.bare = k →
    (j.reading registry c?).field name k = .ok u → k.coerce u = .ok w → ∀ d ∈ w.graph, Q j d) :
    j.FieldsHave registry c? Q := by
  intro name k u w hread hcoerce d hd
  rcases Kind.coerce_bare hcoerce with rfl | hcoerce
  · cases hd
  · exact h name k.bare u w k.bare_bare (Json.field_bare j name k ▸ hread) hcoerce d hd

/-- Where nothing is read inside a document, only a codec can bring an entity in. -/
theorem readLeaf {j : Json} {name : String} {k : Kind} {u w : Value}
    (hread : j.readLeaf name k = .ok u) (hcoerce : k.coerce u = .ok w) : ∀ d ∈ w.graph, Q j d := by
  intro d hd
  have hplain (h : inField name (k.coerce (Value.ofJson j)) = .ok u) : Q j d := by
    rcases Kind.origin_of_coerced hcoerce d hd with hu | hmade
    · rcases Kind.origin_of_coerced (inField_eq_ok_iff.mp h) d hu with hj | hmade
      · rw [graph_ofJson] at hj
        cases hj
      · exact hQ.made j d hmade
    · exact hQ.made j d hmade
  cases k with
  | custom c => exact hQ.made j d ⟨c, u, w, Except.mapError_eq_ok_iff.mp hcoerce, hd⟩
  | list | set | dict | listOfObjects | object => cases hread
  | _ => exact hplain hread

theorem fields_leaf {j : Json} (hitems : j.items? = none) (hmembers : j.members? = none) :
    j.FieldsHave registry c? Q := by
  refine fields_of_bare ?_
  intro name k u w hk hread hcoerce
  cases j with
  | null =>
      cases hread
      intro d hd
      rcases Kind.origin_of_coerced hcoerce d hd with hu | hmade
      · cases hu
      · exact hQ.made _ d hmade
  | arr js => cases hitems
  | obj ms => cases hmembers
  | _ =>
      rw [Json.reading] at hread
      exact hQ.readLeaf hread (by rw [hk]; exact hcoerce)

theorem fields_arr {js : List Json}
    (hjs : ∀ j ∈ js, j.FieldsHave registry c? Q ∧
      ∀ e, (j.reading registry c?).entity () = .ok e → ∀ d ∈ e.graph, Q j d) :
    (Json.arr js).FieldsHave registry c? Q := by
  refine fields_of_bare ?_
  intro name k u w hk hread hcoerce d hd
  rw [Json.reading] at hread
  simp only [hk] at hread
  have hitems {k : Kind} {us : List Value}
      (hus : ((Json.itemReadings registry c? js).mapM fun r : Reading => r.field name k) = .ok us)
      {u w : Value} (hu : u ∈ us) (huw : k.coerce u = .ok w) (hd : d ∈ w.graph) :
      Q (.arr js) d := by
    rw [Json.itemReadings_eq] at hus
    obtain ⟨r, hr, hru⟩ := List.exists_of_mem_mapM hus hu
    obtain ⟨j, hj, rfl⟩ := List.mem_map.mp hr
    exact hQ.item js j hj d ((hjs j hj).1 name k u w hru huw d hd)
  cases k with
  | list k =>
      obtain ⟨us, hus, rfl⟩ := Except.map_eq_ok_iff.mp hread
      obtain ⟨ws, hws, rfl⟩ := Except.map_eq_ok_iff.mp hcoerce
      rw [Value.graph, Value.itemGraph_eq, List.mem_flatMap] at hd
      obtain ⟨w, hw, hd⟩ := hd
      obtain ⟨u, hu, huw⟩ := List.exists_of_mem_mapM hws hw
      exact hitems hus hu huw hd
  | set k =>
      obtain ⟨us, hus, rfl⟩ := Except.map_eq_ok_iff.mp hread
      obtain ⟨ws, hws, rfl⟩ := Except.map_eq_ok_iff.mp hcoerce
      rw [Value.setOf, Value.graph, Value.itemGraph_eq, List.mem_flatMap] at hd
      obtain ⟨w, hw, hd⟩ := hd
      obtain ⟨u, hu, huw⟩ := List.exists_of_mem_mapM hws ((Value.dedup_sublist ws).subset hw)
      exact hitems hus ((Value.dedup_sublist us).subset hu) huw hd
  | listOfObjects type =>
      obtain ⟨es, hes, hread⟩ := Except.bind_eq_ok_iff.mp hread
      rcases Kind.origin_of_coerced hcoerce d hd with hw | hmade
      · rcases Kind.origin_of_coerced (inField_eq_ok_iff.mp hread) d hw with hu | hmade
        · rw [Value.graph, Value.itemGraph_eq, List.flatMap_map, List.mem_flatMap] at hu
          obtain ⟨e, he, hd⟩ := hu
          rw [Json.itemReadings_eq] at hes
          obtain ⟨r, hr, hre⟩ := List.exists_of_mem_mapM hes he
          obtain ⟨j, hj, rfl⟩ := List.mem_map.mp hr
          exact hQ.item js j hj d ((hjs j hj).2 e hre d hd)
        · exact hQ.made _ d hmade
      · exact hQ.made _ d hmade
  | _ => exact hQ.readLeaf hread hcoerce d hd

theorem fields_obj {ms : Members} (hms : ∀ m ∈ ms, m.2.FieldsHave registry c? Q)
    (hentity : ∀ e, ((Json.obj ms).reading registry c?).entity () = .ok e → ∀ d ∈ e.graph,
      Q (.obj ms) d) :
    (Json.obj ms).FieldsHave registry c? Q := by
  refine fields_of_bare ?_
  intro name k u w hk hread hcoerce d hd
  rw [Json.reading] at hread
  simp only [hk] at hread
  cases k with
  | dict k =>
      obtain ⟨us, hus, rfl⟩ := Except.map_eq_ok_iff.mp hread
      obtain ⟨ws, hws, rfl⟩ := Except.map_eq_ok_iff.mp hcoerce
      rw [Value.graph, Value.entryGraph_eq, List.mem_flatMap] at hd
      obtain ⟨w, hw, hd⟩ := hd
      obtain ⟨u, hu, huw⟩ := exists_of_mem_mapEntriesM hws hw
      rw [Json.memberReadings_eq] at hus
      obtain ⟨r, hr, hru⟩ := exists_of_mem_mapEntriesM hus hu
      obtain ⟨m, hm, rfl⟩ := List.mem_map.mp hr
      exact hQ.member ms m hm d (hms m hm name k u.2 w.2 hru huw d hd)
  | object type =>
      obtain ⟨e, he, hread⟩ := Except.bind_eq_ok_iff.mp hread
      rcases Kind.origin_of_coerced hcoerce d hd with hw | hmade
      · rcases Kind.origin_of_coerced (inField_eq_ok_iff.mp hread) d hw with hu | hmade
        · exact hentity e he d hu
        · exact hQ.made _ d hmade
      · exact hQ.made _ d hmade
  | _ => exact hQ.readLeaf hread hcoerce d hd

/-- An entity and what is nested in it, if what stands in the fields is known for the data. -/
theorem entity (hregistry : registry.WellFormed) {ms : Members}
    (hdata : ∀ m ∈ ms, ∀ ds, m.2 = .obj ds → ∀ d ∈ ds, d.2.FieldsHave registry c? Q) {e : Entity}
    (h : ((Json.obj ms).reading registry c?).entity () = .ok e) : ∀ d ∈ e.graph, Q (.obj ms) d := by
  obtain ⟨p, hp, hread⟩ := entity_eq_ok_iff.mp h
  have he := (Entity.ofPrimitive_eq_ok_iff hregistry).mp hread
  have hmem := Record.mem_of_get? (Primitive.get?_data_of_ofMembers hp)
  rw [Entity.graph_eq, List.forall_mem_cons]
  refine ⟨hQ.read ms p e hp he, ?_⟩
  intro d hd
  obtain ⟨⟨n, v⟩, hq, hd⟩ := List.mem_flatMap.mp hd
  -- The data is an object among the members, so it lies one level deeper than the primitive.
  have hcarry (m : String × Json) (hm : m ∈ p.data) (h : Q m.2 d) : Q (.obj ms) d :=
    hQ.member ms _ hmem d (hQ.member p.data m hm d h)
  rcases he.origin (hdata _ hmem _ rfl) hq hd with ⟨m, hm, h⟩ | hsupplied | hmade
  · exact hcarry m hm h
  · exact hQ.supplied ms p d hp hsupplied
  · exact hQ.made _ d hmade

/-- All entities that are read from a document have the property, and so do those in what any
kind reads. -/
theorem entities (hregistry : registry.WellFormed) (j : Json) :
    (∀ e, (j.reading registry c?).entity () = .ok e → ∀ d ∈ e.graph, Q j d) ∧
      j.FieldsHave registry c? Q := by
  induction j using Json.nested with
  | null | bool | int | float | str => exact ⟨nofun, hQ.fields_leaf rfl rfl⟩
  | arr js ih => exact ⟨nofun, hQ.fields_arr fun j hj => (ih j hj).symm⟩
  | obj ms ih ihdata =>
      have hentity (e : Entity) (h : ((Json.obj ms).reading registry c?).entity () = .ok e) :=
        hQ.entity hregistry (fun m hm ds hds d hd => (ihdata m hm ds hds d hd).2) h
      exact ⟨hentity, hQ.fields_obj (fun m hm => (ih m hm).2) hentity⟩

end Json.Tracked

end

end Skew

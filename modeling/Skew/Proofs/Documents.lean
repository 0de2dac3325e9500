import Skew.Proofs.Gathering
import Skew.Proofs.Invariants
import Skew.Proofs.VersionText
import Skew.Wire.Reading
import Skew.Wire.Writing

/-!
# Documents of entities

The equations by which later proofs write and read entities. The document of a
primitive is read back as that primitive (`Json.entity_toJson`), passes over nested
documents are passes over lists, and both the data that an entity writes and the
values that it is filled with are gathered field by field.
-/

namespace Skew

/-! ## Primitives -/

namespace Primitive

/-- The members of the document. -/
def members (p : Primitive) : Members :=
  (if p.changes.isEmpty then [] else [(changesKey, Json.arr (p.changes.map .str))]) ++
    [(dataKey, .obj p.data), (nameKey, .str p.name), (spaceKey, .str p.space),
      (versionKey, .str p.version)]

theorem toJson_eq (p : Primitive) : p.toJson = .obj p.members := rfl

theorem readNames_str (names : List String) : readNames (.arr (names.map .str)) = .ok names := by
  have h : (names.map Json.str).mapM readString = .ok (names.map id) :=
    List.mapM_map_eq_ok fun _ _ => rfl
  rwa [List.map_id] at h

/-! ### Reading envelopes -/

theorem readString_eq_ok_iff {j : Json} {s : String} : readString j = .ok s ↔ j = .str s := by
  cases j <;> simp [readString]

theorem readMap_eq_ok_iff {j : Json} {ms : Members} : readMap j = .ok ms ↔ j = .obj ms := by
  cases j <;> simp [readMap]

theorem readNames_eq_ok_iff {j : Json} {names : List String} :
    readNames j = .ok names ↔ j = .arr (names.map .str) := by
  constructor
  · intro h
    cases j with
    | arr js =>
        have hread : List.Forall₂ (fun j n => j = Json.str n) js names :=
          (List.mapM_eq_ok_iff.mp h).imp fun _ _ => readString_eq_ok_iff.mp
        have hmap : js.map id = names.map Json.str := List.map_eq_map_iff_forall₂.mpr hread
        rw [← hmap, List.map_id]
    | _ => cases h
  · rintro rfl
    exact readNames_str names

section

variable {α : Type} {ms : Members} {key : String} {read : Json → Outcome α}

theorem readKey?_eq_ok_iff {a? : Option α} : readKey? ms key read = .ok a? ↔
    Record.get? ms key = none ∧ a? = none ∨
      ∃ j a, Record.get? ms key = some j ∧ read j = .ok a ∧ a? = some a := by
  rw [readKey?]
  cases Record.get? ms key with
  | none => simp [eq_comm]
  | some j => simp [Except.map_eq_ok_iff, @eq_comm _ a?]

theorem required_eq_ok_iff {a? : Option α} {a : α} : required key a? = .ok a ↔ a? = some a := by
  cases a? <;> simp [required]

theorem readKey?_eq_some_iff {a : α} : readKey? ms key read = .ok (some a) ↔
    ∃ j, Record.get? ms key = some j ∧ read j = .ok a := by
  simp [readKey?_eq_ok_iff]

end

/-- The members under the five keys are those of a primitive; there may be others. -/
structure Envelope (ms : Members) (p : Primitive) : Prop where
  space : Record.get? ms spaceKey = some (.str p.space)
  name : Record.get? ms nameKey = some (.str p.name)
  version : Record.get? ms versionKey = some (.str p.version)
  data : Record.get? ms dataKey = some (.obj p.data)
  changes : Record.get? ms changesKey = none ∧ p.changes = [] ∨
    Record.get? ms changesKey = some (.arr (p.changes.map .str))

theorem ofMembers_eq_ok_iff {ms : Members} {p : Primitive} :
    ofMembers ms = .ok p ↔ Envelope ms p := by
  constructor
  · intro h
    simp only [ofMembers, Except.bind_eq_ok_iff, required_eq_ok_iff] at h
    obtain ⟨changes?, hchanges, _, hdata, _, hname, _, hspace, _, hversion, space, rfl, name, rfl,
      version, rfl, data, rfl, h⟩ := h
    cases h
    simp only [readKey?_eq_some_iff, readString_eq_ok_iff, readMap_eq_ok_iff,
      exists_eq_right] at hdata hname hspace hversion
    refine ⟨hspace, hname, hversion, hdata, ?_⟩
    simp only [readKey?_eq_ok_iff, readNames_eq_ok_iff] at hchanges
    rcases hchanges with ⟨hnone, rfl⟩ | ⟨_, names, hsome, rfl, rfl⟩
    · exact Or.inl ⟨hnone, rfl⟩
    · exact Or.inr hsome
  · rintro ⟨hspace, hname, hversion, hdata, hchanges⟩
    have hread : ∃ changes?, readKey? ms changesKey readNames = .ok changes? ∧
        changes?.getD [] = p.changes := by
      rcases hchanges with ⟨hnone, hempty⟩ | hsome
      · exact ⟨none, readKey?_eq_ok_iff.mpr (.inl ⟨hnone, rfl⟩), hempty.symm⟩
      · exact ⟨some p.changes,
          readKey?_eq_some_iff.mpr ⟨_, hsome, readNames_str p.changes⟩, rfl⟩
    obtain ⟨changes?, hread, hchanges⟩ := hread
    rw [ofMembers, hread]
    simp only [readKey?, hspace, hname, hversion, hdata, readString, readMap, Except.ok_map,
      Except.ok_bind, required, hchanges]

/-- The document of a primitive is an envelope of it. -/
theorem envelope_members (p : Primitive) : Envelope p.members p := by
  obtain ⟨space, name, version, data, changes⟩ := p
  cases changes with
  | nil => exact ⟨rfl, rfl, rfl, rfl, .inl ⟨rfl, rfl⟩⟩
  | cons n names => exact ⟨rfl, rfl, rfl, rfl, .inr rfl⟩

/-- The members of a primitive are read as that primitive. -/
theorem ofMembers_members (p : Primitive) : ofMembers p.members = .ok p :=
  ofMembers_eq_ok_iff.mpr p.envelope_members

theorem toJson_injective : Function.Injective toJson := by
  intro p q h
  rw [toJson_eq, toJson_eq, Json.obj.injEq] at h
  have hp := p.ofMembers_members
  rw [h, q.ofMembers_members] at hp
  exact (Except.ok.inj hp).symm

theorem get?_members_version (p : Primitive) :
    Record.get? p.members versionKey = some (.str p.version) :=
  p.envelope_members.version

theorem get?_members_data (p : Primitive) :
    Record.get? p.members dataKey = some (.obj p.data) :=
  p.envelope_members.data

theorem get?_members_name (p : Primitive) :
    Record.get? p.members nameKey = some (.str p.name) :=
  p.envelope_members.name

theorem contains_members_name (p : Primitive) : Record.contains p.members nameKey = true := by
  rw [Record.contains, get?_members_name]
  rfl

end Primitive

/-! ## Passes over nested documents -/

section

variable [Codecs] (registry : Registry) (context? : Option Context)

theorem Json.itemReadings_eq (js : List Json) :
    Json.itemReadings registry context? js = js.map (Json.reading registry context?) := by
  induction js with
  | nil => rfl
  | cons j js ih => rw [Json.itemReadings, ih, List.map_cons]

theorem Json.memberReadings_eq (ms : Members) :
    Json.memberReadings registry context? ms =
      ms.map fun m => (m.1, m.2.reading registry context?) := by
  induction ms with
  | nil => rfl
  | cons m ms ih => rw [Json.memberReadings, ih, List.map_cons]

theorem Json.dataReadings_members (p : Primitive) :
    Json.dataReadings registry context? p.members =
      Json.memberReadings registry context? p.data := by
  obtain ⟨space, name, version, data, changes⟩ := p
  cases changes <;> simp [Primitive.members, Json.dataReadings, Primitive.dataKey]

/-- The document of a primitive, read as an entity. -/
theorem Json.entity_toJson (p : Primitive) :
    (p.toJson.reading registry context?).entity () = Entity.ofPrimitive registry context? p := by
  rw [Primitive.toJson_eq, Json.reading]
  simp only [Primitive.ofMembers_members, Except.ok_bind, Json.dataReadings_members]
  rfl

/-- The document of a primitive, read as a field that composes an entity. -/
theorem Json.field_toJson (p : Primitive) (name : String) {kind : Kind} {type : String}
    (hkind : kind.bare = .object type) :
    (p.toJson.reading registry context?).field name kind =
      (Entity.ofPrimitive registry context? p >>= fun e =>
        (Kind.object type).accept name (.entity e)) := by
  rw [← Json.entity_toJson, Primitive.toJson_eq, Json.reading]
  simp only [hkind]

theorem Value.writeItems_eq (vs : List Value) (field : String) (kind : Kind) :
    Value.writeItems vs field kind = vs.mapM fun v => v.write field kind := by
  induction vs with
  | nil => rfl
  | cons v vs ih => rw [Value.writeItems, ih, List.mapM_cons]; rfl

theorem Value.writeEntries_eq (es : List (String × Value)) (field : String) (kind : Kind) :
    Value.writeEntries es field kind = mapEntriesM (fun v => v.write field kind) es := by
  induction es with
  | nil => rfl
  | cons e es ih =>
      rw [Value.writeEntries, ih, mapEntriesM, mapEntriesM, List.mapM_cons]
      cases e.2.write field kind <;> rfl

omit [Codecs] in
theorem Json.ofFloat?_eq_some_iff {x : Float} {j : Json} :
    Json.ofFloat? x = some j ↔ x.isFinite = true ∧ j = .float x := by
  unfold Json.ofFloat?
  split
  · next hx => rw [Option.some.injEq, and_iff_right hx, eq_comm]
  · next hx => exact iff_of_false nofun fun h => hx h.1

theorem Value.write_float {v : Value} {x : Float} (hv : v.float? = some x) {name : String}
    {nonNegative : Bool} {j : Json} :
    v.write name (.float nonNegative) = .ok j ↔ x.isFinite = true ∧ j = .float x := by
  have hscalar : v.writeScalar? (.float nonNegative) = Json.ofFloat? x := by
    cases v <;> cases hv <;> rfl
  have hleaf : v.write name (.float nonNegative) = v.writeLeaf name (.float nonNegative) := by
    cases v <;> cases hv <;> rfl
  rw [← Json.ofFloat?_eq_some_iff, hleaf]
  simp only [writeLeaf, hscalar]
  cases Json.ofFloat? x with
  | none => exact iff_of_false nofun nofun
  | some i => rw [Except.ok.injEq, Option.some.injEq]

theorem Value.write_nullable (v : Value) (name : String) (k : Kind) :
    v.write name (.nullable k) = v.write name k := by
  cases v <;> rfl

theorem Value.write_list {v : Value} {vs : List Value} (hv : v.items? = some vs) (name : String)
    (k : Kind) : v.write name (.list k) = (vs.mapM fun w : Value => w.write name k).map .arr := by
  rw [← writeItems_eq]
  cases v <;> cases hv <;> rfl

theorem Value.write_set {v : Value} {vs : List Value} (hv : v.items? = some vs) (name : String)
    (k : Kind) : v.write name (.set k) = (vs.mapM fun w : Value => w.write name k).map .arr := by
  rw [← writeItems_eq]
  cases v <;> cases hv <;> rfl

theorem Value.write_dict (es : List (String × Value)) (name : String) (k : Kind) :
    (Value.map es).write name (.dict k) =
      (mapEntriesM (fun w : Value => w.write name k) es).map .obj := by
  rw [← writeEntries_eq]
  rfl

/-- An element that must be an entity. -/
def Value.writeObject (mismatch : EntityError) : Value → Outcome Json
  | .entity e => e.write.map Primitive.toJson
  | _ => .error mismatch

theorem Value.writeObjects_eq (vs : List Value) (mismatch : EntityError) :
    writeObjects vs mismatch = vs.mapM (writeObject mismatch) := by
  induction vs with
  | nil => rfl
  | cons v vs ih =>
      rw [List.mapM_cons]
      cases v with
      | entity e =>
          rw [writeObjects, writeObject, ih]
          cases e.write <;> rfl
      | _ => rfl

theorem Value.write_listOfObjects {v : Value} {vs : List Value} (hv : v.items? = some vs)
    (name type : String) : v.write name (.listOfObjects type) =
      (vs.mapM (writeObject (.invalidValue name (.unwritable v.shape (.listOfObjects type))))).map
        .arr := by
  rw [← writeObjects_eq]
  cases v <;> cases hv <;> rfl

theorem Value.writeObjects_entities (es : List Entity) (mismatch : EntityError) :
    Value.writeObjects (es.map Value.entity) mismatch =
      es.mapM fun e => e.write.map Primitive.toJson := by
  induction es with
  | nil => rfl
  | cons e es ih =>
      rw [List.map_cons, Value.writeObjects, ih, List.mapM_cons]
      cases e.write <;> rfl

theorem Entity.writers_eq (es : List (String × Value)) :
    Entity.writers es = es.map fun e => (e.1, e.2.write e.1) := by
  induction es with
  | nil => rfl
  | cons e es ih => rw [Entity.writers, ih, List.map_cons]

/-! ## Data and values, field by field -/

/-- What a set field is written as. -/
def Entity.writeField (e : Entity) (name : String) (f : Field) : Option (Outcome Json) :=
  (Record.get? e.values name).map fun v => v.write name f.kind

theorem Entity.data_eq_gather (e : Entity) :
    e.data = Record.gather e.schema.fields e.writeField [] := by
  rw [Entity.data, Schema.writeData, Record.gather]
  refine congrArg (fun step => e.schema.fields.foldlM step [])
    (funext fun data => funext fun p => ?_)
  have hget : Record.get? (Entity.writers e.values) p.1 =
      (Record.get? e.values p.1).map fun v => v.write p.1 := by
    rw [Entity.writers_eq, ← Record.get?_map fun n v => Value.write v n]
  obtain ⟨name, f⟩ := p
  simp only [hget, Entity.writeField]
  cases Record.get? e.values name with
  | none => rfl
  | some v =>
      simp only [Option.map_some]
      cases v.write name f.kind <;> rfl

/-- The data of a schema with one field. -/
theorem Entity.data_of_single {e : Entity} {n : String} {f : Field}
    (h : e.schema.fields = [(n, f)]) {v : Value} (hv : Record.get? e.values n = some v) :
    e.data = (v.write n f.kind).map fun j => [(n, j)] := by
  rw [Entity.data_eq_gather, h, Record.gather, List.foldlM_cons]
  simp only [Entity.writeField, hv, Option.map_some]
  cases v.write n f.kind <;> rfl

/-- The data that an entity writes has one entry for each set field, in any order of
declaration. -/
theorem Entity.data_eq_ok_iff {e : Entity} (h : e.schema.fieldNames.Nodup) {data : Members} :
    e.data = .ok data ↔ Record.Ascending data ∧
      (∀ n ∈ data.map (·.1), n ∈ e.schema.fieldNames) ∧
      ∀ p ∈ e.schema.fields, e.writeField p.1 p.2 = (Record.get? data p.1).map .ok := by
  rw [Entity.data_eq_gather, Record.gather_eq_ok_iff h]
  rfl

/-- The entry of a field in written data is what the value of the field is written as. -/
theorem Entity.get?_data {e : Entity} (h : e.schema.fieldNames.Nodup) {data : Members}
    (hdata : e.data = .ok data) {n : String} {f : Field} (hfield : e.schema.field? n = some f) :
    (Record.get? data n).map Except.ok =
      (Record.get? e.values n).map fun v => v.write n f.kind :=
  (((Entity.data_eq_ok_iff h).mp hdata).2.2 (n, f) (Record.mem_of_get? hfield)).symm

/-- An entry in written data is that of a field that is declared and set. -/
theorem Entity.exists_of_get?_data {e : Entity} (h : e.schema.fieldNames.Nodup) {data : Members}
    (hdata : e.data = .ok data) {n : String} {j : Json} (hj : Record.get? data n = some j) :
    ∃ f v, e.schema.field? n = some f ∧ Record.get? e.values n = some v ∧
      v.write n f.kind = .ok j := by
  obtain ⟨-, hdeclared, -⟩ := (Entity.data_eq_ok_iff h).mp hdata
  obtain ⟨⟨_, f⟩, hf, rfl⟩ :=
    List.mem_map.mp (hdeclared n (List.mem_map_of_mem (Record.mem_of_get? hj)))
  have hfield : e.schema.field? _ = some f := Record.get?_of_mem h hf
  have hget := Entity.get?_data h hdata hfield
  rw [hj] at hget
  obtain ⟨v, hv, hwrite⟩ := Option.map_eq_some_iff.mp hget.symm
  exact ⟨f, v, hfield, hv, hwrite⟩

/-- A field that is declared and set has an entry in written data. -/
theorem Entity.exists_get?_data {e : Entity} (h : e.schema.fieldNames.Nodup) {data : Members}
    (hdata : e.data = .ok data) {n : String} {f : Field} {v : Value}
    (hfield : e.schema.field? n = some f) (hv : Record.get? e.values n = some v) :
    ∃ j, Record.get? data n = some j ∧ v.write n f.kind = .ok j := by
  have hget := get?_data h hdata hfield
  rw [hv] at hget
  obtain ⟨j, hj, hwrite⟩ := Option.map_eq_some_iff.mp hget
  exact ⟨j, hj, hwrite.symm⟩

/-- Written data has entries for the set fields. -/
theorem Entity.mem_data_names {e : Entity} (h : e.schema.fieldNames.Nodup) {data : Members}
    (hdata : e.data = .ok data) {n : String} : n ∈ data.map (·.1) ↔ n ∈ e.setFields := by
  rw [← Record.contains_iff_mem, Record.contains_iff, setFields, List.mem_filter, isSet,
    Record.contains_iff]
  constructor
  · rintro ⟨j, hj⟩
    obtain ⟨f, v, hf, hv, -⟩ := exists_of_get?_data h hdata hj
    exact ⟨List.mem_map_of_mem (Record.mem_of_get? hf), v, hv⟩
  · rintro ⟨hn, v, hv⟩
    obtain ⟨⟨_, f⟩, hf, rfl⟩ := List.mem_map.mp hn
    obtain ⟨j, hj, -⟩ := exists_get?_data h hdata (Record.get?_of_mem h hf) hv
    exact ⟨j, hj⟩

theorem Entity.write_eq (e : Entity) : e.write = e.data.map (e.wrap e.version) := by
  cases e; rfl

/-- What a field stores for a document that was read. -/
def Field.take (f : Field) (name : String) (r : Reading) : Outcome Value := do
  let v ← f.read name r
  inField name (f.coerce v)

def Entity.fillField (readings : Record Reading) (e : Entity) (p : String × Field) :
    Outcome Entity :=
  match Record.get? readings p.1 with
  | some r => do
    let v ← p.2.read p.1 r
    e.store p.1 v
  | none => .ok e

theorem Entity.fill_eq (e : Entity) (readings : Record Reading) :
    e.fill readings = e.schema.fields.foldlM (fillField readings) e := rfl

theorem Entity.fill_eq_gather {e : Entity} (h : e.schema.fieldNames.Nodup)
    (readings : Record Reading) :
    e.fill readings = (Record.gather e.schema.fields (fun n f => (Record.get? readings n).map
      (f.take n)) e.values).map fun values => { e with values := values } := by
  obtain ⟨schema, version, context?, values, changed⟩ := e
  have hfill (fields : List (String × Field))
      (hfields : ∀ p ∈ fields, schema.field? p.1 = some p.2) (values : Record Value) :
      fields.foldlM (fillField readings) ⟨schema, version, context?, values, changed⟩ =
      (Record.gather fields (fun n f => (Record.get? readings n).map (f.take n)) values).map
        fun values => ⟨schema, version, context?, values, changed⟩ := by
    induction fields generalizing values with
    | nil => rfl
    | cons p fields ih =>
        obtain ⟨hp, hfields⟩ := List.forall_mem_cons.mp hfields
        rw [Record.gather, List.foldlM_cons, List.foldlM_cons, fillField]
        cases Record.get? readings p.1 with
        | none => exact ih hfields values
        | some r =>
            simp only [Option.map_some, Field.take]
            cases p.2.read p.1 r with
            | error err => rfl
            | ok v =>
                simp only [Except.ok_bind, Entity.store, Schema.requireField, hp]
                cases inField p.1 (p.2.coerce v) with
                | error err => rfl
                | ok w => exact ih hfields (Record.insert values p.1 w)
  rw [fill_eq]
  exact hfill schema.fields (fun p hp => Record.get?_of_mem h hp) values

end

end Skew

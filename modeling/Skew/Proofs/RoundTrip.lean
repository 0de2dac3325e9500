import Skew.Proofs.Documents
import Skew.Proofs.InstantText
import Skew.Proofs.Storage
import Skew.Wire.Backport

/-!
# The round trip of an entity

An entity whose fields hold what they store, written and then read over a registry
that knows its types, arrives: same schema, version and set fields, equal values, same
changed fields, at every depth, all of it bound to the context of the reader
(`Entity.ofJson_toJson`).

The induction is on the nesting of entities. Inside one entity the kinds are followed
down the containers, where the two directions meet value by value
(`Kind.Stores.reads_back`); the entities found there are those the induction is about.
-/

namespace Skew

/-! ## What the wire keeps -/

/-- A scalar that its wire form determines: a finite float, or an instant that the
wire text shows in full. -/
def Value.Exact : Value → Prop
  | .float x => x.isFinite = true
  | .datetime t => t.Exact
  | _ => True

theorem Value.ofInt_toInt (n : Int64) : Value.ofInt n.toInt = .int n := by
  rw [Value.ofInt, if_pos ⟨n.minValue_le_toInt, n.toInt_le⟩, Int64.ofInt_toInt]

theorem Float.beq_self_of_isFinite {x : Float} (h : x.isFinite = true) : (x == x) = true := by
  show x.toModel.unpack.beq x.toModel.unpack = true
  replace h : x.toModel.unpack.isFinite = true := h
  generalize x.toModel.unpack = u at h ⊢
  cases u with
  | infinity s => cases h
  | notANumber => cases h
  | zero s => rfl
  | finite s m e _ =>
      have hsame : (compare e e).then (compare m m) = .eq := by
        rw [show compare e e = .eq from Std.ReflCmp.compare_self,
          show compare m m = .eq from Std.ReflCmp.compare_self, Ordering.eq_then]
      cases s with
      | positive =>
          show (some ((compare e e).then (compare m m)) == some .eq) = true
          rw [hsame]
          rfl
      | negative =>
          show (some ((compare e e).then (compare m m)).swap == some .eq) = true
          rw [hsame]
          rfl

/-- Values without indeterminate floats are equal to themselves. -/
theorem Value.beq_self {v : Value} (hexact : ∀ a ∈ v.atoms, a.Exact)
    (hgraph : ∀ d ∈ v.graph, ∀ p ∈ d.values, ∀ a ∈ p.2.atoms, a.Exact) :
    Value.beq v v = true := by
  induction v using Value.nested with
  | null => rfl
  | bool b => exact beq_self_eq_true b
  | int n => exact beq_self_eq_true n
  | float x => exact Float.beq_self_of_isFinite (hexact (.float x) List.mem_cons_self)
  | str s => exact beq_self_eq_true s
  | datetime t => exact beq_self_eq_true t
  | list vs ih | tuple vs ih | set vs ih =>
      exact beqItems_self fun v hv =>
        ih v hv (forall_atoms_items hexact v hv) (forall_graph_items hgraph v hv)
  | map es ih =>
      exact beqEntries_self fun e he =>
        ih e he (forall_atoms_entries hexact e he) (forall_graph_entries hgraph e he)
  | entity e ih =>
      have hvalues : beqEntries e.values e.values = true := beqEntries_self fun p hp =>
        ih p hp (hgraph e e.self_mem_graph p hp) (Entity.forall_graph_values hgraph p hp)
      obtain ⟨schema, version, context?, values, changed⟩ := e
      simpa [beq, Entity.beq] using hvalues

section

variable [Codecs]

/-- The values of an entity are what their fields store, its type is known under the
version it has, and the wire keeps its scalars. -/
structure Entity.Writable (registry : Registry) (e : Entity) : Prop where
  coherent : e.Coherent
  known : registry.resolve e.schema.name e.version = .ok e.schema
  stored : ∀ p ∈ e.values, ∀ f, e.schema.field? p.1 = some f → f.coerce p.2 = .ok p.2
  lossless : ∀ p ∈ e.schema.fields, p.2.kind.Lossless
  exact : ∀ p ∈ e.values, ∀ a ∈ p.2.atoms, a.Exact

/-- An entity that can be written and that lists its changes in order. -/
structure Entity.Sendable (registry : Registry) (e : Entity) : Prop
    extends e.Writable registry where
  changed : NameSet.Ascending e.changed

omit [Codecs] in
theorem Value.exact_received_iff {c? : Option Context} {v : Value} :
    (v.received c?).Exact ↔ v.Exact := by
  cases v <;> rfl

/-- Whether an entity can be written does not depend on where it is. -/
theorem Entity.writable_received_iff {registry : Registry} {c? : Option Context} {e : Entity} :
    (e.received c?).Writable registry ↔ e.Writable registry := by
  have hstored : (∀ p ∈ e.schema.fields, p.2.kind.Lossless) →
      ((∀ p ∈ (e.received c?).values, ∀ f, e.schema.field? p.1 = some f →
        f.coerce p.2 = .ok p.2) ↔
      ∀ p ∈ e.values, ∀ f, e.schema.field? p.1 = some f → f.coerce p.2 = .ok p.2) := by
    intro hk
    rw [e.received_values, List.forall_mem_map]
    refine forall₂_congr fun p _ => forall₂_congr ?_
    intro f hf
    exact Field.coerce_received_iff (hk _ (Record.mem_of_get? hf))
  have hexact : (∀ p ∈ (e.received c?).values, ∀ a ∈ p.2.atoms, a.Exact) ↔
      ∀ p ∈ e.values, ∀ a ∈ p.2.atoms, a.Exact := by
    rw [e.received_values, List.forall_mem_map]
    refine forall₂_congr ?_
    intro p _
    rw [Value.atoms_received, List.forall_mem_map]
    exact forall₂_congr fun a _ => Value.exact_received_iff
  constructor
  · rintro ⟨hcoherent, hknown, hst, hk, hex⟩
    rw [e.received_schema] at hknown hst hk
    rw [e.received_version] at hknown
    exact ⟨hcoherent.of_received, hknown, (hstored hk).mp hst, hk, hexact.mp hex⟩
  · rintro ⟨hcoherent, hknown, hst, hk, hex⟩
    refine ⟨(hcoherent.received c?).toCoherent, ?_, ?_, ?_, hexact.mpr hex⟩
    · rwa [e.received_schema, e.received_version]
    · rw [e.received_schema]
      exact (hstored hk).mpr hst
    · rwa [e.received_schema]

/-- The entity can be written, and what is written is read as its arrival. -/
def Entity.Returns (registry : Registry) (c? : Option Context) (e : Entity) : Prop :=
  ∃ p, e.write = .ok p ∧ Entity.ofPrimitive registry c? p = .ok (e.received c?)

/-! ## Values -/

/-- The wire keeps what stands in a value by a kind: scalars that it writes itself are determined
by their wire form, and the entities satisfy the condition. Codecs see to their own values. -/
def Kind.Keeps (R : Entity → Prop) : Kind → Value → Prop
  | .float _, .float x => x.isFinite = true
  | .datetime, .datetime t => Calendar.Instant.read? t.wireText = some t
  | .list k, .list vs => ∀ v ∈ vs, Kind.Keeps R k v
  | .set k, .set vs => ∀ v ∈ vs, Kind.Keeps R k v
  | .dict k, .map es => ∀ e ∈ es, Kind.Keeps R k e.2
  | .nullable k, v => Kind.Keeps R k v
  | .object _, .entity e => R e
  | .listOfObjects _, .list vs => ∀ e, .entity e ∈ vs → R e
  | _, _ => True

omit [Codecs] in
theorem Kind.keeps_null {R : Entity → Prop} (k : Kind) : k.Keeps R .null := by
  induction k with
  | nullable k ih => exact ih
  | _ => trivial

omit [Codecs] in
theorem Kind.keeps_bare_iff {R : Entity → Prop} {k : Kind} {v : Value} :
    k.bare.Keeps R v ↔ k.Keeps R v := by
  induction k with
  | nullable k ih => exact ih
  | _ => rfl

omit [Codecs] in
/-- Whatever the kind, exact scalars are kept. -/
theorem Kind.keeps_of_exact {R : Entity → Prop} {k : Kind} {v : Value}
    (hexact : ∀ a ∈ v.atoms, a.Exact) (hgraph : ∀ d ∈ v.graph, R d) : k.Keeps R v := by
  induction k generalizing v with
  | nullable k ih => exact ih hexact hgraph
  | float nonNegative =>
      cases v with
      | float x => exact hexact (.float x) List.mem_cons_self
      | _ => trivial
  | datetime =>
      cases v with
      | datetime t =>
          have ht : t.Exact := hexact (.datetime t) List.mem_cons_self
          exact Calendar.Instant.read?_wireText ht
      | _ => trivial
  | list k ih =>
      cases v with
      | list vs =>
          exact fun v hv => ih (Value.forall_atoms_items hexact v hv)
            (Value.forall_graph_items hgraph v hv)
      | _ => trivial
  | set k ih =>
      cases v with
      | set vs =>
          exact fun v hv => ih (Value.forall_atoms_items hexact v hv)
            (Value.forall_graph_items hgraph v hv)
      | _ => trivial
  | dict k ih =>
      cases v with
      | map es =>
          exact fun e he => ih (Value.forall_atoms_entries hexact e he)
            (Value.forall_graph_entries hgraph e he)
      | _ => trivial
  | object type =>
      cases v with
      | entity e => exact hgraph e e.self_mem_graph
      | _ => trivial
  | listOfObjects type =>
      cases v with
      | list vs =>
          exact fun e he => Value.forall_graph_items hgraph _ he e e.self_mem_graph
      | _ => trivial
  | _ => trivial

theorem Value.write_bare (v : Value) (name : String) (k : Kind) :
    v.write name k.bare = v.write name k := by
  cases v <;> simp only [Value.write, Kind.bare_bare]

/-- A custom kind leaves every value but null to its codec. -/
theorem Value.write_custom {v : Value} (hv : v.isNull = false) (name c : String) :
    v.write name (.custom c) =
      ((Codecs.codec c).write v).mapError fun r => .invalidValue name (.codec r) := by
  cases v <;> first | rfl | cases hv

variable {registry : Registry} {c? : Option Context}

theorem Json.field_bare (j : Json) (name : String) (k : Kind) :
    (j.reading registry c?).field name k.bare = (j.reading registry c?).field name k := by
  cases j <;> simp only [Json.reading, Kind.bare_bare]

/-- A custom kind leaves every document but null to its codec. -/
theorem Json.field_custom {j : Json} (hj : j.isNull = false) (name c : String) :
    (j.reading registry c?).field name (.custom c) =
      ((Codecs.codec c).read j).mapError fun r => .invalidValue name (.codec r) := by
  cases j <;> first | rfl | cases hj

/-- What a kind stores is written, and what is written is read by the kind as the
arrival of the value. -/
theorem Kind.Stores.reads_back {k : Kind} {v : Value} (h : k.Stores v) (hk : k.Lossless)
    (hkeeps : k.Keeps (Entity.Returns registry c?) v) (name : String) :
    ∃ j, v.write name k = .ok j ∧ (j.reading registry c?).field name k = .ok (v.received c?) := by
  induction h with
  | null => exact ⟨.null, rfl, rfl⟩
  | @nullable k v _ ih =>
      obtain ⟨j, hwrite, hread⟩ := ih hk hkeeps
      refine ⟨j, ?_, ?_⟩
      · rw [← Value.write_bare] at hwrite ⊢
        exact hwrite
      · rw [← Json.field_bare] at hread ⊢
        exact hread
  | @integer nonNegative n hn =>
      refine ⟨.int n.toInt, rfl, ?_⟩
      have hcoerce := (Kind.Stores.integer hn).coerce
      simp only [Json.reading, Kind.bare, Json.readLeaf, Value.ofJson, Value.ofInt_toInt,
        hcoerce, inField_ok, Value.received]
  | @float nonNegative x hx =>
      have hfinite : x.isFinite = true := hkeeps
      exact ⟨.float x, (Value.write_float rfl).mpr ⟨hfinite, rfl⟩,
        congrArg (inField name) (Kind.Stores.float hx).coerce⟩
  | string => exact ⟨_, rfl, rfl⟩
  | boolean => exact ⟨_, rfl, rfl⟩
  | @datetime t =>
      have ht : Calendar.Instant.read? t.wireText = some t := hkeeps
      refine ⟨.str t.wireText, rfl, ?_⟩
      simp only [Json.reading, Kind.bare, Json.readLeaf, Value.ofJson, Kind.coerce,
        coerceDatetime, ht, inField_ok, Value.received]
  | @uuid s hs => exact ⟨.str s, rfl, congrArg (inField name) (Kind.Stores.uuid hs).coerce⟩
  | @address s hs => exact ⟨.str s, rfl, congrArg (inField name) (Kind.Stores.address hs).coerce⟩
  | @enum valid s hs => exact ⟨.str s, rfl, congrArg (inField name) (Kind.Stores.enum hs).coerce⟩
  | @list k vs _ ih =>
      obtain ⟨js, hwrite, hread⟩ := List.mapM_mapM_eq_ok fun v hv => ih v hv hk (hkeeps v hv)
      refine ⟨.arr js, ?_, ?_⟩
      · simp only [Value.write, Kind.bare, Value.writeItems_eq, hwrite, Except.ok_map]
      · simp only [Json.reading, Kind.bare, Json.itemReadings_eq, List.mapM_map,
          Function.comp_def, hread, Except.ok_map, Value.received, Value.receivedItems_eq]
  | @set k vs _ hdedup ih =>
      obtain ⟨js, hwrite, hread⟩ := List.mapM_mapM_eq_ok fun v hv => ih v hv hk (hkeeps v hv)
      refine ⟨.arr js, ?_, ?_⟩
      · simp only [Value.write, Kind.bare, Value.writeItems_eq, hwrite, Except.ok_map]
      · simp only [Json.reading, Kind.bare, Json.itemReadings_eq, List.mapM_map,
          Function.comp_def, hread, Except.ok_map, Value.received, Value.receivedItems_eq,
          Value.setOf, Value.dedup_received, hdedup]
  | @dict k es _ ih =>
      have hentries (e : String × Value) (he : e ∈ es) : ∃ j, e.2.write name k = .ok j ∧
          (j.reading registry c?).field name k = .ok (e.2.received c?) :=
        ih e he hk (hkeeps e he)
      obtain ⟨ms, hwrite, hread⟩ := mapEntriesM_mapEntriesM_eq_ok (f := (·.write name k))
        (g := fun j => (j.reading registry c?).field name k) (h := Value.received c?) hentries
      refine ⟨.obj ms, ?_, ?_⟩
      · simp only [Value.write, Kind.bare, Value.writeEntries_eq, hwrite, Except.ok_map]
      · simp only [Json.reading, Kind.bare, Json.memberReadings_eq, mapEntriesM_map, hread,
          Except.ok_map, Value.received, Value.receivedEntries_eq]
  | @object e =>
      obtain ⟨p, hwrite, hread⟩ : e.Returns registry c? := hkeeps
      have hcoerce := ((Kind.Stores.object (e := e)).received hk c?).coerce
      refine ⟨p.toJson, ?_, ?_⟩
      · simp only [Value.write, Kind.bare, hwrite, Except.ok_map]
      · rw [Json.field_toJson registry c? p name rfl, hread, Except.ok_bind, Kind.accept]
        exact congrArg (inField name) hcoerce
  | @listOfObjects type vs hvs =>
      have hcoerce := ((Kind.Stores.listOfObjects hvs).received hk c?).coerce
      obtain ⟨es, rfl⟩ := Value.exists_entities fun v hv => (hvs v hv).imp fun _ h => h.1
      have hitems (e : Entity) (he : e ∈ es) : ∃ j, e.write.map Primitive.toJson = .ok j ∧
          (j.reading registry c?).entity () = .ok (e.received c?) := by
        obtain ⟨p, hwrite, hread⟩ : e.Returns registry c? := hkeeps e (List.mem_map_of_mem he)
        exact ⟨p.toJson, by rw [hwrite, Except.ok_map], by rw [Json.entity_toJson, hread]⟩
      obtain ⟨js, hwrite, hread⟩ := List.mapM_mapM_eq_ok hitems
      have hreceived : (Value.list (es.map Value.entity)).received c? =
          .list ((es.map (Entity.received c?)).map Value.entity) := by
        rw [Value.received, Value.receivedItems_eq, List.map_map, List.map_map]
        rfl
      refine ⟨.arr js, ?_, ?_⟩
      · simp only [Value.write, Kind.bare, Value.writeObjects_entities, hwrite, Except.ok_map]
      · rw [hreceived] at hcoerce ⊢
        simp only [Json.reading, Kind.bare, Json.itemReadings_eq, List.mapM_map,
          Function.comp_def, hread, Except.ok_bind, Kind.accept, hcoerce, inField_ok]
  | @custom c v hv =>
      cases hnull : v.isNull with
      | true =>
          cases v with
          | null => exact ⟨.null, rfl, rfl⟩
          | _ => cases hnull
      | false =>
          obtain ⟨j, hj, hwrite, hread⟩ := hk.inverts v hv hnull
          refine ⟨j, ?_, ?_⟩
          · rw [Value.write_custom hnull, hwrite, Except.mapError_ok]
          · rw [Json.field_custom hj, hread, Except.mapError_ok,
              Value.received_of_graph_nil c? (hk.closed v hv)]

/-- A field that stores null takes it from null. -/
theorem Field.take_null {f : Field} (h : f.coerce .null = .ok .null) (name : String) :
    f.take name (Json.reading registry c? .null) = .ok .null := by
  have hread : f.read name (Json.reading registry c? .null) = .ok .null := by
    simp only [Field.read, Json.reading, Except.ok_bind, h, inField_ok, ite_self]
  rw [Field.take, hread, Except.ok_bind, h, inField_ok]

/-- What a field stores is written, and what is written is stored as the arrival. -/
theorem Field.reads_back {f : Field} {v : Value} (h : f.coerce v = .ok v) (hk : f.kind.Lossless)
    (hkeeps : f.kind.Keeps (Entity.Returns registry c?) v) (name : String) :
    ∃ j, v.write name f.kind = .ok j ∧
      f.take name (j.reading registry c?) = .ok (v.received c?) := by
  rcases Field.null_or_stores h with rfl | ⟨hnull, hstores⟩
  · exact ⟨.null, rfl, Field.take_null h name⟩
  · obtain ⟨j, hwrite, hread⟩ := hstores.reads_back hk hkeeps name
    refine ⟨j, hwrite, ?_⟩
    have hreceived : (v.received c?).isNull = false := v.isNull_received c? ▸ hnull
    have hfield : f.read name (j.reading registry c?) = .ok (v.received c?) := by
      simp [Field.read, hread, hreceived]
    rw [Field.take, hfield, Except.ok_bind, f.coerce_of_not_null hreceived,
      (hstores.received hk c?).coerce]
    rfl

/-! ## Entities -/

omit [Codecs] in
/-- The primitive of an entity names what the registry knows. -/
theorem Entity.resolve_wrap (e : Entity) {version : Version} {schema : Schema}
    (hschema : registry.resolve e.schema.name version = .ok schema) (data : Members) :
    (e.wrap version data).resolve registry = .ok (schema, version) := by
  have hcontains : registry.contains e.schema.name = true := by
    obtain ⟨newest, hnewest, -⟩ := Except.bind_eq_ok_iff.mp hschema
    unfold Registry.latest Registry.schemas at hnewest
    rw [Registry.contains, Record.contains_iff]
    cases hget : Record.get? registry.types e.schema.name with
    | some ss => exact ⟨ss, rfl⟩
    | none => rw [hget] at hnewest; cases hnewest
  simp [Primitive.resolve, Entity.wrap, hcontains, hschema]

/-- An entity is read when the registry resolves its primitive and each field takes what
the data holds for it. -/
theorem Entity.ofPrimitive_eq_ok {p : Primitive} {schema : Schema} {version : Version}
    (hresolve : p.resolve registry = .ok (schema, version)) (hschema : schema.fieldNames.Nodup)
    {values : Record Value} (hvalues : Record.Ascending values)
    (hnames : ∀ n ∈ values.map (·.1), n ∈ schema.fieldNames)
    (hfields : ∀ q ∈ schema.fields,
      (Record.get? p.data q.1).map (fun j => q.2.take q.1 (j.reading registry c?)) =
        (Record.get? values q.1).map .ok) :
    Entity.ofPrimitive registry c? p = .ok ⟨schema, version, c?, values,
      NameSet.ofList (p.changes.filter (Record.contains values))⟩ := by
  have hgather : Record.gather schema.fields (fun n f => (Record.get?
      (Json.memberReadings registry c? p.data) n).map (f.take n)) [] = Except.ok values := by
    refine Record.gather_eq_pure hvalues hnames ?_
    intro q hq
    rw [Json.memberReadings_eq, Record.get?_map fun _ j => Json.reading registry c? j,
      Option.map_map]
    exact hfields q hq
  let e : Entity := ⟨schema, version, c?, [], []⟩
  have hfill : e.fill (Json.memberReadings registry c? p.data) =
      .ok ⟨schema, version, c?, values, []⟩ := by
    rw [Entity.fill_eq_gather (e := e) hschema, hgather]
    rfl
  simp only [ofPrimitive, Primitive.assemble, hresolve, Except.ok_bind]
  rw [hfill]
  rfl

/-- The data stands entry by entry beside the values, each written by its field and taken
back as the arrival. -/
def Entity.Sent (registry : Registry) (c? : Option Context) (e : Entity) (data : Members) : Prop :=
  List.Forall₂ (fun p q => p.1 = q.1 ∧ ∀ f, e.schema.field? p.1 = some f →
    p.2.write p.1 f.kind = .ok q.2 ∧
      f.take p.1 (q.2.reading registry c?) = .ok (p.2.received c?)) e.values data

omit [Codecs] in
theorem Entity.Coherent.exists_field {e : Entity} (h : e.Coherent) {p : String × Value}
    (hp : p ∈ e.values) : ∃ f, e.schema.field? p.1 = some f :=
  Record.contains_iff.mp (Record.contains_iff_mem.mpr
    (h.declared p.1 (Record.contains_iff_mem.mpr (List.mem_map_of_mem hp))))

/-- Where each field writes its value and takes it back, the data of the entity is sent. -/
theorem Entity.Coherent.exists_sent {e : Entity} (he : e.Coherent)
    (h : ∀ p ∈ e.values, ∀ f, e.schema.field? p.1 = some f → ∃ j, p.2.write p.1 f.kind = .ok j ∧
      f.take p.1 (j.reading registry c?) = .ok (p.2.received c?)) :
    ∃ data, e.Sent registry c? data := by
  refine List.exists_forall₂ ?_
  intro p hp
  obtain ⟨f, hf⟩ := he.exists_field hp
  obtain ⟨j, hwrite, htake⟩ := h p hp f hf
  refine ⟨(p.1, j), rfl, fun g hg => ?_⟩
  cases hf.symm.trans hg
  exact ⟨hwrite, htake⟩

namespace Entity.Sent

variable {e : Entity} {data : Members} (h : e.Sent registry c? data)
include h

theorem contains (n : String) : Record.contains data n = e.isSet n := by
  rw [isSet, Bool.eq_iff_iff, Record.contains_iff_mem, Record.contains_iff_mem,
    Record.names_eq_of_forall₂ h]

/-- The data is what the entity writes. -/
theorem writes (he : e.Coherent) : e.data = .ok data := by
  have hnames : e.values.map (·.1) = data.map (·.1) := Record.names_eq_of_forall₂ h
  refine (Entity.data_eq_ok_iff he.schema.fields).mpr
    ⟨he.values.of_names_eq hnames, fun n hn => ?_, fun q hq => ?_⟩
  · exact he.declared n (h.contains n ▸ Record.contains_iff_mem.mpr hn)
  · rcases Record.get?_of_forall₂ h q.1 with ⟨hv, hj⟩ | ⟨v, j, hv, hj, hR⟩
    · rw [writeField, hv, hj]; rfl
    · rw [writeField, hv, hj]
      exact congrArg some (hR q.2 (Record.get?_of_mem he.schema.fields hq)).1

/-- The data is read as the arrival of the entity. -/
theorem ofPrimitive (he : e.Coherent)
    (hknown : registry.resolve e.schema.name e.version = .ok e.schema) :
    Entity.ofPrimitive registry c? (e.wrap e.version data) = .ok (e.received c?) := by
  have hfields (q : String × Field) (hq : q ∈ e.schema.fields) :
      (Record.get? data q.1).map (fun j => q.2.take q.1 (j.reading registry c?)) =
        (Record.get? (e.received c?).values q.1).map .ok := by
    rw [e.received_get? c? q.1]
    rcases Record.get?_of_forall₂ h q.1 with ⟨hv, hj⟩ | ⟨v, j, hv, hj, hR⟩
    · rw [hv, hj]; rfl
    · rw [hv, hj]
      exact congrArg some (hR q.2 (Record.get?_of_mem he.schema.fields hq)).2
  have hnames : ∀ n ∈ (e.received c?).values.map (·.1), n ∈ e.schema.fieldNames := fun n hn =>
    he.declared n (e.received_isSet c? n ▸ Record.contains_iff_mem.mpr hn)
  -- Every marker names a set field, so none is lost on either side.
  have hsent : e.whatChanged.filter (Record.contains data) = e.whatChanged :=
    List.filter_eq_self.mpr fun n hn => h.contains n ▸ he.isSet_of_mem_whatChanged hn
  have hkept : e.whatChanged.filter (Record.contains (e.received c?).values) = e.whatChanged :=
    List.filter_eq_self.mpr fun n hn =>
      (e.received_isSet c? n).trans (he.isSet_of_mem_whatChanged hn)
  rw [Entity.ofPrimitive_eq_ok (e.resolve_wrap hknown data) he.schema.fields
    (he.received c?).values hnames hfields, Entity.wrap, hsent, hkept]
  cases e; rfl

end Entity.Sent

/-- An entity returns if each of its fields writes its value and takes it back. -/
theorem Entity.Coherent.returns {e : Entity} (he : e.Coherent)
    (hknown : registry.resolve e.schema.name e.version = .ok e.schema)
    (h : ∀ p ∈ e.values, ∀ f, e.schema.field? p.1 = some f → ∃ j, p.2.write p.1 f.kind = .ok j ∧
      f.take p.1 (j.reading registry c?) = .ok (p.2.received c?)) : e.Returns registry c? := by
  obtain ⟨data, hdata⟩ := he.exists_sent h
  refine ⟨e.wrap e.version data, ?_, hdata.ofPrimitive he hknown⟩
  rw [Entity.write_eq, hdata.writes he, Except.ok_map]

/-- Every entity that can be written returns. -/
theorem Entity.returns {e : Entity} (h : ∀ d ∈ e.graph, d.Writable registry) :
    e.Returns registry c? := by
  induction e using Entity.nested with
  | h e ih =>
      have he := h e e.self_mem_graph
      refine he.coherent.returns he.known fun p hp f hf => ?_
      have hnested (d : Entity) (hd : d ∈ p.2.graph) : d.Returns registry c? := ih p hp d hd
        fun x hx => Entity.forall_graph_values h p hp x (Value.graph_trans hd hx)
      exact Field.reads_back (he.stored p hp f hf) (he.lossless _ (Record.mem_of_get? hf))
        (Kind.keeps_of_exact (he.exact p hp) hnested) p.1

/-! ## Both ends -/

/-- What both ends agree on, of an entity and of what was read under a context. -/
structure Entity.Mirrors (c? : Option Context) (e d : Entity) : Prop where
  schema : d.schema = e.schema
  version : d.version = e.version
  context : d.context? = c?
  setFields : ∀ n, d.isSet n = e.isSet n
  values : (d == e) = true
  whatChanged : d.whatChanged = e.whatChanged

/-- A sendable entity and its arrival agree. -/
theorem Entity.mirrors_received {e : Entity} (h : ∀ d ∈ e.graph, d.Sendable registry)
    (c? : Option Context) : e.Mirrors c? (e.received c?) where
  schema := e.received_schema c?
  version := e.received_version c?
  context := e.received_context? c?
  setFields := e.received_isSet c?
  values := by
    have hself : Value.beq (.entity e) (.entity e) = true :=
      Value.beq_self (fun a ha => by cases List.mem_singleton.mp ha; trivial)
        fun d hd => (h d hd).exact
    have hbeq := Value.beq_received none none ((Value.entity e).received c?) (.entity e)
    rw [Value.received_received, Value.beq_received, hself] at hbeq
    exact hbeq.symm
  whatChanged := by
    have he := h e e.self_mem_graph
    have hchanged : NameSet.Ascending e.whatChanged :=
      Entity.WellFormed.whatChanged ⟨he.coherent, he.changed⟩
    rw [e.whatChanged_received, NameSet.ofList_eq_self hchanged]

/-- **The round trip.** An entity whose graph the registry knows, with the values that its
fields store, is written, and what is written is read as an entity that agrees with it at
every place of the graph. -/
theorem Entity.ofJson_toJson (registry : Registry) (c? : Option Context) (e : Entity)
    (h : ∀ d ∈ e.graph, d.Sendable registry) :
    ∃ p d, e.writeFor none = .ok p ∧ Entity.ofJson registry c? p.toJson = .ok d ∧
      List.Forall₂ (Entity.Mirrors c?) e.graph d.graph := by
  obtain ⟨p, hwrite, hread⟩ : e.Returns registry c? :=
    Entity.returns fun d hd => (h d hd).toWritable
  refine ⟨p, e.received c?, hwrite, (Json.entity_toJson registry c? p).trans hread, ?_⟩
  rw [e.graph_received, List.forall₂_map_right_iff, List.forall₂_same]
  intro d hd
  exact d.mirrors_received (fun x hx => h x (Entity.graph_trans hd hx)) c?

end

/-! ## A rack of hosts

A graph with a custom field, a set, nulls inside a container and a list of entities
makes the trip. -/

namespace Rack

/-- A codec that stores texts in upper case and marks them on the wire. -/
def upper : Codec where
  coerce
    | .str s => .ok (.str (String.ofList (s.toList.map Char.toUpper)))
    | v => .error ("no upper for " ++ v.shape.name)
  write
    | .str s => .ok (.str ("U:" ++ s))
    | _ => .error "not upper"
  read
    | .str s => match s.toList with
      | 'U' :: ':' :: cs => .ok (.str (String.ofList cs))
      | _ => .error "no U: prefix"
    | _ => .error "no U: prefix"

theorem upper_lossless : upper.Lossless where
  inverts v hv hnull := by
    cases v with
    | str s => exact ⟨.str ("U:" ++ s), rfl, rfl, by simp [upper]⟩
    | _ => cases hv
  closed v hv := by
    cases v with
    | str s => rfl
    | _ => cases hv

@[reducible] def codecs : Codecs := ⟨fun _ => upper⟩

attribute [local instance] codecs

def hostSchema : Schema :=
  ⟨"Host", ⟨1, 2, none⟩, [("name", ⟨.custom "Upper", false, none⟩),
    ("ports", ⟨.set (.integer true), false, none⟩),
    ("since", ⟨.nullable .datetime, true, none⟩)], [], [], none⟩

def rackSchema : Schema :=
  ⟨"Rack", ⟨2, 0, none⟩, [("hosts", ⟨.listOfObjects "Host", false, none⟩),
    ("notes", ⟨.dict (.nullable .string), false, none⟩)], [], [], none⟩

def types : Registry := ⟨[("Host", [hostSchema]), ("Rack", [rackSchema])]⟩

def host : Entity :=
  ⟨hostSchema, ⟨1, 2, none⟩, none, [("name", .str "A1"), ("ports", .set [.int 22, .int 80]),
    ("since", .datetime ⟨0, 0⟩)], ["name"]⟩

def rack : Entity :=
  ⟨rackSchema, ⟨2, 0, none⟩, none, [("hosts", .list [.entity host]),
    ("notes", .map [("a", .null), ("b", .str "x")])], ["notes"]⟩

theorem host_sendable : host.Sendable types where
  coherent := by decide
  changed := by decide
  known := rfl
  stored := by
    simp only [host, List.forall_mem_cons]
    exact ⟨fun _ hf => by cases hf; rfl, fun _ hf => by cases hf; rfl,
      fun _ hf => by cases hf; rfl, List.forall_mem_nil _⟩
  lossless := by
    simp only [host, hostSchema, List.forall_mem_cons, Kind.Lossless]
    exact ⟨upper_lossless, trivial, trivial, List.forall_mem_nil _⟩
  exact := by
    simp [host, Value.atoms, Value.itemAtoms, Value.Exact]
    exact ⟨Or.inl rfl, by decide⟩

theorem rack_sendable : rack.Sendable types where
  coherent := by decide
  changed := by decide
  known := rfl
  stored := by
    simp only [rack, List.forall_mem_cons]
    exact ⟨fun _ hf => by cases hf; rfl, fun _ hf => by cases hf; rfl, List.forall_mem_nil _⟩
  lossless := by
    simp only [rack, rackSchema, List.forall_mem_cons, Kind.Lossless]
    exact ⟨trivial, trivial, List.forall_mem_nil _⟩
  exact := by
    simp [rack, Value.atoms, Value.itemAtoms, Value.entryAtoms, Value.Exact]

theorem graph_sendable : ∀ d ∈ rack.graph, d.Sendable types :=
  List.forall_mem_cons.mpr ⟨rack_sendable, List.forall_mem_cons.mpr ⟨host_sendable, nofun⟩⟩

theorem rack_mirrored : (∀ d ∈ rack.graph, d.Sendable types) ∧
    ∃ p d, rack.writeFor none = .ok p ∧
      Entity.ofJson types (some (.ofUser "r1" "u" "p")) p.toJson = .ok d ∧
      List.Forall₂ (Entity.Mirrors (some (.ofUser "r1" "u" "p"))) rack.graph d.graph :=
  ⟨graph_sendable, rack.ofJson_toJson types _ graph_sendable⟩

/-! The kind alone is not enough: a kind that takes null leaves it as it is, but a field
that is not nullable refuses it on arrival. -/

def portSchema : Schema :=
  ⟨"Port", ⟨1, 0, none⟩, [("peer", ⟨.nullable (.integer false), false, none⟩)], [], [], none⟩

def port : Entity := ⟨portSchema, ⟨1, 0, none⟩, none, [("peer", .null)], []⟩

/-- Values that are null in nullable fields, or that the kind alone leaves as they are, may
be refused where they arrive. -/
theorem not_mirrored_of_kinds :
    ¬ ∀ (registry : Registry) (c? : Option Context) (e : Entity),
      (∀ d ∈ e.graph, d.WellFormed ∧
        registry.resolve d.schema.name d.version = .ok d.schema ∧
        (∀ p ∈ d.values, ∀ f, d.schema.field? p.1 = some f →
          p.2.isNull = true ∧ f.isNullable = true ∨ f.kind.coerce p.2 = .ok p.2) ∧
        (∀ p ∈ d.schema.fields, p.2.kind.Lossless) ∧
        ∀ p ∈ d.values, ∀ a ∈ p.2.atoms, a.Exact) →
      ∃ p d, e.writeFor none = .ok p ∧ Entity.ofJson registry c? p.toJson = .ok d ∧
        List.Forall₂ (Entity.Mirrors c?) e.graph d.graph := by
  intro h
  have hport : ∀ d ∈ port.graph, d.WellFormed ∧
      (Registry.mk [("Port", [portSchema])]).resolve d.schema.name d.version = .ok d.schema ∧
      (∀ p ∈ d.values, ∀ f, d.schema.field? p.1 = some f →
        p.2.isNull = true ∧ f.isNullable = true ∨ f.kind.coerce p.2 = .ok p.2) ∧
      (∀ p ∈ d.schema.fields, p.2.kind.Lossless) ∧
      ∀ p ∈ d.values, ∀ a ∈ p.2.atoms, a.Exact := by
    refine List.forall_mem_cons.mpr ⟨⟨by decide, rfl, ?_, ?_, ?_⟩, nofun⟩
    · exact List.forall_mem_cons.mpr ⟨fun _ hf => by cases hf; exact Or.inr rfl, nofun⟩
    · exact List.forall_mem_cons.mpr ⟨trivial, nofun⟩
    · exact List.forall_mem_cons.mpr ⟨List.forall_mem_cons.mpr ⟨trivial, nofun⟩, nofun⟩
  obtain ⟨p, d, hwrite, hread, -⟩ := h ⟨[("Port", [portSchema])]⟩ none port hport
  cases hwrite
  cases hread

end Rack

end Skew

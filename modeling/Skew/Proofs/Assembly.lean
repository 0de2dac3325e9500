import Skew.Proofs.Reachability
import Skew.Proofs.Sending

/-!
# Entities built from their fields

`Entity.Assembled` are the entities that come of assigning fields, of giving defaults and of
reading, where no kind names a codec. Each of their values was coerced by its field, at every
depth (`Entity.Assembled.coerced`), by induction on how they were built. So whether they can be
sent is settled field by field (`Field.sent_unless_stuck`).

A reader asks its codecs only for custom kinds. Over schemas without these it reads as it would
if there were no codecs (`Json.readPlainly`), so no entity can come in by way of one.
-/

namespace Skew

section

variable [Codecs]

/-! ## Reading without codecs -/

/-- No codec is involved in any registered schema. -/
def Registry.Plain (r : Registry) : Prop := ∀ name, ∀ s ∈ r.schemas name, s.Plain

variable {registry : Registry} {c? : Option Context}

/-- What is read of the document is read in the same way where there are no codecs: as an entity,
and as a field of a kind that names none. -/
structure Json.ReadPlainly (registry : Registry) (c? : Option Context) (j : Json) : Prop where
  entity : ∀ e, (j.reading registry c?).entity () = .ok e →
    (@Json.reading Codecs.none registry c? j).entity () = .ok e
  field : ∀ name k u, k.Plain → (j.reading registry c?).field name k = .ok u →
    (@Json.reading Codecs.none registry c? j).field name k = .ok u

theorem Field.take_plain {f : Field} (hk : f.kind.Plain) {name : String} {r r' : Reading}
    {w : Value} (hr : ∀ u, r.field name f.kind = .ok u → r'.field name f.kind = .ok u)
    (h : f.take name r = .ok w) : @Field.take Codecs.none f name r' = .ok w := by
  obtain ⟨u, hread, hw⟩ := Except.bind_eq_ok_iff.mp h
  obtain ⟨v, hv, hu⟩ := Except.bind_eq_ok_iff.mp hread
  rw [hk.field_coerce_eq] at hw hu
  exact Except.bind_eq_ok_iff.mpr ⟨u, Except.bind_eq_ok_iff.mpr ⟨v, hr v hv, hu⟩, hw⟩

theorem Entity.ReadFrom.plain {p : Primitive} {e : Entity} (h : e.ReadFrom registry c? p)
    (hplain : e.schema.Plain) (hdata : ∀ m ∈ p.data, m.2.ReadPlainly registry c?) :
    @Entity.ReadFrom Codecs.none registry c? p e := by
  refine @ReadFrom.mk Codecs.none _ _ _ _ h.space h.version h.schema h.context h.ascending
    h.declared ?_ h.marked
  intro q hq
  have htaken := h.taken q hq
  cases hj : Record.get? p.data q.1 with
  | none => rwa [hj] at htaken
  | some j =>
      rw [hj, Option.map_some, eq_comm, Option.map_eq_some_iff] at htaken
      obtain ⟨v, hv, htake⟩ := htaken
      have hk := hplain q hq
      rw [hv, Option.map_some, Option.map_some, Field.take_plain hk ?_ htake.symm]
      exact fun u => (hdata _ (Record.mem_of_get? hj)).field q.1 q.2.kind u hk

namespace Json

theorem readLeaf_plain (j : Json) (name : String) {k : Kind} (hk : k.Plain) :
    j.readLeaf name k = @readLeaf Codecs.none j name k := by
  cases k with
  | list | set | dict | object | listOfObjects => rfl
  | custom => cases hk
  | nullable k => simp only [readLeaf, hk.coerce_eq]
  | _ => rfl

namespace ReadPlainly

theorem items {α : Type} {js : List Json} {g : Reading → Outcome α} {ys : List α}
    (h : (itemReadings registry c? js).mapM g = .ok ys)
    (hg : ∀ j ∈ js, ∀ y, g (j.reading registry c?) = .ok y →
      g (@Json.reading Codecs.none registry c? j) = .ok y) :
    (@itemReadings Codecs.none registry c? js).mapM g = .ok ys := by
  rw [itemReadings_eq, List.mapM_map] at h
  rw [@itemReadings_eq Codecs.none, List.mapM_map]
  exact List.mapM_eq_ok_of_imp h hg

theorem arr {js : List Json} (hjs : ∀ j ∈ js, j.ReadPlainly registry c?) :
    (Json.arr js).ReadPlainly registry c? := by
  refine ⟨nofun, fun name k u hk h => ?_⟩
  induction k with
  | nullable k ih => exact ih hk h
  | list k | set k =>
      obtain ⟨us, hus, rfl⟩ := Except.map_eq_ok_iff.mp h
      refine Except.map_eq_ok_iff.mpr ⟨us, items hus ?_, rfl⟩
      exact fun j hj u => (hjs j hj).field name k u hk
  | listOfObjects type =>
      obtain ⟨es, hes, h⟩ := Except.bind_eq_ok_iff.mp h
      exact Except.bind_eq_ok_iff.mpr ⟨es, items hes fun j hj => (hjs j hj).entity, h⟩
  | custom c => cases hk
  | _ => exact (readLeaf_plain (.arr js) name hk).symm.trans h

theorem obj {ms : Members} (hms : ∀ m ∈ ms, m.2.ReadPlainly registry c?)
    (hentity : ∀ e, ((Json.obj ms).reading registry c?).entity () = .ok e →
      (@Json.reading Codecs.none registry c? (.obj ms)).entity () = .ok e) :
    (Json.obj ms).ReadPlainly registry c? := by
  refine ⟨hentity, fun name k u hk h => ?_⟩
  induction k with
  | nullable k ih => exact ih hk h
  | dict k =>
      obtain ⟨us, hus, rfl⟩ := Except.map_eq_ok_iff.mp h
      refine Except.map_eq_ok_iff.mpr ⟨us, ?_, rfl⟩
      rw [memberReadings_eq, mapEntriesM_map] at hus
      rw [@memberReadings_eq Codecs.none, mapEntriesM_map]
      refine List.mapM_eq_ok_of_imp hus fun m hm d hd => ?_
      obtain ⟨v, hv, rfl⟩ := Except.map_eq_ok_iff.mp hd
      exact Except.map_eq_ok_iff.mpr ⟨v, (hms m hm).field name k v hk hv, rfl⟩
  | object type =>
      obtain ⟨e, he, h⟩ := Except.bind_eq_ok_iff.mp h
      exact Except.bind_eq_ok_iff.mpr ⟨e, hentity e he, h⟩
  | custom c => cases hk
  | _ => exact (readLeaf_plain (.obj ms) name hk).symm.trans h

end ReadPlainly

/-- Over schemas without codecs, a document is read as if there were none. -/
theorem readPlainly (hregistry : registry.WellFormed) (hplain : registry.Plain) (j : Json) :
    j.ReadPlainly registry c? := by
  induction j using Json.nested with
  | null => exact ⟨nofun, fun _ _ _ _ h => h⟩
  | bool | int | float | str =>
      exact ⟨nofun, fun name k u hk h => (readLeaf_plain _ name hk.bare).symm.trans h⟩
  | arr js ih => exact .arr ih
  | obj ms ih ihdata =>
      refine .obj ih fun e h => ?_
      obtain ⟨p, hp, hread⟩ := entity_eq_ok_iff.mp h
      have he := (Entity.ofPrimitive_eq_ok_iff hregistry).mp hread
      have hdata := Record.mem_of_get? (Primitive.get?_data_of_ofMembers hp)
      refine (@entity_eq_ok_iff Codecs.none _ _ _ _).mpr ⟨p, hp, ?_⟩
      refine (@Entity.ofPrimitive_eq_ok_iff Codecs.none _ _ _ _ hregistry).mpr ?_
      exact he.plain (hplain _ _ (Registry.resolve_eq_ok he.schema).1) (ihdata _ hdata _ rfl)

end Json

/-! ## Coerced values at every depth -/

namespace Entity

/-- Values are coerced in the entity, and in all that is nested in it or stands in the defaults
of its schema. -/
inductive Coerced : Entity → Prop
  | intro {e : Entity} (fields : e.FieldsCoerced) (held : ∀ d, e.Holds d → Coerced d)
      (preset : ∀ d, e.schema.Presets d → Coerced d) : Coerced e

namespace Coerced

variable {e : Entity}

theorem fields (h : e.Coerced) : e.FieldsCoerced := by
  cases h
  assumption

theorem held (h : e.Coerced) {d : Entity} (hd : e.Holds d) : d.Coerced := by
  cases h with
  | intro _ hheld => exact hheld d hd

theorem preset (h : e.Coerced) {d : Entity} (hd : e.schema.Presets d) : d.Coerced := by
  cases h with
  | intro _ _ hpreset => exact hpreset d hd

theorem graph (h : e.Coerced) {d : Entity} (hd : d ∈ e.graph) : d.FieldsCoerced := by
  rcases mem_graph_iff.mp hd with rfl | hd
  · exact h.fields
  · exact (h.held hd).fields

theorem ofSchema {s : Schema} (hs : s.WellFormed) (hplain : s.Plain)
    (hpresets : ∀ d, s.Presets d → d.Coerced) : (Entity.ofSchema s).Coerced :=
  ⟨⟨.ofSchema hs, hplain, nofun⟩, fun _ ⟨_, hp, _⟩ => (nomatch hp), hpresets⟩

theorem withContext? (h : e.Coerced) (c? : Option Context) : (e.withContext? c?).Coerced := by
  have he := h.fields
  refine ⟨⟨⟨⟨he.schema, he.values, he.declared, he.marked⟩, he.changed⟩, he.plain, he.coerced⟩,
    ?_, ?_⟩
  · exact fun d hd => h.held hd
  · exact fun d hd => h.preset hd

theorem set (h : e.Coerced) (n : String) {v : Value} (hv : ∀ d ∈ v.graph, d.Coerced) :
    (Update.set n v e).2.Coerced := by
  cases hset : e.set n v with
  | error err => rwa [Update.set_error hset]
  | ok e' =>
      rw [Update.set_ok hset]
      have hwellFormed := h.fields.toWellFormed.set hset
      obtain ⟨f, w, hf, hw, rfl⟩ := set_eq_ok_iff.mp hset
      refine ⟨⟨hwellFormed, h.fields.plain, ?_⟩, ?_, fun d hd => h.preset hd⟩
      · intro m g c hg hc
        by_cases hm : n = m
        · subst hm
          rw [assigned, storeCoerced, Record.get?_insert_self] at hc
          cases hc
          cases hf.symm.trans hg
          exact ⟨v, hw⟩
        · rw [assigned, storeCoerced, Record.get?_insert_ne _ _ hm] at hc
          exact h.fields.coerced m g c hg hc
      · rintro d ⟨p, hp, hd⟩
        rcases Record.mem_insert hp with rfl | hp
        · have hk := h.fields.plain _ (Record.mem_of_get? hf)
          rcases Field.origin_of_plain hk hw hd with hd | ⟨x, hx, hd⟩
          · exact hv d hd
          · exact h.preset ⟨(n, f), Record.mem_of_get? hf, x, hx, hd⟩
        · exact h.held ⟨p, hp, hd⟩

theorem setDefaults (h : e.Coerced) (names? : Option (List String)) :
    (Update.setDefaults names? e).2.Coerced :=
  Update.setDefaults_keeps (fun _ n _ x he hf hx => he.set n fun _ hd =>
    he.preset ⟨_, Record.mem_of_get? hf, x, hx, hd⟩) names? h

end Coerced

theorem ReadFrom.coerced {registry : Registry} {c? : Option Context}
    (hregistry : registry.WellFormed) (hplain : registry.Plain)
    (hpresets : ∀ name, ∀ s ∈ registry.schemas name, ∀ d, s.Presets d → d.Coerced) {e : Entity}
    {p : Primitive} (h : e.ReadFrom registry c? p) : e.Coerced := by
  have hnone (e : Entity) (p : Primitive) (h : e.ReadFrom registry c? p) :
      @ReadFrom Codecs.none registry c? p e :=
    h.plain (hplain _ _ (Registry.resolve_eq_ok h.schema).1) fun m _ =>
      m.2.readPlainly hregistry hplain
  refine @ReadFrom.nested Codecs.none _ _ _ hregistry hpresets ?_ _ _ (hnone e p h) ?_
  · intro e p h hheld
    have hschema := (Registry.resolve_eq_ok (@ReadFrom.schema Codecs.none _ _ _ _ h)).1
    have hwellFormed := @ReadFrom.wellFormed Codecs.none _ _ _ _ hregistry h
    refine ⟨⟨hwellFormed, hplain _ _ hschema, ?_⟩, hheld, hpresets _ _ hschema⟩
    intro n f c hf hc
    obtain ⟨g, j, hg, -, htake⟩ := @ReadFrom.exists_take Codecs.none _ _ _ _ h _ _ hc
    cases hf.symm.trans hg
    obtain ⟨u, -, hcoerce⟩ := Except.bind_eq_ok_iff.mp htake
    refine ⟨u, ?_⟩
    rw [(hplain _ _ hschema _ (Record.mem_of_get? hf)).field_coerce_eq]
    exact inField_eq_ok_iff.mp hcoerce
  · exact fun d _ hd => absurd hd (@Codecs.not_makes Codecs.none Codecs.none_settles d)

/-! ## Assembled entities -/

/-- The entities that come of assigning fields, giving defaults and reading, and what is nested
in them, where no kind names a codec. -/
inductive Assembled : Entity → Prop
  | new {s : Schema} (hs : s.Declared) (hplain : s.Plain)
      (hpresets : ∀ d, s.Presets d → Assembled d) : Assembled (.ofSchema s)
  | nested {e d : Entity} (he : Assembled e) (hd : e.Holds d) : Assembled d
  | set {e : Entity} (he : Assembled e) (n : String) {v : Value}
      (hv : ∀ d ∈ v.graph, Assembled d) : Assembled (Update.set n v e).2
  | setDefaults {e : Entity} (he : Assembled e) (names? : Option (List String)) :
      Assembled (Update.setDefaults names? e).2
  | setContext {e : Entity} (he : Assembled e) (c? : Option Context) :
      Assembled (e.withContext? c?)
  | ofPrimitive {history : List Schema} (hhistory : ∀ s ∈ history, s.Declared ∧ s.Plain)
      (hpresets : ∀ s ∈ history, ∀ d, s.Presets d → Assembled d) {c? : Option Context}
      {p : Primitive} {e : Entity}
      (h : Entity.ofPrimitive (Registry.empty.registerAll history) c? p = .ok e) : Assembled e
  | ofJson {history : List Schema} (hhistory : ∀ s ∈ history, s.Declared ∧ s.Plain)
      (hpresets : ∀ s ∈ history, ∀ d, s.Presets d → Assembled d) {c? : Option Context} {j : Json}
      {e : Entity} (h : Entity.ofJson (Registry.empty.registerAll history) c? j = .ok e) :
      Assembled e

theorem Coerced.of_history {history : List Schema}
    (hhistory : ∀ s ∈ history, s.Declared ∧ s.Plain)
    (hpresets : ∀ s ∈ history, ∀ d, s.Presets d → d.Coerced) {c? : Option Context} {p : Primitive}
    {e : Entity} (h : Entity.ofPrimitive (Registry.empty.registerAll history) c? p = .ok e) :
    e.Coerced := by
  have hregistry := Registry.wellFormed_of_declared fun s hs => (hhistory s hs).1
  have hmem {name : String} {s : Schema}
      (hs : s ∈ (Registry.empty.registerAll history).schemas name) : s ∈ history :=
    (Registry.mem_schemas_iff.mp hs).mem.1
  refine ReadFrom.coerced hregistry ?_ ?_ ((Entity.ofPrimitive_eq_ok_iff hregistry).mp h)
  · exact fun _ s hs => (hhistory s (hmem hs)).2
  · exact fun _ s hs => hpresets s (hmem hs)

theorem Assembled.coerced {e : Entity} (h : e.Assembled) : e.Coerced := by
  induction h with
  | new hs hplain _ ih => exact .ofSchema hs.wellFormed hplain ih
  | nested _ hd ih => exact ih.held hd
  | set _ n _ ih ihv => exact ih.set n ihv
  | setDefaults _ names? ih => exact ih.setDefaults names?
  | setContext _ c? ih => exact ih.withContext? c?
  | ofPrimitive hhistory _ h ih => exact .of_history hhistory ih h
  | ofJson hhistory _ h ih =>
      obtain ⟨p, -, h⟩ := Json.entity_eq_ok_iff.mp h
      exact .of_history hhistory ih h

end Entity

/-- **Sending.** What a field without codecs stores can be sent as soon as the entities in it can,
and an assembled entity can be sent, unless a field is stuck: on a float that is no number, or on
its own default, which was stored for null as it was declared and is nothing that its kind
writes. -/
theorem Field.sent_unless_stuck :
    (∀ (f : Field) (v c : Value) (name : String), f.kind.Plain → f.coerce v = .ok c →
      ((∃ j, c.write name f.kind = .ok j) ↔
        ¬ f.Unsendable c ∧ ∀ e, .entity e ∈ c.atoms → ∃ p, e.write = .ok p)) ∧
    ∀ e : Entity, e.Assembled → ((∃ p, e.write = .ok p) ↔ ∀ d ∈ e.graph, ¬ d.Stuck) :=
  ⟨fun f _ _ _ hk h => Value.exists_write_iff.trans (f.writes_iff hk h),
    fun _ he => Entity.exists_write_iff fun _ hd => he.coerced.graph hd⟩

end

/-! ## A gauge

A limit that is declared with a text for its default, and a reading. -/

namespace Gauge

attribute [local instance] Codecs.none

def limit : Field := ⟨.integer false, false, some (.str "5")⟩

def reading : Field := ⟨.float false, false, none⟩

def schema : Schema :=
  ⟨"Gauge", ⟨1, 0, none⟩, [("limit", limit), ("reading", reading)], [], [], none⟩

def blank : Entity := .ofSchema schema

/-- The limit is the default, given as one, and so coerced. -/
def gauge : Entity := (Update.set "reading" (.str "0.5") (Update.setDefaults none blank).2).2

/-- The limit is the default, stored for null. -/
def unlimited : Entity := (Update.set "limit" .null blank).2

def noNumber : Float := 0.0 / 0.0

def broken : Entity := (Update.set "reading" (.float noNumber) blank).2

theorem blank_assembled : blank.Assembled := by
  refine .new ⟨_, ((Declaration.Declared.start "Gauge" "1.0").field "limit" limit).field "reading"
    reading, rfl⟩ ?_ ?_
  · simp [Schema.Plain, schema, limit, reading, Kind.Plain]
  · simp [Schema.Presets, schema, limit, reading, Value.graph]

theorem gauge_assembled : gauge.Assembled := (blank_assembled.setDefaults none).set _ nofun

theorem gauge_sent : gauge.Assembled ∧ (∀ d ∈ gauge.graph, ¬ d.Stuck) ∧
    reading.coerce (.str "0.5") = .ok (.float 0.5) ∧ ¬ reading.Unsendable (.float 0.5) :=
  ⟨gauge_assembled, (Field.sent_unless_stuck.2 gauge gauge_assembled).mp ⟨_, rfl⟩, rfl,
    ((Field.sent_unless_stuck.1 reading (.str "0.5") (.float 0.5) "reading" trivial rfl).mp
      ⟨_, rfl⟩).1⟩

/-- Coerced, or assembled, and yet not to be sent. -/
theorem not_all_sent :
    (reading.kind.Plain ∧ reading.coerce (.float noNumber) = .ok (.float noNumber) ∧
      ¬ ∃ j, (Value.float noNumber).write "reading" reading.kind = .ok j) ∧
    (limit.kind.Plain ∧ limit.coerce .null = .ok (.str "5") ∧
      ¬ ∃ j, (Value.str "5").write "limit" limit.kind = .ok j) ∧
    (broken.Assembled ∧ ¬ ∃ p, broken.write = .ok p) ∧
    (unlimited.Assembled ∧ ¬ ∃ p, unlimited.write = .ok p) := by
  refine ⟨⟨trivial, rfl, ?_⟩, ⟨trivial, rfl, ?_⟩, ⟨blank_assembled.set _ nofun, ?_⟩,
    ⟨blank_assembled.set _ nofun, ?_⟩⟩
  all_goals
    rintro ⟨_, h⟩
    cases h

end Gauge

end Skew

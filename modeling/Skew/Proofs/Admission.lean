import Skew.Proofs.Backport
import Skew.Proofs.Origins

/-!
# What is admitted from the wire

A document of any shape is refused or read as an entity that satisfies
`Entity.Admitted`: its schema is the one that the registry gives for the stamped version,
exactly the declared fields with data are set, each value is one that its field stores
unchanged, and markers count as far as they name set fields. The same holds of every
nested entity that was read from a nested document; the others stand in defaults that
were stored for null (`Entity.ofJson_admitted`).
-/

namespace Skew

/-! ## Documents in documents -/

mutual

/-- The document and those inside it, at every depth. -/
def Json.documents : Json → List Json
  | .arr js => .arr js :: Json.itemDocuments js
  | .obj ms => .obj ms :: Json.memberDocuments ms
  | j => [j]

def Json.itemDocuments : List Json → List Json
  | [] => []
  | j :: js => j.documents ++ Json.itemDocuments js

def Json.memberDocuments : List (String × Json) → List Json
  | [] => []
  | (_, j) :: ms => j.documents ++ Json.memberDocuments ms

end

namespace Json

theorem itemDocuments_eq (js : List Json) : itemDocuments js = js.flatMap documents := by
  induction js with
  | nil => rfl
  | cons j js ih => rw [itemDocuments, ih, List.flatMap_cons]

theorem memberDocuments_eq (ms : Members) :
    memberDocuments ms = ms.flatMap fun m => m.2.documents := by
  induction ms with
  | nil => rfl
  | cons m ms ih => rw [memberDocuments, ih, List.flatMap_cons]

theorem self_mem_documents (j : Json) : j ∈ j.documents := by
  cases j <;> simp [documents]

theorem mem_documents_arr {js : List Json} {i j : Json} (hj : j ∈ js) (hi : i ∈ j.documents) :
    i ∈ (Json.arr js).documents := by
  rw [documents, itemDocuments_eq]
  exact List.mem_cons_of_mem _ (List.mem_flatMap.mpr ⟨j, hj, hi⟩)

theorem mem_documents_obj {ms : Members} {m : String × Json} {i : Json} (hm : m ∈ ms)
    (hi : i ∈ m.2.documents) : i ∈ (Json.obj ms).documents := by
  rw [documents, memberDocuments_eq]
  exact List.mem_cons_of_mem _ (List.mem_flatMap.mpr ⟨m, hm, hi⟩)

end Json

/-! ## Admitted entities -/

section

variable [Codecs] {registry : Registry} {c? : Option Context} {p : Primitive} {e : Entity}

omit [Codecs] in
theorem Value.hasChanges_iff {v : Value} :
    v.hasChanges = true ↔ ∃ d ∈ v.children, d.whatChanged ≠ [] := by
  cases v with
  | entity d => simp [Value.hasChanges, Value.children]
  | list vs =>
      rw [Value.hasChanges, Value.anyChanges_eq, List.any_eq_true]
      constructor
      · rintro ⟨v, hv, hchanges⟩
        cases v <;> simp only [Bool.false_eq_true] at hchanges
        next d => exact ⟨d, List.mem_filterMap.mpr ⟨_, hv, rfl⟩, by simpa using hchanges⟩
      · rintro ⟨d, hd, hchanges⟩
        obtain ⟨v, hv, hvd⟩ := List.mem_filterMap.mp hd
        cases v <;> cases hvd
        exact ⟨_, hv, by simpa using hchanges⟩
  | _ => simp [Value.hasChanges, Value.children]

/-- An entity that a primitive admits: the schema is the registry's for the stamped version,
the declared fields with data are set, each to a value that the field stores unchanged, and
the changed fields are the set ones among the markers and those that compose an entity
with changes. -/
structure Entity.Admitted (registry : Registry) (c? : Option Context) (p : Primitive)
    (e : Entity) : Prop where
  space : p.space = Primitive.entitySpace
  version : Version.ofText p.version = .ok e.version
  schema : registry.resolve p.name e.version = .ok e.schema
  accepts : e.schema.version.accepts e.version = true
  context : e.context? = c?
  set : ∀ n, e.isSet n = true ↔ n ∈ e.schema.fieldNames ∧ Record.contains p.data n = true
  stored : ∀ n v, Record.get? e.values n = some v →
    ∃ f, e.schema.field? n = some f ∧ f.coerce v = .ok v
  changed : ∀ n, n ∈ e.whatChanged ↔ (n ∈ p.changes ∧ e.isSet n = true) ∨
    ∃ v, Record.get? e.values n = some v ∧ ∃ d ∈ v.children, d.whatChanged ≠ []

theorem Entity.ReadFrom.mem_whatChanged_iff (h : e.ReadFrom registry c? p) (n : String) :
    n ∈ e.whatChanged ↔ (n ∈ p.changes ∧ e.isSet n = true) ∨
      ∃ v, Record.get? e.values n = some v ∧ ∃ d ∈ v.children, d.whatChanged ≠ [] := by
  simp only [Entity.mem_whatChanged_iff h.ascending.nodup, h.marked, NameSet.mem_ofList,
    List.mem_filter, Value.hasChanges_iff]

theorem Entity.ReadFrom.admitted (h : e.ReadFrom registry c? p)
    (hcodecs : ∀ name, (Codecs.codec name).Settles) : e.Admitted registry c? p where
  space := h.space
  version := h.version
  schema := h.schema
  accepts := h.accepts
  context := h.context
  set := h.isSet_iff
  stored n v hv := by
    obtain ⟨f, j, hf, -, htake⟩ := h.exists_take hv
    exact ⟨f, hf, Field.coerce_take (f.kind.stable_of_settles hcodecs) htake⟩
  changed := h.mem_whatChanged_iff

/-- Where an entity read from a document comes from: from a document in it, or from a default
that was stored while one was read. -/
def Json.Yields (registry : Registry) (c? : Option Context) (j : Json) (d : Entity) : Prop :=
  ∃ i ∈ j.documents, ∃ p, Primitive.ofJson i = .ok p ∧
    (d.Admitted registry c? p ∨ d.Supplied registry c? p)

/-! ## Where nested entities come from -/

namespace Json

theorem Yields.arr {js : List Json} {j : Json} (hj : j ∈ js) {d : Entity}
    (h : j.Yields registry c? d) : (Json.arr js).Yields registry c? d := by
  obtain ⟨i, hi, hp⟩ := h
  exact ⟨i, mem_documents_arr hj hi, hp⟩

theorem Yields.obj {ms : Members} {m : String × Json} (hm : m ∈ ms) {d : Entity}
    (h : m.2.Yields registry c? d) : (Json.obj ms).Yields registry c? d := by
  obtain ⟨i, hi, hp⟩ := h
  exact ⟨i, mem_documents_obj hm hi, hp⟩

end Json

/-- Every entity that a document is read as, and every one nested in it, comes from the
document; so do those in what any kind reads. -/
theorem Json.yields (hcodecs : ∀ name, (Codecs.codec name).Settles)
    (hregistry : registry.WellFormed) (j : Json) :
    (∀ e, (j.reading registry c?).entity () = .ok e → ∀ d ∈ e.graph, j.Yields registry c? d) ∧
      j.FieldsHave registry c? fun j d => j.Yields registry c? d := by
  refine Json.Tracked.entities ⟨?_, ?_, ?_, ?_, ?_⟩ hregistry j
  · exact fun _ p d hp hd => ⟨_, self_mem_documents _, p, hp, Or.inl (hd.admitted hcodecs)⟩
  · exact fun _ p d hp hd => ⟨_, self_mem_documents _, p, hp, Or.inr hd⟩
  · exact fun _ d hd => absurd hd (Codecs.not_makes hcodecs d)
  · exact fun _ _ hj _ h => h.arr hj
  · exact fun _ _ hm _ h => h.obj hm

/-- **Admission.** Whatever the document, an entity that is read from it is admitted by its
primitive, and every entity nested in it is admitted by a primitive of a nested document or
stands in a default that was stored for null. -/
theorem Entity.ofJson_admitted (hcodecs : ∀ name, (Codecs.codec name).Settles)
    (registry : Registry) (hregistry : registry.WellFormed) (c? : Option Context) (j : Json)
    (e : Entity) (h : Entity.ofJson registry c? j = .ok e) :
    (∃ p, Primitive.ofJson j = .ok p ∧ e.Admitted registry c? p) ∧
      ∀ d ∈ e.graph, ∃ i ∈ j.documents, ∃ p, Primitive.ofJson i = .ok p ∧
        (d.Admitted registry c? p ∨ d.Supplied registry c? p) := by
  refine ⟨?_, (Json.yields hcodecs hregistry j).1 e h⟩
  obtain ⟨p, hp, hread⟩ := Json.entity_eq_ok_iff.mp h
  exact ⟨p, hp, ((Entity.ofPrimitive_eq_ok_iff hregistry).mp hread).admitted hcodecs⟩

end

/-! ## A depot

A depot stands at a site, by default at the yard, and keeps labelled shelves. -/

namespace Depot

/-- A codec that stores texts, and integers as their texts. -/
def label : Codec where
  coerce
    | .str s => .ok (.str s)
    | .int n => .ok (.str (Decimal.intText n.toInt))
    | v => .error ("no label for " ++ v.shape.name)
  write
    | .str s => .ok (.str s)
    | v => .error ("no label for " ++ v.shape.name)
  read
    | .str s => .ok (.str s)
    | .int n => .ok (.str (Decimal.intText n))
    | _ => .error "not a label"

theorem label_settles : label.Settles where
  again v w h := by cases v <;> cases h <;> rfl
  notNull v w h := by cases v <;> cases h <;> rfl
  closed v w h := by cases v <;> cases h <;> rfl

@[reducible] def codecs : Codecs := ⟨fun _ => label⟩

attribute [local instance] codecs

def siteSchema : Schema :=
  ⟨"Site", ⟨1, 0, none⟩, [("city", ⟨.string, false, none⟩)], [], [], none⟩

def shelfSchema : Schema :=
  ⟨"Shelf", ⟨1, 0, none⟩, [("label", ⟨.custom "label", false, none⟩)], [], [], none⟩

def yard : Entity := ⟨siteSchema, ⟨1, 0, none⟩, none, [("city", .str "Ulm")], []⟩

def schema : Schema :=
  ⟨"Depot", ⟨1, 1, none⟩, [("site", ⟨.object "Site", false, some (.entity yard)⟩),
    ("shelves", ⟨.dict (.object "Shelf"), false, none⟩)], [], [], none⟩

def types : Registry := Registry.empty.registerAll [siteSchema, shelfSchema, schema]

def context : Context := .ofUser "r1" "u" "p"

def shelfDocument : Json :=
  (⟨"nova", "Shelf", "1.0", [("label", .int 7)], ["label"]⟩ : Primitive).toJson

/-- A depot with one shelf that has changes, at no site. -/
def document : Json :=
  (⟨"nova", "Depot", "1.0", [("shelves", .obj [("a", shelfDocument)]), ("site", .null)],
    ["site", "roof"]⟩ : Primitive).toJson

def shelf : Entity :=
  ⟨shelfSchema, ⟨1, 0, none⟩, some context, [("label", .str "7")], ["label"]⟩

def depot : Entity :=
  ⟨schema, ⟨1, 0, none⟩, some context, [("shelves", .map [("a", .entity shelf)]),
    ("site", .entity yard)], ["site"]⟩

theorem ofJson_document : Entity.ofJson types (some context) document = .ok depot :=
  rfl

theorem types_wellFormed : types.WellFormed := by
  refine Registry.wellFormed_empty.registerAll ?_
  simp only [List.forall_mem_cons]
  exact ⟨by decide, by decide, by decide, List.forall_mem_nil _⟩

/-- The depot is admitted, and so is its shelf; the yard is supplied. -/
theorem depot_admitted : Entity.ofJson types (some context) document = .ok depot ∧
    (∃ p, Primitive.ofJson document = .ok p ∧ depot.Admitted types (some context) p) ∧
      ∀ d ∈ depot.graph, ∃ i ∈ document.documents, ∃ p, Primitive.ofJson i = .ok p ∧
        (d.Admitted types (some context) p ∨ d.Supplied types (some context) p) :=
  ⟨ofJson_document, Entity.ofJson_admitted (fun _ => label_settles) types types_wellFormed
    (some context) document depot ofJson_document⟩

/-- A nested entity need not carry the given context, since it may stand in a default; and a
field whose entities have changes need not count as changed, since maps are not looked into. -/
theorem not_admitted_throughout :
    (¬ ∀ j e, Entity.ofJson types (some context) j = .ok e →
      ∀ d ∈ e.graph, d.context? = some context) ∧
    (¬ ∀ j e, Entity.ofJson types (some context) j = .ok e →
      ∀ n v, Record.get? e.values n = some v → (∃ d ∈ v.graph, d.whatChanged ≠ []) →
        n ∈ e.whatChanged) := by
  constructor
  · intro h
    have hyard := h document depot ofJson_document yard
      (by simp [depot, Entity.graph_eq, Value.graph])
    cases hyard
  · intro h
    have hshelves := h document depot ofJson_document "shelves" _ rfl
      ⟨shelf, by simp [Value.graph, Value.entryGraph, Entity.graph_eq], by decide⟩
    revert hshelves
    decide

end Depot

end Skew

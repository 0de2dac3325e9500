import Skew.Proofs.Registries
import Skew.Proofs.RoundTrip

/-!
# What is read

Reading a primitive succeeds with exactly one entity, the one that `Entity.ReadFrom` describes
(`Entity.ofPrimitive_eq_ok_iff`): the schema is the registry's, and each declared field with
data takes its value from there. A document is read through its primitive
(`Json.entity_eq_ok_iff`).
-/

namespace Skew

/-! ## Entities from primitives -/

/-- A primitive is refused for its space or its type, or else its version decides. -/
theorem Primitive.resolve_cases (registry : Registry) (p : Primitive) :
    ((p.space ≠ Primitive.entitySpace ∨ registry.contains p.name = false) ∧
      ∃ name, p.resolve registry = .error (.unsupportedType name)) ∨
    (p.space = Primitive.entitySpace ∧ p.resolve registry = do
      let v ← Version.ofText p.version
      let s ← registry.resolve p.name v
      .ok (s, v)) := by
  rw [Primitive.resolve]
  by_cases hspace : p.space = Primitive.entitySpace
  · cases hcontains : registry.contains p.name with
    | false =>
        refine Or.inl ⟨Or.inr rfl, p.name, ?_⟩
        simp only [hspace, ne_eq, not_true_eq_false, if_false]
        rfl
    | true =>
        refine Or.inr ⟨hspace, ?_⟩
        simp only [hspace, ne_eq, not_true_eq_false, if_false]
  · refine Or.inl ⟨Or.inl hspace, p.space ++ "." ++ p.name, ?_⟩
    simp only [hspace, ne_eq, not_false_eq_true, if_true]
    rfl

theorem Registry.contains_of_resolve {registry : Registry} {name : String} {v : Version}
    {s : Schema} (h : registry.resolve name v = .ok s) : registry.contains name = true := by
  have hmem := (Registry.resolve_eq_ok h).1
  rw [Registry.contains, Record.contains_iff]
  cases hget : Record.get? registry.types name with
  | some ss => exact ⟨ss, rfl⟩
  | none => rw [Registry.schemas, hget] at hmem; cases hmem

theorem Primitive.resolve_eq_ok_iff {registry : Registry} {p : Primitive} {s : Schema}
    {v : Version} : p.resolve registry = .ok (s, v) ↔ p.space = Primitive.entitySpace ∧
      Version.ofText p.version = .ok v ∧ registry.resolve p.name v = .ok s := by
  rcases p.resolve_cases registry with ⟨hrefused, name, herr⟩ | ⟨hspace, heq⟩
  · rw [herr]
    refine ⟨nofun, ?_⟩
    rintro ⟨hspace, -, hs⟩
    rcases hrefused with hother | hcontains
    · exact absurd hspace hother
    · rw [Registry.contains_of_resolve hs] at hcontains
      cases hcontains
  · rw [heq]
    constructor
    · intro h
      obtain ⟨w, hw, h⟩ := Except.bind_eq_ok_iff.mp h
      obtain ⟨t, ht, h⟩ := Except.bind_eq_ok_iff.mp h
      cases h
      exact ⟨hspace, hw, ht⟩
    · rintro ⟨-, hv, hs⟩
      simp only [hv, hs, Except.ok_bind]

section

variable [Codecs]

/-- How an entity follows from its primitive: which schema reads it, and what each declared
field makes of the data. -/
structure Entity.ReadFrom (registry : Registry) (c? : Option Context) (p : Primitive)
    (e : Entity) : Prop where
  space : p.space = Primitive.entitySpace
  version : Version.ofText p.version = .ok e.version
  schema : registry.resolve p.name e.version = .ok e.schema
  context : e.context? = c?
  ascending : Record.Ascending e.values
  declared : ∀ n ∈ e.values.map (·.1), n ∈ e.schema.fieldNames
  taken : ∀ q ∈ e.schema.fields,
    (Record.get? p.data q.1).map (fun j => q.2.take q.1 (j.reading registry c?)) =
      (Record.get? e.values q.1).map .ok
  marked : e.changed = NameSet.ofList (p.changes.filter e.isSet)

variable {registry : Registry} {c? : Option Context} {p : Primitive} {e : Entity}

/-- Reading succeeds with exactly the entity that follows from the primitive. -/
theorem Entity.ofPrimitive_eq_ok_iff (hregistry : registry.WellFormed) :
    Entity.ofPrimitive registry c? p = .ok e ↔ e.ReadFrom registry c? p := by
  constructor
  · intro h
    obtain ⟨⟨s, v⟩, hresolve, h⟩ := Except.bind_eq_ok_iff.mp h
    obtain ⟨d, hfill, h⟩ := Except.bind_eq_ok_iff.mp h
    obtain ⟨hspace, hv, hs⟩ := Primitive.resolve_eq_ok_iff.mp hresolve
    have hfields := (hregistry.schemas _ s (Registry.resolve_eq_ok hs).1).fields
    rw [Entity.fill_eq_gather hfields] at hfill
    obtain ⟨values, hgather, rfl⟩ := Except.map_eq_ok_iff.mp hfill
    obtain ⟨hascending, hnames, htaken⟩ := (Record.gather_eq_ok_iff hfields).mp hgather
    cases h
    refine ⟨hspace, hv, hs, rfl, hascending, hnames, ?_, rfl⟩
    intro q hq
    refine Eq.trans ?_ (htaken q hq)
    rw [Json.memberReadings_eq, Record.get?_map fun _ j => Json.reading registry c? j,
      Option.map_map]
    rfl
  · intro h
    have hresolve := Primitive.resolve_eq_ok_iff.mpr ⟨h.space, h.version, h.schema⟩
    have hfields := (hregistry.schemas _ e.schema (Registry.resolve_eq_ok h.schema).1).fields
    rw [Entity.ofPrimitive_eq_ok hresolve hfields h.ascending h.declared h.taken]
    obtain ⟨schema, version, context?, values, changed⟩ := e
    have hcontext : context? = c? := h.context
    have hmarked : changed = NameSet.ofList (p.changes.filter (Record.contains values)) := h.marked
    rw [hcontext, hmarked]

namespace Entity.ReadFrom

/-- A value was made by its field, from the data under its name. -/
theorem exists_take (h : e.ReadFrom registry c? p) {n : String} {v : Value}
    (hv : Record.get? e.values n = some v) : ∃ f j, e.schema.field? n = some f ∧
      Record.get? p.data n = some j ∧ f.take n (j.reading registry c?) = .ok v := by
  have hdeclared := h.declared n (List.mem_map_of_mem (f := (·.1)) (Record.mem_of_get? hv))
  obtain ⟨f, hf⟩ := Record.contains_iff.mp (Record.contains_iff_mem.mpr hdeclared)
  have htaken := h.taken _ (Record.mem_of_get? hf)
  rw [hv, Option.map_some, Option.map_eq_some_iff] at htaken
  obtain ⟨j, hj, htake⟩ := htaken
  exact ⟨f, j, hf, hj, htake⟩

theorem isSet_iff (h : e.ReadFrom registry c? p) (n : String) :
    e.isSet n = true ↔ n ∈ e.schema.fieldNames ∧ Record.contains p.data n = true := by
  constructor
  · intro hset
    obtain ⟨v, hv⟩ := Record.contains_iff.mp hset
    obtain ⟨f, j, hf, hj, -⟩ := h.exists_take hv
    exact ⟨Entity.mem_fieldNames hf, Record.contains_iff.mpr ⟨j, hj⟩⟩
  · rintro ⟨hn, hdata⟩
    obtain ⟨q, hq, rfl⟩ := List.mem_map.mp hn
    obtain ⟨j, hj⟩ := Record.contains_iff.mp hdata
    have htaken := h.taken q hq
    rw [hj, Option.map_some, eq_comm, Option.map_eq_some_iff] at htaken
    obtain ⟨v, hv, -⟩ := htaken
    exact Record.contains_iff.mpr ⟨v, hv⟩

theorem accepts (h : e.ReadFrom registry c? p) : e.schema.version.accepts e.version = true :=
  (Registry.resolve_eq_ok h.schema).2

end Entity.ReadFrom

/-! ## Reading a document -/

theorem Json.dataReadings_of_get? {ms ds : Members}
    (h : Record.get? ms Primitive.dataKey = some (.obj ds)) :
    Json.dataReadings registry c? ms = Json.memberReadings registry c? ds := by
  induction ms with
  | nil => cases h
  | cons m ms ih =>
      obtain ⟨n, j⟩ := m
      rw [Record.get?] at h
      split at h
      · next hn => cases h; rw [Json.dataReadings, if_pos hn]
      · next hn =>
          cases j <;> simp only [Json.dataReadings, if_neg hn, ih h]

omit [Codecs] in
theorem Primitive.get?_data_of_ofMembers {ms : Members} {p : Primitive}
    (h : Primitive.ofMembers ms = .ok p) :
    Record.get? ms Primitive.dataKey = some (.obj p.data) :=
  (Primitive.ofMembers_eq_ok_iff.mp h).data

/-- A document is read as an entity through its primitive. -/
theorem Json.entity_eq_ok_iff {j : Json} :
    (j.reading registry c?).entity () = .ok e ↔
      ∃ p, Primitive.ofJson j = .ok p ∧ Entity.ofPrimitive registry c? p = .ok e := by
  cases j with
  | obj ms =>
      rw [Json.reading, Primitive.ofJson]
      simp only [Except.bind_eq_ok_iff]
      refine exists_congr fun p => and_congr_right fun hp => ?_
      rw [Json.dataReadings_of_get? (Primitive.get?_data_of_ofMembers hp), Entity.ofPrimitive]
  | _ => simp [Json.reading, Primitive.ofJson]

end

end Skew

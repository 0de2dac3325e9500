import Skew.Proofs.Arrival
import Skew.Proofs.Outcomes
import Skew.Schema.Declaration

/-!
# Invariants of schemas and entities

What declaring guarantees of a schema: each field stands once, and the owner
versions of every table ascend. What every operation keeps of an entity: values and
change markers are in ascending order, only declared fields have values, and only
fields with values are marked.

With these, the changed fields of an entity are always some of its set fields.
-/

namespace Skew

/-! ## Schemas -/

structure Schema.WellFormed (s : Schema) : Prop where
  fields : s.fieldNames.Nodup
  tables : ∀ p ∈ s.relationships, Declaration.ascending p.2 = true

instance (s : Schema) : Decidable s.WellFormed :=
  decidable_of_iff (s.fieldNames.Nodup ∧ ∀ p ∈ s.relationships, Declaration.ascending p.2 = true)
    ⟨fun h => ⟨h.1, h.2⟩, fun h => ⟨h.fields, h.tables⟩⟩

theorem Schema.WellFormed.relationship {s : Schema} (h : s.WellFormed) {n : String}
    {table : Relationship} (ht : s.relationship? n = some table) :
    Declaration.ascending table = true :=
  h.tables _ (Record.mem_of_get? ht)

namespace Declaration

theorem mem_replaceField {name n : String} {f : Field} {fs : List (String × Field)} :
    n ∈ (replaceField name f fs).map (·.1) ↔ n = name ∨ n ∈ fs.map (·.1) := by
  induction fs with
  | nil => simp [replaceField]
  | cons g fs ih =>
      obtain ⟨m, g⟩ := g
      rw [replaceField]
      split
      · next h => simp [h]
      · simp only [List.map_cons, List.mem_cons, ih]
        constructor
        · rintro (h | h | h) <;> simp [h]
        · rintro (h | h | h) <;> simp [h]

theorem replaceField_nodup (name : String) (f : Field) {fs : List (String × Field)}
    (h : (fs.map (·.1)).Nodup) : ((replaceField name f fs).map (·.1)).Nodup := by
  induction fs with
  | nil => simp [replaceField]
  | cons g fs ih =>
      obtain ⟨m, g⟩ := g
      rw [List.map_cons, List.nodup_cons] at h
      rw [replaceField]
      split
      · exact List.nodup_cons.mpr h
      · next hne =>
          refine List.nodup_cons.mpr ⟨fun hmem => ?_, ih h.2⟩
          rcases mem_replaceField.mp hmem with heq | hmem
          · exact hne heq
          · exact h.1 hmem

/-- Declaring a field again does not make it stand twice. -/
theorem field_nodup {d : Declaration} (name : String) (f : Field)
    (h : (d.fields.map (·.1)).Nodup) : ((d.field name f).fields.map (·.1)).Nodup :=
  replaceField_nodup name f h

theorem checkTable_ascending {d : Declaration} {name : String} {table : List (String × String)}
    {rows : Relationship} (h : d.checkTable name table = .ok rows) : ascending rows = true := by
  unfold checkTable at h
  split at h
  · cases h
  · obtain ⟨rs, -, h⟩ := Except.bind_eq_ok_iff.mp h
    split at h
    · cases h
    · next hasc =>
        cases h
        simpa using hasc

theorem tables_ascending {d : Declaration} {tables : List (String × List (String × String))}
    {acc result : List (String × Relationship)}
    (h : tables.foldlM (fun tables (name, table) =>
      (d.checkTable name table).map (Record.insert tables name)) acc = Except.ok result)
    (hacc : ∀ p ∈ acc, ascending p.2 = true) : ∀ p ∈ result, ascending p.2 = true := by
  induction tables generalizing acc with
  | nil => cases h; exact hacc
  | cons t tables ih =>
      obtain ⟨name, table⟩ := t
      rw [List.foldlM_cons] at h
      obtain ⟨next, hnext, h⟩ := Except.bind_eq_ok_iff.mp h
      obtain ⟨rows, hrows, rfl⟩ := Except.map_eq_ok_iff.mp hnext
      refine ih h ?_
      intro p hp
      rcases Record.mem_insert hp with rfl | hp
      · exact checkTable_ascending hrows
      · exact hacc p hp

/-- What is declared with distinct fields is a well-formed schema. -/
theorem build_wellFormed {d : Declaration} (hfields : (d.fields.map (·.1)).Nodup) {s : Schema}
    (h : d.build = .ok s) : s.WellFormed := by
  obtain ⟨version, -, h⟩ := Except.bind_eq_ok_iff.mp h
  obtain ⟨tables, htables, h⟩ := Except.bind_eq_ok_iff.mp h
  cases h
  exact ⟨hfields, tables_ascending htables fun _ h => nomatch h⟩

end Declaration

/-! ## Entities -/

/-- Values and change markers fit the schema, whatever the order of the markers. -/
structure Entity.Coherent (e : Entity) : Prop where
  schema : e.schema.WellFormed
  values : Record.Ascending e.values
  declared : ∀ n, e.isSet n = true → n ∈ e.schema.fieldNames
  marked : ∀ n ∈ e.changed, e.isSet n = true

structure Entity.WellFormed (e : Entity) : Prop extends e.Coherent where
  changed : NameSet.Ascending e.changed

instance (e : Entity) : Decidable e.Coherent :=
  decidable_of_iff (e.schema.WellFormed ∧ (e.values.map (·.1)).Pairwise (· < ·) ∧
      (∀ n ∈ e.values.map (·.1), n ∈ e.schema.fieldNames) ∧ ∀ n ∈ e.changed, e.isSet n = true)
    ⟨fun ⟨hs, hv, hd, hm⟩ =>
      ⟨hs, List.pairwise_map.mp hv, fun n hn => hd n (Record.contains_iff_mem.mp hn), hm⟩,
    fun h => ⟨h.schema, List.pairwise_map.mpr h.values,
      fun n hn => h.declared n (Record.contains_iff_mem.mpr hn), h.marked⟩⟩

instance (e : Entity) : Decidable e.WellFormed :=
  decidable_of_iff (e.Coherent ∧ NameSet.Ascending e.changed)
    ⟨fun h => ⟨h.1, h.2⟩, fun h => ⟨h.toCoherent, h.changed⟩⟩

namespace Entity

theorem WellFormed.ofSchema {s : Schema} (h : s.WellFormed) : (Entity.ofSchema s).WellFormed :=
  ⟨⟨h, Record.Ascending.nil, fun _ h => (nomatch h), fun _ h => (nomatch h)⟩, NameSet.Ascending.nil⟩

theorem isSet_storeCoerced (e : Entity) (n m : String) (v : Value) :
    (e.storeCoerced n v).isSet m = (decide (n = m) || e.isSet m) :=
  Record.contains_insert

theorem WellFormed.storeCoerced {e : Entity} (h : e.WellFormed) {n : String}
    (hn : n ∈ e.schema.fieldNames) (v : Value) : (e.storeCoerced n v).WellFormed where
  schema := h.schema
  values := h.values.insert n v
  declared m hm := by
    rw [isSet_storeCoerced, Bool.or_eq_true, decide_eq_true_eq] at hm
    rcases hm with rfl | hm
    · exact hn
    · exact h.declared m hm
  changed := h.changed
  marked m hm := by rw [isSet_storeCoerced, h.marked m hm, Bool.or_true]

theorem WellFormed.replaceChanges {e : Entity} (h : e.WellFormed) (names : List String) :
    (e.replaceChanges names).WellFormed where
  schema := h.schema
  values := h.values
  declared := h.declared
  changed := NameSet.ascending_ofList _
  marked _ hn := (List.mem_filter.mp (NameSet.mem_ofList.mp hn)).2

theorem WellFormed.markChanged {e : Entity} (h : e.WellFormed) (name : String) :
    (e.markChanged name).WellFormed := by
  unfold Entity.markChanged
  split
  · next hset =>
      refine ⟨⟨h.schema, h.values, h.declared, fun n hn => ?_⟩, h.changed.insert name⟩
      rcases NameSet.mem_insert.mp hn with rfl | hn
      · exact hset
      · exact h.marked n hn
  · exact h

/-- The fields that a reset is asked for. -/
def resets (fields? : Option (List String)) (n : String) : Bool :=
  match fields? with
  | some fields => n ∈ fields
  | none => true

theorem resetChanges_values (e : Entity) (fields? : Option (List String)) :
    (e.resetChanges fields? true).values =
      e.values.map fun p => (p.1, if resets fields? p.1 then p.2.settled else p.2) := rfl

theorem WellFormed.resetChanges {e : Entity} (h : e.WellFormed) (fields? : Option (List String))
    (deep : Bool) : (e.resetChanges fields? deep).WellFormed := by
  let settle (n : String) (v : Value) : Value := if resets fields? n then v.settled else v
  have hset (n : String) : (e.resetChanges fields? deep).isSet n = e.isSet n := by
    cases deep with
    | false => rfl
    | true =>
        rw [isSet, isSet, Record.contains, Record.contains, resetChanges_values,
          Record.get?_map settle, Option.isSome_map]
  refine ⟨⟨h.schema, ?_, fun n hn => h.declared n (hset n ▸ hn), fun n hn => ?_⟩,
    h.changed.filter _⟩
  · cases deep with
    | false => exact h.values
    | true => exact resetChanges_values e fields? ▸ h.values.map settle
  · rw [hset]
    exact h.marked n (List.mem_of_mem_filter hn)

theorem requireField_eq_ok_iff {s : Schema} {n : String} {f : Field} :
    s.requireField n = .ok f ↔ s.field? n = some f := by
  unfold Schema.requireField
  split
  · next g hg => rw [hg]; simp
  · next hg => rw [hg]; simp

theorem mem_fieldNames {s : Schema} {n : String} {f : Field} (h : s.field? n = some f) :
    n ∈ s.fieldNames :=
  List.mem_map_of_mem (f := (·.1)) (Record.mem_of_get? h)

section

variable [Codecs]

/-- Storing puts the coerced value, and touches nothing else. -/
theorem store_eq_ok_iff {e e' : Entity} {n : String} {v : Value} :
    e.store n v = .ok e' ↔
      ∃ f w, e.schema.field? n = some f ∧ f.coerce v = .ok w ∧ e' = e.storeCoerced n w := by
  constructor
  · intro h
    obtain ⟨f, hf, h⟩ := Except.bind_eq_ok_iff.mp h
    obtain ⟨w, hw, h⟩ := Except.bind_eq_ok_iff.mp h
    cases h
    exact ⟨f, w, requireField_eq_ok_iff.mp hf, inField_eq_ok_iff.mp hw, rfl⟩
  · rintro ⟨f, w, hf, hw, rfl⟩
    rw [store, requireField_eq_ok_iff.mpr hf, Except.ok_bind, hw, inField_ok, Except.ok_bind]

/-- The entity with a value put into a field that is then marked. -/
def assigned (e : Entity) (n : String) (v : Value) : Entity :=
  { e.storeCoerced n v with changed := NameSet.insert e.changed n }

theorem set_eq (e : Entity) (n : String) (v : Value) : e.set n v = (do
    let f ← e.schema.requireField n
    let w ← inField n (f.coerce v)
    .ok (e.assigned n w)) := by
  rw [set, store]
  cases e.schema.requireField n with
  | error err => rfl
  | ok f =>
      simp only [Except.ok_bind]
      cases inField n (f.coerce v) <;> rfl

theorem set_eq_ok_iff {e e' : Entity} {n : String} {v : Value} :
    e.set n v = .ok e' ↔
      ∃ f w, e.schema.field? n = some f ∧ f.coerce v = .ok w ∧ e' = e.assigned n w := by
  rw [set_eq, Except.bind_eq_ok_iff]
  constructor
  · rintro ⟨f, hf, h⟩
    obtain ⟨w, hw, h⟩ := Except.bind_eq_ok_iff.mp h
    cases h
    exact ⟨f, w, requireField_eq_ok_iff.mp hf, inField_eq_ok_iff.mp hw, rfl⟩
  · rintro ⟨f, w, hf, hw, rfl⟩
    exact ⟨f, requireField_eq_ok_iff.mpr hf, by rw [hw, inField_ok, Except.ok_bind]⟩

theorem WellFormed.set {e e' : Entity} (h : e.WellFormed) {n : String} {v : Value}
    (hset : e.set n v = .ok e') : e'.WellFormed := by
  obtain ⟨f, w, hf, -, rfl⟩ := set_eq_ok_iff.mp hset
  have hw := h.storeCoerced (mem_fieldNames hf) w
  refine ⟨⟨hw.schema, hw.values, hw.declared, fun m hm => ?_⟩, hw.changed.insert n⟩
  rcases NameSet.mem_insert.mp hm with rfl | hm
  · exact (isSet_storeCoerced e m m w).trans (by simp)
  · exact hw.marked m hm

end

/-! ## Changed fields -/

/-- Assigning adds the field to the changed ones, and no other. -/
theorem mem_whatChanged_assigned {e : Entity} {n m : String} {v : Value} :
    m ∈ (e.assigned n v).whatChanged ↔ m = n ∨ m ∈ e.whatChanged := by
  simp only [whatChanged_eq, changedEntries_eq, assigned, storeCoerced, NameSet.mem_union,
    NameSet.mem_insert, List.mem_map, List.mem_filter]
  constructor
  · rintro ((hm | hm) | ⟨p, ⟨hp, hchanges⟩, rfl⟩)
    · exact Or.inl hm
    · exact Or.inr (Or.inl hm)
    · rcases Record.mem_insert hp with rfl | hp
      · exact Or.inl rfl
      · exact Or.inr (Or.inr ⟨p, ⟨hp, hchanges⟩, rfl⟩)
  · rintro (hm | hm | ⟨p, ⟨hp, hchanges⟩, rfl⟩)
    · exact Or.inl (Or.inl hm)
    · exact Or.inl (Or.inr hm)
    · by_cases hn : p.1 = n
      · exact Or.inl (Or.inl hn)
      · exact Or.inr ⟨p, ⟨Record.mem_insert_of_ne hp hn, hchanges⟩, rfl⟩

/-- The changed fields are the marked ones and those whose values have changes of their own. -/
theorem mem_whatChanged_iff {e : Entity} (h : (e.values.map (·.1)).Nodup) {n : String} :
    n ∈ e.whatChanged ↔
      n ∈ e.changed ∨ ∃ v, Record.get? e.values n = some v ∧ v.hasChanges = true := by
  rw [whatChanged_eq, NameSet.mem_union, changedEntries_eq, List.mem_map]
  refine or_congr_right ⟨?_, ?_⟩
  · rintro ⟨p, hp, rfl⟩
    obtain ⟨hmem, hchanges⟩ := List.mem_filter.mp hp
    exact ⟨p.2, Record.get?_of_mem h hmem, hchanges⟩
  · rintro ⟨v, hv, hchanges⟩
    exact ⟨(n, v), List.mem_filter.mpr ⟨Record.mem_of_get? hv, hchanges⟩, rfl⟩

theorem WellFormed.whatChanged {e : Entity} (h : e.WellFormed) :
    NameSet.Ascending e.whatChanged := by
  cases e
  exact h.changed.union _

theorem Coherent.isSet_of_mem_whatChanged {e : Entity} (h : e.Coherent) {n : String}
    (hn : n ∈ e.whatChanged) : e.isSet n = true := by
  rw [whatChanged_eq, NameSet.mem_union, changedEntries_eq] at hn
  rcases hn with hn | hn
  · exact h.marked n hn
  · obtain ⟨p, hp, rfl⟩ := List.mem_map.mp hn
    exact Record.contains_iff_mem.mpr (List.mem_map_of_mem (List.mem_of_mem_filter hp))

theorem names_getChanges {e : Entity} (h : e.Coherent) :
    Record.names e.getChanges = e.whatChanged := by
  rw [Record.names, getChanges, List.map_filterMap]
  refine Eq.trans (List.filterMap_congr fun n hn => ?_) List.filterMap_some
  obtain ⟨v, hv⟩ := Record.contains_iff.mp (h.isSet_of_mem_whatChanged hn)
  rw [hv]
  rfl

theorem get?_getChanges {e : Entity} (h : e.WellFormed) {n : String} {v : Value} :
    Record.get? e.getChanges n = some v ↔
      n ∈ e.whatChanged ∧ Record.get? e.values n = some v := by
  have hmem : (n, v) ∈ e.getChanges ↔ n ∈ e.whatChanged ∧ Record.get? e.values n = some v := by
    rw [getChanges, List.mem_filterMap]
    constructor
    · rintro ⟨m, hm, heq⟩
      obtain ⟨w, hw, heq⟩ := Option.map_eq_some_iff.mp heq
      cases heq
      exact ⟨hm, hw⟩
    · rintro ⟨hn, hv⟩
      exact ⟨n, hn, by rw [hv]; rfl⟩
  rw [← hmem]
  refine ⟨Record.mem_of_get?, Record.get?_of_mem ?_⟩
  have hnames : e.getChanges.map (·.1) = e.whatChanged := names_getChanges h.toCoherent
  rw [hnames]
  exact h.whatChanged.nodup

theorem mem_setFields {e : Entity} (h : e.Coherent) {n : String} :
    n ∈ e.setFields ↔ e.isSet n = true := by
  rw [setFields, List.mem_filter]
  exact ⟨And.right, fun hn => ⟨h.declared n hn, hn⟩⟩

/-- What arrives of a coherent entity is well-formed: markers arrive in order. -/
theorem Coherent.received {e : Entity} (h : e.Coherent) (c? : Option Context) :
    (e.received c?).WellFormed where
  schema := e.received_schema c? ▸ h.schema
  values := e.received_values c? ▸ h.values.map fun _ => Value.received c?
  declared n hn := by
    rw [received_schema]
    exact h.declared n (e.received_isSet c? n ▸ hn)
  marked n hn := by
    rw [received_changed, NameSet.mem_ofList] at hn
    rw [received_isSet]
    exact h.isSet_of_mem_whatChanged hn
  changed := e.received_changed c? ▸ NameSet.ascending_ofList _

theorem Coherent.of_received {e : Entity} {c? : Option Context} (h : (e.received c?).Coherent) :
    e.Coherent where
  schema := e.received_schema c? ▸ h.schema
  values := by
    have hvalues := h.values
    rw [received_values] at hvalues
    exact Record.Ascending.of_map (f := fun _ => Value.received c?) hvalues
  declared n hn := e.received_schema c? ▸ h.declared n ((e.received_isSet c? n).trans hn)
  marked n hn := by
    rw [← e.received_isSet c? n]
    refine h.marked n ?_
    rw [received_changed, NameSet.mem_ofList, whatChanged_eq, NameSet.mem_union]
    exact Or.inl hn

end Entity

end Skew

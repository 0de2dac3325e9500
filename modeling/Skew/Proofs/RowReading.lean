import Skew.Proofs.MigrationRows
import Skew.Proofs.RecordLists

/-!
# Rows read by a definition

A row is loaded into a fresh entity of a definition by assigning to its fields in order, so each
field makes of the row's value what it makes of any value, and the first that does not take its
value ends it. Which rows a definition refuses, and with which fault, is said from the row alone
(`Refuses`); every other row is read (`Reads`), whatever fields the definition declares.
-/

namespace Skew.Catalog

open EntityList (built)

section

variable [Codecs]

/-- A definition refuses a row as the first of its fields does that is given a value that it
does not take. -/
inductive Refuses (item : Schema) (row : Row) : EntityError → Prop
  | field {before after : List (String × Field)} {n : String} {f : Field} {fault : ValueFault}
      (hfields : item.fields = before ++ (n, f) :: after)
      (hbefore : ∀ p ∈ before, ∃ w, p.2.coerce (given row p.1) = .ok w)
      (hrefused : f.coerce (given row n) = .error fault) : Refuses item row (.invalidValue n fault)

/-- An entity that was read from a row: each declared field holds what it makes of the row, and
nothing has changes. -/
structure Reads (c : Context) (item : Schema) (row : Row) (e : Entity) : Prop where
  schema : e.schema = item
  version : e.version = item.version
  context : e.context? = some c
  clean : e.whatChanged = []
  declared : ∀ n f, item.field? n = some f →
    ∃ w, f.coerce (given row n) = .ok w ∧ Record.get? e.values n = some w.settled
  undeclared : ∀ n, item.field? n = none → Record.get? e.values n = none

/-- What a field takes from a row, under its own name. -/
def take (row : Row) (p : String × Field) : Outcome Value :=
  inField p.1 (p.2.coerce (given row p.1))

variable {c : Context} {item : Schema} {row : Row} {err : EntityError}

theorem refuses_iff : Refuses item row err ↔ item.fields.mapM (take row) = .error err := by
  rw [List.mapM_eq_error_iff]
  constructor
  · rintro ⟨hfields, hbefore, hrefused⟩
    refine ⟨_, _, _, hfields, fun p hp => ?_, ?_⟩
    · obtain ⟨w, hw⟩ := hbefore p hp
      exact ⟨w, inField_eq_ok_iff.mpr hw⟩
    · rw [take, hrefused]
      rfl
  · rintro ⟨before, ⟨n, f⟩, after, hfields, hbefore, herr⟩
    cases hrefused : f.coerce (given row n) with
    | ok w =>
        rw [take, hrefused] at herr
        cases herr
    | error fault =>
        rw [take, hrefused] at herr
        cases herr
        refine .field hfields (fun p hp => ?_) hrefused
        obtain ⟨w, hw⟩ := hbefore p hp
        exact ⟨w, inField_eq_ok_iff.mp hw⟩

/-- The value that loading a row leaves in a field. -/
def taken (item : Schema) (row : Row) (n : String) : Value :=
  ((item.field? n).bind fun f => (f.coerce (given row n)).toOption).getD .null

theorem taken_eq {n : String} {f : Field} {w : Value} (hf : item.field? n = some f)
    (hw : f.coerce (given row n) = .ok w) : taken item row n = w := by
  rw [taken, hf, Option.bind_some, hw]
  rfl

/-- A field that takes its value, as loading looks for it. -/
theorem field_taken (hitem : item.fieldNames.Nodup) {p : String × Field} (hp : p ∈ item.fields)
    (hw : ∃ w, p.2.coerce (given row p.1) = .ok w) :
    item.field? p.1 = some p.2 ∧ p.2.coerce (given row p.1) = .ok (taken item row p.1) := by
  have hf : item.field? p.1 = some p.2 := Record.get?_of_mem hitem hp
  obtain ⟨w, hw⟩ := hw
  rw [taken_eq hf hw]
  exact ⟨hf, hw⟩

/-- Building fails as the definition refuses the row. -/
theorem built_of_refuses (hitem : item.fieldNames.Nodup) (h : Refuses item row err) :
    built c item loadRow row = .error err := by
  cases h with
  | @field before after n f fault hfields hbefore hrefused =>
      let e := (Entity.ofSchema item).bound c
      have hset : Update.setAll (givens row before) e = _ := setAll_givens fun p hp =>
        field_taken hitem (hfields ▸ List.mem_append_left _ hp) (hbefore p hp)
      obtain ⟨hschema, -, -⟩ :=
        Entity.foldl_assigned_frame (givens row before) (taken item row) e
      generalize (givens row before).foldl _ e = d at hset hschema
      have hn : d.schema.field? n = some f := by
        rw [hschema]
        refine Record.get?_of_mem hitem ?_
        show (n, f) ∈ item.fields
        rw [hfields]
        exact List.mem_append_right _ List.mem_cons_self
      have hrefuse : d.set n (given row n) = .error (.invalidValue n fault) := by
        rw [Entity.set_eq, Entity.requireField_eq_ok_iff.mpr hn, Except.ok_bind, hrefused]
        rfl
      have hall : Update.setAll (givens row item.fields) e =
          (.error (.invalidValue n fault), d) := by
        refine ExceptT.forM_eq_error_iff.mpr ⟨givens row before, (n, given row n),
          givens row after, d, ?_, hset, Update.set_error hrefuse⟩
        rw [hfields, givens, List.map_append, List.map_cons]
        rfl
      have hload : loadRow row e = (.error (.invalidValue n fault), d) :=
        (loadRow_apply row e).trans (ExceptT.bind_error hall)
      rw [built, hload]

/-- Without a refusal, the row is read. -/
theorem reads_of_taken (hitem : item.fieldNames.Nodup) {ws : List Value}
    (h : item.fields.mapM (take row) = .ok ws) :
    ∃ e, built c item loadRow row = .ok e ∧ e.typeName = item.name ∧
      Reads c item row e.settled := by
  have htaken : ∀ p ∈ item.fields, ∃ w, p.2.coerce (given row p.1) = .ok w := by
    intro p hp
    obtain ⟨w, hw⟩ := List.exists_mapM_eq_ok_iff.mp ⟨ws, h⟩ p hp
    exact ⟨w, inField_eq_ok_iff.mp hw⟩
  let e := (Entity.ofSchema item).bound c
  have hload : loadRow row e = _ := loadRow_ok fun p hp => field_taken hitem hp (htaken p hp)
  obtain ⟨hschema, hversion, hcontext⟩ :=
    Entity.foldl_assigned_frame (givens row e.schema.fields) (taken item row) e
  have hvalues := get?_foldl_givens row (taken item row) e
  generalize (givens row e.schema.fields).foldl _ e = d at hload hschema hversion hcontext hvalues
  refine ⟨d.resetChanges none false, by rw [built, hload], congrArg Schema.name hschema, ?_⟩
  have hsettled (n : String) : Record.get? (d.resetChanges none false).settled.values n =
      (Record.get? d.values n).map Value.settled := by
    rw [Entity.settled_values]
    exact Record.get?_map (fun _ => Value.settled) d.values n
  have hframe : (d.resetChanges none false).settled.schema = d.schema ∧
      (d.resetChanges none false).settled.version = d.version ∧
      (d.resetChanges none false).settled.context? = d.context? := by
    rw [Entity.settled_eq]
    exact ⟨rfl, rfl, rfl⟩
  refine ⟨hframe.1.trans hschema, hframe.2.1.trans hversion, hframe.2.2.trans hcontext,
    Entity.whatChanged_settled _, ?_, ?_⟩
  · intro n f hf
    obtain ⟨w, hw⟩ := htaken (n, f) (Record.mem_of_get? hf)
    have hn : n ∈ e.schema.fieldNames := Entity.mem_fieldNames (s := item) hf
    refine ⟨w, hw, ?_⟩
    rw [hsettled, hvalues, if_pos hn, taken_eq hf hw]
    rfl
  · intro n hf
    have hn : n ∉ e.schema.fieldNames := Record.get?_eq_none_iff.mp hf
    rw [hsettled, hvalues, if_neg hn]
    rfl

theorem built_eq_error_iff (hitem : item.fieldNames.Nodup) :
    built c item loadRow row = .error err ↔ Refuses item row err := by
  refine ⟨fun h => ?_, built_of_refuses hitem⟩
  cases htake : item.fields.mapM (take row) with
  | error err' =>
      rw [built_of_refuses hitem (refuses_iff.mpr htake)] at h
      cases h
      exact refuses_iff.mpr htake
  | ok ws =>
      obtain ⟨e, he, -⟩ := reads_of_taken (c := c) hitem htake
      rw [he] at h
      cases h

theorem reads_of_built (hitem : item.fieldNames.Nodup) {e : Entity}
    (h : built c item loadRow row = .ok e) :
    e.typeName = item.name ∧ Reads c item row e.settled ∧ ∀ err, ¬ Refuses item row err := by
  cases htake : item.fields.mapM (take row) with
  | error err =>
      rw [built_of_refuses hitem (refuses_iff.mpr htake)] at h
      cases h
  | ok ws =>
      obtain ⟨d, hd, htype, hreads⟩ := reads_of_taken (c := c) hitem htake
      rw [hd] at h
      cases h
      refine ⟨htype, hreads, fun err hrefuses => ?_⟩
      rw [refuses_iff, htake] at hrefuses
      cases hrefuses

end

end Skew.Catalog

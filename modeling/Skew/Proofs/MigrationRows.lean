import Skew.Proofs.Admission
import Skew.Proofs.Programs
import Skew.Proofs.Releases

/-!
# Migrations and their rows

The three releases of migrations share their fields, and all of these store scalars, so what
one release stores fits every other that declares the field. Loading a row therefore always
succeeds (`Held.exists_loadRow`), and rows go on to fit (`Held.fits_newRow`,
`Held.fits_updatedRow`).

`Write.wrote` says what a write puts into a row, field by field: the fields that the entity
had changed but the number, the stamp of the write, and, when a row is created, its number
and that it is not deleted.
-/

namespace Skew

/-! ## Scalars -/

/-- What the kind stores neither holds other values nor needs a codec. -/
def Kind.Scalar : Kind → Prop
  | .integer _ | .float _ | .string | .boolean | .datetime | .uuid | .address | .enum _ => True
  | _ => False

theorem Kind.Scalar.plain {k : Kind} (hk : k.Scalar) : k.Plain := by
  cases k <;> trivial

section

variable [Codecs]

/-- A scalar, or null, holds no entities. -/
theorem Field.graph_of_scalar {f : Field} (hk : f.kind.Scalar) {v : Value}
    (h : f.coerce v = .ok v) : v.graph = [] := by
  rcases Field.null_or_stores h with rfl | ⟨-, hstores⟩
  · rfl
  · generalize f.kind = k at hk hstores
    cases hstores <;> first | rfl | cases hk

/-- Sets fields in order: each is assigned what its field makes of the value. -/
theorem Update.setAll_ok {e : Entity} {ps : List (String × Value)} {w : String → Value}
    (h : ∀ p ∈ ps, ∃ f, e.schema.field? p.1 = some f ∧ f.coerce p.2 = .ok (w p.1)) :
    Update.setAll ps e = (.ok (), ps.foldl (fun e p => e.assigned p.1 (w p.1)) e) := by
  induction ps generalizing e with
  | nil => rfl
  | cons p ps ih =>
      obtain ⟨⟨f, hf, hw⟩, hps⟩ := List.forall_mem_cons.mp h
      have hset : e.set p.1 p.2 = .ok (e.assigned p.1 (w p.1)) :=
        Entity.set_eq_ok_iff.mpr ⟨f, _, hf, hw, rfl⟩
      exact (ExceptT.bind_ok (Update.set_ok hset)).trans (ih hps)

end

theorem Entity.get?_foldl_assigned {ps : List (String × Value)} (w : String → Value) (e : Entity)
    (n : String) : Record.get? (ps.foldl (fun e p => e.assigned p.1 (w p.1)) e).values n =
      if n ∈ ps.map (·.1) then some (w n) else Record.get? e.values n := by
  induction ps generalizing e with
  | nil => rfl
  | cons p ps ih =>
      rw [List.foldl_cons, ih, List.map_cons]
      by_cases hlater : n ∈ ps.map (·.1)
      · rw [if_pos hlater, if_pos (List.mem_cons_of_mem _ hlater)]
      · rw [if_neg hlater]
        refine (Record.get?_insert _ _ _ _).trans ?_
        by_cases hp : p.1 = n
        · rw [if_pos hp, if_pos (hp ▸ List.mem_cons_self), hp]
        · rw [if_neg hp, if_neg]
          rw [List.mem_cons, not_or]
          exact ⟨Ne.symm hp, hlater⟩

theorem Entity.foldl_assigned_frame (ps : List (String × Value)) (w : String → Value) (e : Entity) :
    (ps.foldl (fun e p => e.assigned p.1 (w p.1)) e).schema = e.schema ∧
      (ps.foldl (fun e p => e.assigned p.1 (w p.1)) e).version = e.version ∧
      (ps.foldl (fun e p => e.assigned p.1 (w p.1)) e).context? = e.context? := by
  induction ps generalizing e with
  | nil => exact ⟨rfl, rfl, rfl⟩
  | cons p ps ih => exact ih (e.assigned p.1 (w p.1))

namespace Catalog

/-! ## Fields of migrations -/

/-- A schema of migrations whose methods use the named store. -/
def IsMigration (store : String) (s : Schema) : Prop :=
  ∃ version ∈ ["1.0", "1.1", "1.2"], migration version store = .ok s

/-- The fields of all releases. -/
def allFields : List (String × Field) := migrationFields ++ [migrationType, hidden]

theorem allFields_nodup : (allFields.map (·.1)).Nodup := by decide

/-- A field that has something to hold where there is nothing. -/
inductive Optional : Field → Prop
  | nullable {k : Kind} (hk : k.Scalar) : Optional (nullable k)
  | flag : Optional ⟨.boolean, false, some (.bool false)⟩

/-- What the field holds where there is nothing. -/
def absent (f : Field) : Value := if f.isNullable then .null else f.default?.getD .null

/-- Only the number is needed. -/
theorem allFields_optional :
    ∀ p ∈ allFields, p = ("id", required (.integer false)) ∨ Optional p.2 := by
  simp only [allFields, migrationFields, migrationType, hidden, List.cons_append, List.nil_append,
    List.forall_mem_cons]
  and_intros
  · exact Or.inl trivial
  all_goals
    first
    | exact Or.inr (.nullable trivial)
    | exact Or.inr .flag
    | exact List.forall_mem_nil _

theorem isMigration_iff {store : String} {s : Schema} : IsMigration store s ↔
    s = migrationSchema store (release 1 0) [] ∨
      s = migrationSchema store (release 1 1) [migrationType] ∨
        s = migrationSchema store (release 1 2) [migrationType, hidden] := by
  simp only [IsMigration, List.mem_cons, List.not_mem_nil, or_false, or_and_right, exists_or,
    exists_eq_left, migration_first, migration_second, migration_third, Except.ok.injEq]
  simp only [eq_comm]

namespace IsMigration

variable {store : String} {s : Schema} (h : IsMigration store s)
include h

/-- A release has the fields up to some point. -/
theorem fields : ∃ later, allFields = s.fields ++ later := by
  rcases isMigration_iff.mp h with rfl | rfl | rfl
  · exact ⟨[migrationType, hidden], rfl⟩
  · exact ⟨[hidden], rfl⟩
  · exact ⟨[], rfl⟩

theorem field {n : String} {f : Field} (hf : s.field? n = some f) :
    Record.get? allFields n = some f := by
  obtain ⟨later, hlater⟩ := h.fields
  rw [hlater, Record.get?_append]
  rw [Schema.field?] at hf
  rw [hf]
  rfl

theorem wellFormed : s.WellFormed where
  fields := by
    obtain ⟨later, hlater⟩ := h.fields
    have hnodup := allFields_nodup
    rw [hlater, List.map_append] at hnodup
    exact (List.nodup_append.mp hnodup).1
  tables := by
    rcases isMigration_iff.mp h with rfl | rfl | rfl <;> exact List.forall_mem_nil _

theorem method {name : String} {m : Method}
    (hm : (migrationSchema store (release 1 0) []).method? name = some m) :
    s.method? name = some m := by
  rcases isMigration_iff.mp h with rfl | rfl | rfl <;> exact hm

end IsMigration

section

variable [Codecs] {n : String} {f : Field}

theorem Optional.coerce_null (h : Optional f) : f.coerce .null = .ok (absent f) := by
  cases h <;> rfl

/-- What a field of a migration stores, it stores unchanged, and it is a scalar. -/
theorem settled (hf : Record.get? allFields n = some f) {v w : Value} (h : f.coerce v = .ok w) :
    f.coerce w = .ok w ∧ w.graph = [] := by
  have hscalar : f.kind.Scalar ∧ ∀ x, f.default? = some x → f.coerce x = .ok x := by
    rcases allFields_optional _ (Record.mem_of_get? hf) with heq | hoptional
    · cases heq
      exact ⟨trivial, nofun⟩
    · cases hoptional with
      | nullable hk => exact ⟨hk, nofun⟩
      | flag => exact ⟨trivial, fun x hx => by cases hx; rfl⟩
  have hagain := Field.coerce_again hscalar.1.plain.stable hscalar.2 h
  exact ⟨hagain, Field.graph_of_scalar hscalar.1 hagain⟩

/-! ## Rows -/

/-- A row that every release can read: it has its number, and only what fields store. -/
structure Fits (id : Int) (row : Row) : Prop where
  number : Record.get? row "id" = some (.int (Int64.ofInt id))
  stored : ∀ n v, Record.get? row n = some v →
    ∃ f, Record.get? allFields n = some f ∧ f.coerce v = .ok v

/-- What a declared field makes of a row. -/
theorem Fits.coerce {id : Int} {row : Row} (h : Fits id row)
    (hf : Record.get? allFields n = some f) :
    f.coerce ((Record.get? row n).getD .null) = .ok ((Record.get? row n).getD (absent f)) := by
  cases hv : Record.get? row n with
  | some v =>
      obtain ⟨g, hg, hcoerce⟩ := h.stored n v hv
      rw [hf] at hg
      cases hg
      exact hcoerce
  | none =>
      rcases allFields_optional _ (Record.mem_of_get? hf) with heq | hoptional
      · cases heq
        rw [h.number] at hv
        cases hv
      · exact hoptional.coerce_null

/-! ## Held migrations -/

/-- A migration that a client holds: it is well-formed, and its values fit its fields. -/
structure Held (store : String) (e : Entity) : Prop where
  migration : IsMigration store e.schema
  wellFormed : e.WellFormed
  stored : ∀ n v, Record.get? e.values n = some v →
    ∃ f, e.schema.field? n = some f ∧ f.coerce v = .ok v

namespace Held

variable {store : String} {e : Entity}

theorem ofSchema {s : Schema} (h : IsMigration store s) : Held store (Entity.ofSchema s) :=
  ⟨h, .ofSchema h.wellFormed, nofun⟩

theorem withContext? (h : Held store e) (c? : Option Context) :
    Held store (e.withContext? c?) :=
  ⟨h.migration, ⟨⟨h.wellFormed.schema, h.wellFormed.values, h.wellFormed.declared,
    h.wellFormed.marked⟩, h.wellFormed.changed⟩, h.stored⟩

theorem assigned (h : Held store e) {v w : Value} (hf : e.schema.field? n = some f)
    (hw : f.coerce v = .ok w) : Held store (e.assigned n w) where
  migration := h.migration
  wellFormed := h.wellFormed.set (Entity.set_eq_ok_iff.mpr ⟨f, w, hf, hw, rfl⟩)
  stored m x hx := by
    rw [Entity.assigned, Entity.storeCoerced, Record.get?_insert] at hx
    split at hx
    · next hnm =>
        cases hx
        exact ⟨f, hnm ▸ hf, (settled (h.migration.field hf) hw).1⟩
    · exact h.stored m x hx

theorem set (h : Held store e) (n : String) (v : Value) : Held store (Update.set n v e).2 := by
  cases hset : e.set n v with
  | error err => exact Update.set_error hset ▸ h
  | ok e' =>
      rw [Update.set_ok hset]
      obtain ⟨f, w, hf, hw, rfl⟩ := Entity.set_eq_ok_iff.mp hset
      exact h.assigned hf hw

/-- No value of a migration can have changes of its own. -/
theorem whatChanged_eq (h : Held store e) : e.whatChanged = e.changed := by
  rw [Entity.whatChanged_eq]
  refine NameSet.union_eq_self h.wellFormed.changed ?_
  intro n hn
  rw [Entity.changedEntries_eq] at hn
  obtain ⟨p, hp, -⟩ := List.mem_map.mp hn
  obtain ⟨hp, hchanges⟩ := List.mem_filter.mp hp
  obtain ⟨f, hf, hcoerce⟩ := h.stored p.1 p.2
    (Record.get?_of_mem h.wellFormed.values.nodup hp)
  have hgraph := (settled (h.migration.field hf) hcoerce).2
  obtain ⟨d, hd, -⟩ := Value.hasChanges_iff.mp hchanges
  have hd := Value.mem_graph_of_mem_children hd
  rw [hgraph] at hd
  cases hd

/-- What is pending: the changed fields, but not the number. -/
theorem get?_pendingValues (h : Held store e) (n : String) :
    Record.get? (pendingValues e) n =
      if n ≠ "id" ∧ n ∈ e.whatChanged then Record.get? e.values n else none := by
  rw [pendingValues, Record.get?_erase]
  by_cases hid : "id" = n
  · rw [if_pos hid, if_neg fun hn => hn.1 hid.symm]
  · rw [if_neg hid]
    by_cases hn : n ∈ e.whatChanged
    · rw [if_pos ⟨Ne.symm hid, hn⟩]
      obtain ⟨v, hv⟩ := Record.contains_iff.mp (h.wellFormed.isSet_of_mem_whatChanged hn)
      rw [hv]
      exact (Entity.get?_getChanges h.wellFormed).mpr ⟨hn, hv⟩
    · rw [if_neg fun hn' => hn hn'.2]
      cases hv : Record.get? e.getChanges n with
      | none => rfl
      | some v => exact absurd ((Entity.get?_getChanges h.wellFormed).mp hv).1 hn

theorem pendingValues_nodup (h : Held store e) : ((pendingValues e).map (·.1)).Nodup := by
  have hnames : e.getChanges.map (·.1) = e.whatChanged :=
    Entity.names_getChanges h.wellFormed.toCoherent
  refine List.Nodup.sublist (List.Sublist.map _ List.filter_sublist) ?_
  rw [hnames]
  exact h.wellFormed.whatChanged.nodup

end Held

/-! ## Writes -/

/-- A write to the store: an entity, as it was, is created as a row or saved into one. -/
structure Write where
  creates : Bool
  row : Int
  now : Calendar.Instant
  entity : Entity

namespace Write

def stamp (w : Write) : String := if w.creates then "created_at" else "updated_at"

/-- What a write puts under a name. -/
def wrote (w : Write) (n : String) : Option Value :=
  if n = "id" then if w.creates then some (.int (Int64.ofInt w.row)) else none
  else if n = w.stamp then some (.datetime w.now)
  else if n ∈ w.entity.whatChanged then Record.get? w.entity.values n
  else if w.creates ∧ n = "deleted" then some (.bool false)
  else none

end Write

/-- The row that a create puts into the store. -/
theorem Held.get?_newRow {store : String} {e : Entity} (h : Held store e) (id : Nat)
    (now : Calendar.Instant) (n : String) :
    Record.get? (MigrationStore.newRow id now (pendingValues e)) n =
      (Write.mk true id now e).wrote n := by
  let row := Record.insert (Record.insert (pendingValues e) "id" (.int (Int64.ofInt id)))
    "created_at" (.datetime now)
  have hrow (n : String) : Record.get? row n =
      if n = "id" then some (.int (Int64.ofInt id))
      else if n = "created_at" then some (.datetime now)
      else if n ∈ e.whatChanged then Record.get? e.values n else none := by
    simp only [row, Record.get?_insert, h.get?_pendingValues]
    by_cases hid : n = "id"
    · subst hid
      rfl
    by_cases hcreated : n = "created_at"
    · subst hcreated
      rfl
    simp only [hid, hcreated, Ne.symm hid, Ne.symm hcreated, if_false, ne_eq, not_false_eq_true,
      true_and]
  have hnew : MigrationStore.newRow id now (pendingValues e) =
      if Record.contains row "deleted" then row
      else Record.insert row "deleted" (.bool false) := rfl
  have hdeleted : Record.contains row "deleted" = true ↔ "deleted" ∈ e.whatChanged := by
    rw [Record.contains, hrow]
    by_cases hchanged : "deleted" ∈ e.whatChanged
    · obtain ⟨v, hv⟩ := Record.contains_iff.mp (h.wellFormed.isSet_of_mem_whatChanged hchanged)
      simp [hchanged, hv]
    · simp [hchanged]
  rw [hnew, Write.wrote, Write.stamp]
  by_cases hn : n = "deleted"
  · subst hn
    split
    · next hset => simp [hrow, hdeleted.mp hset]
    · next hset =>
        rw [hdeleted] at hset
        simp [Record.get?_insert, hset]
  · have hother : Record.get? (if Record.contains row "deleted" then row
        else Record.insert row "deleted" (.bool false)) n = Record.get? row n := by
      split
      · rfl
      · rw [Record.get?_insert_ne _ _ (Ne.symm hn)]
    rw [hother, hrow]
    simp [hn]

/-- The row that a save leaves in the store. -/
theorem Held.get?_updatedRow {store : String} {e : Entity} (h : Held store e) (id : Int)
    (now : Calendar.Instant) (row : Row) (n : String) :
    Record.get? (MigrationStore.updatedRow now row (pendingValues e)) n =
      ((Write.mk false id now e).wrote n).or (Record.get? row n) := by
  rw [MigrationStore.updatedRow, Record.get?_insert, Record.get?_update h.pendingValues_nodup,
    h.get?_pendingValues, Write.wrote, Write.stamp]
  by_cases hid : n = "id"
  · subst hid
    rfl
  by_cases hupdated : n = "updated_at"
  · subst hupdated
    rfl
  by_cases hchanged : n ∈ e.whatChanged <;> simp [hid, hupdated, Ne.symm hupdated, hchanged]

/-- A save leaves alone what the release of the entity does not declare. -/
theorem Held.wrote_undeclared {store : String} {e : Entity} (h : Held store e)
    (hn : e.schema.field? n = none) (row : Int) (now : Calendar.Instant) :
    (Write.mk false row now e).wrote n = none := by
  have hstamp : n ≠ "updated_at" := by
    rintro rfl
    rcases isMigration_iff.mp h.migration with hs | hs | hs <;> rw [hs] at hn <;> cases hn
  have hchanged : n ∉ e.whatChanged := by
    intro hchanged
    obtain ⟨v, hv⟩ := Record.contains_iff.mp (h.wellFormed.isSet_of_mem_whatChanged hchanged)
    obtain ⟨f, hf, -⟩ := h.stored n v hv
    rw [hn] at hf
    cases hf
  simp [Write.wrote, Write.stamp, hstamp, hchanged]

/-- What is written fits the fields. -/
theorem Held.wrote_fits {store : String} {w : Write} (h : Held store w.entity) {v : Value}
    (hv : w.wrote n = some v) : ∃ f, Record.get? allFields n = some f ∧ f.coerce v = .ok v := by
  rw [Write.wrote] at hv
  by_cases hid : n = "id"
  · rw [if_pos hid] at hv
    split at hv <;> cases hv
    exact ⟨required (.integer false), hid ▸ rfl, rfl⟩
  rw [if_neg hid] at hv
  by_cases hstamp : n = w.stamp
  · rw [if_pos hstamp] at hv
    cases hv
    refine ⟨nullable .datetime, ?_, rfl⟩
    rw [hstamp, Write.stamp]
    split <;> rfl
  rw [if_neg hstamp] at hv
  by_cases hchanged : n ∈ w.entity.whatChanged
  · rw [if_pos hchanged] at hv
    obtain ⟨f, hf, hcoerce⟩ := h.stored n v hv
    exact ⟨f, h.migration.field hf, hcoerce⟩
  rw [if_neg hchanged] at hv
  split at hv
  · next hdeleted =>
      cases hv
      exact ⟨⟨.boolean, false, some (.bool false)⟩, hdeleted.2 ▸ rfl, rfl⟩
  · cases hv

/-- A row that was created fits. -/
theorem Held.fits_created {store : String} {w : Write} (h : Held store w.entity)
    (hcreates : w.creates = true) {row : Row} (hrow : ∀ n, Record.get? row n = w.wrote n) :
    Fits w.row row where
  number := by
    rw [hrow, Write.wrote, if_pos rfl, if_pos hcreates]
  stored n v hv := h.wrote_fits (hrow n ▸ hv)

/-- A row that fits still does when it is saved into. -/
theorem Held.fits_saved {store : String} {w : Write} (h : Held store w.entity)
    (hsaves : w.creates = false) {id : Int} {old row : Row} (hold : Fits id old)
    (hrow : ∀ n, Record.get? row n = (w.wrote n).or (Record.get? old n)) : Fits id row where
  number := by
    rw [hrow, Write.wrote, if_pos rfl, hsaves]
    exact hold.number
  stored n v hv := by
    rw [hrow, Option.or_eq_some_iff] at hv
    rcases hv with hv | ⟨-, hv⟩
    · exact h.wrote_fits hv
    · exact hold.stored n v hv

theorem Held.fits_newRow {store : String} {e : Entity} (h : Held store e) (id : Nat)
    (now : Calendar.Instant) : Fits id (MigrationStore.newRow id now (pendingValues e)) :=
  Held.fits_created (w := ⟨true, id, now, e⟩) h rfl (h.get?_newRow id now)

theorem Held.fits_updatedRow {store : String} {e : Entity} (h : Held store e) {id : Int}
    (now : Calendar.Instant) {row : Row} (hrow : Fits id row) :
    Fits id (MigrationStore.updatedRow now row (pendingValues e)) :=
  Held.fits_saved (w := ⟨false, id, now, e⟩) h rfl hrow (h.get?_updatedRow id now row)

/-! ## Loading -/

/-- What loading a row leaves: the declared fields hold what the row has, or what they hold
where there is nothing, and nothing counts as changed. -/
structure Loaded (row : Row) (e e' : Entity) : Prop where
  schema : e'.schema = e.schema
  version : e'.version = e.version
  context : e'.context? = e.context?
  clean : e'.whatChanged = []
  values : ∀ n f, e.schema.field? n = some f →
    Record.get? e'.values n = some ((Record.get? row n).getD (absent f))

theorem Held.foldl_assigned {store : String} {e : Entity} (h : Held store e)
    {ps : List (String × Value)} {w : String → Value}
    (hps : ∀ p ∈ ps, ∃ f, e.schema.field? p.1 = some f ∧ f.coerce p.2 = .ok (w p.1)) :
    Held store (ps.foldl (fun e p => e.assigned p.1 (w p.1)) e) := by
  induction ps generalizing e with
  | nil => exact h
  | cons p ps ih =>
      obtain ⟨⟨f, hf, hw⟩, hps⟩ := List.forall_mem_cons.mp hps
      exact ih (h.assigned hf hw) hps

/-- What a field is given of a row: null where the row has nothing. -/
def given (row : Row) (n : String) : Value := (Record.get? row n).getD .null

/-- What fields are given of a row. -/
def givens (row : Row) (fs : List (String × Field)) : List (String × Value) :=
  fs.map fun p => (p.1, given row p.1)

theorem loadRow_apply (row : Row) (e : Entity) : loadRow row e =
    (Update.setAll (givens row e.schema.fields) >>= fun _ =>
      modify (·.resetChanges none false)) e := by
  have hget : (get : Update Entity) e = (.ok e, e) := rfl
  rw [loadRow, ExceptT.bind_ok hget, Schema.fieldNames, List.map_map]
  rfl

/-- Fields that take what they are given are assigned one after another. -/
theorem setAll_givens {e : Entity} {row : Row} {fs : List (String × Field)} {w : String → Value}
    (h : ∀ p ∈ fs, e.schema.field? p.1 = some p.2 ∧ p.2.coerce (given row p.1) = .ok (w p.1)) :
    Update.setAll (givens row fs) e =
      (.ok (), (givens row fs).foldl (fun e p => e.assigned p.1 (w p.1)) e) := by
  refine Update.setAll_ok ?_
  intro p hp
  obtain ⟨q, hq, rfl⟩ := List.mem_map.mp hp
  exact ⟨q.2, h q hq⟩

theorem loadRow_ok {e : Entity} {row : Row} {w : String → Value}
    (h : ∀ p ∈ e.schema.fields,
      e.schema.field? p.1 = some p.2 ∧ p.2.coerce (given row p.1) = .ok (w p.1)) :
    loadRow row e = (.ok (), ((givens row e.schema.fields).foldl
      (fun e p => e.assigned p.1 (w p.1)) e).resetChanges none false) :=
  (loadRow_apply row e).trans (ExceptT.bind_ok (setAll_givens h))

omit [Codecs] in
/-- Loading leaves in each declared field what it took, and touches nothing else. -/
theorem get?_foldl_givens (row : Row) (w : String → Value) (e : Entity) (n : String) :
    Record.get? ((givens row e.schema.fields).foldl
      (fun e p => e.assigned p.1 (w p.1)) e).values n =
        if n ∈ e.schema.fieldNames then some (w n) else Record.get? e.values n := by
  have hnames : (givens row e.schema.fields).map (·.1) = e.schema.fieldNames := List.map_map ..
  rw [Entity.get?_foldl_assigned, hnames]

/-- A migration can be loaded from any row that fits. -/
theorem Held.exists_loadRow {store : String} {e : Entity} (h : Held store e) {id : Int} {row : Row}
    (hrow : Fits id row) :
    ∃ e', loadRow row e = (.ok (), e') ∧ Held store e' ∧ Loaded row e e' := by
  let filled (n : String) : Value :=
    (Record.get? row n).getD (((Record.get? allFields n).map absent).getD .null)
  have hfilled (n : String) (f : Field) (hf : e.schema.field? n = some f) :
      filled n = (Record.get? row n).getD (absent f) := by
    simp only [filled, h.migration.field hf, Option.map_some, Option.getD_some]
  have htaken : ∀ p ∈ e.schema.fields,
      e.schema.field? p.1 = some p.2 ∧ p.2.coerce (given row p.1) = .ok (filled p.1) := by
    intro p hp
    have hf : e.schema.field? p.1 = some p.2 := Record.get?_of_mem h.wellFormed.schema.fields hp
    exact ⟨hf, hfilled p.1 p.2 hf ▸ hrow.coerce (h.migration.field hf)⟩
  have hload := loadRow_ok htaken
  have hvalues := get?_foldl_givens row filled e
  obtain ⟨hschema, hversion, hcontext⟩ :=
    Entity.foldl_assigned_frame (givens row e.schema.fields) filled e
  have hheld : Held store ((givens row e.schema.fields).foldl
      (fun e p => e.assigned p.1 (filled p.1)) e) := by
    refine h.foldl_assigned ?_
    intro p hp
    obtain ⟨q, hq, rfl⟩ := List.mem_map.mp hp
    exact ⟨q.2, htaken q hq⟩
  generalize (givens row e.schema.fields).foldl (fun e p => e.assigned p.1 (filled p.1)) e = d at *
  have hreset : Held store (d.resetChanges none false) :=
    ⟨hheld.migration, hheld.wellFormed.resetChanges none false, hheld.stored⟩
  refine ⟨_, hload, hreset, hschema, hversion, hcontext, ?_, ?_⟩
  · rw [hreset.whatChanged_eq]
    simp [Entity.resetChanges]
  · intro n f hf
    exact (hvalues n).trans (by rw [if_pos (Entity.mem_fieldNames hf), hfilled n f hf])

end

end Catalog

end Skew

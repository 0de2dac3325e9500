import Skew.Proofs.MigrationCalls

/-!
# Stores that calls have filled

What a local call of `create` or `save` does to a store, whatever the migration holds that it is
called on: it leaves the store alone, adds the next row, or writes over a row
(`MigrationStore.Written`). Whether the row can be loaded afterwards makes no difference to the
store.

So the rows of a store that only such calls have written to stand in the order of their numbers,
which count up from one (`Filled.numbered`). They fit the fields of all releases as soon as all
these migrations held what their fields store (`Filled.fitting`).
-/

namespace Skew.Catalog

/-! ## Migrations of any version -/

/-- A schema of migrations, built at some version, whose methods use the named store. -/
def AnyMigration (store : String) (s : Schema) : Prop := ∃ version, migration version store = .ok s

theorem IsMigration.any {store : String} {s : Schema} (h : IsMigration store s) :
    AnyMigration store s := by
  obtain ⟨version, -, hbuilt⟩ := h
  exact ⟨version, hbuilt⟩

namespace AnyMigration

variable {store : String} {s : Schema} (h : AnyMigration store s)
include h

/-- A version has some of the fields that came with later releases. -/
theorem exists_eq : ∃ v newer, List.Sublist newer [migrationType, hidden] ∧
    s = migrationSchema store v newer := by
  obtain ⟨version, h⟩ := h
  obtain ⟨typed, -, h⟩ := Except.bind_eq_ok_iff.mp h
  obtain ⟨hides, -, h⟩ := Except.bind_eq_ok_iff.mp h
  obtain ⟨v, -, h⟩ := Except.bind_eq_ok_iff.mp h
  cases typed <;> cases hides <;> cases h
  · exact ⟨v, [], List.nil_sublist _, by cbv⟩
  · exact ⟨v, [hidden], .cons _ (.refl _), by cbv⟩
  · exact ⟨v, [migrationType], .cons_cons _ (.cons _ .slnil), by cbv⟩
  · exact ⟨v, [migrationType, hidden], .refl _, by cbv⟩

theorem sublist : List.Sublist s.fields allFields := by
  obtain ⟨v, newer, hnewer, rfl⟩ := h.exists_eq
  exact hnewer.append_left migrationFields

theorem field {n : String} {f : Field} (hf : s.field? n = some f) :
    Record.get? allFields n = some f :=
  Record.get?_of_mem allFields_nodup (h.sublist.subset (Record.mem_of_get? hf))

theorem wellFormed : s.WellFormed where
  fields := allFields_nodup.sublist (h.sublist.map _)
  tables := by
    obtain ⟨v, newer, -, rfl⟩ := h.exists_eq
    exact List.forall_mem_nil _

theorem method_create : s.method? "create" = some (remotable .ofInstance create store) := by
  obtain ⟨v, newer, -, rfl⟩ := h.exists_eq
  rfl

theorem method_save : s.method? "save" = some (remotable .ofInstance save store) := by
  obtain ⟨v, newer, -, rfl⟩ := h.exists_eq
  rfl

end AnyMigration

/-! ## Writes to a store -/

namespace MigrationStore

/-- What a write of values does to a store. -/
inductive Written (values : Row) (m : MigrationStore) : MigrationStore → Prop
  | unwritten : Written values m m
  | created (now : Calendar.Instant) : Written values m (m.create now values).2
  | updated (now : Calendar.Instant) {id : Int} {old : Row} (hold : find? id m.rows = some old) :
      Written values m ⟨replaceRow id (updatedRow now old values) m.rows, m.lastId⟩

theorem update_written (m : MigrationStore) (id : Int) (now : Calendar.Instant) (values : Row) :
    Written values m (m.update id now values).2 := by
  rw [update, get]
  cases hold : find? id m.rows with
  | none => exact .unwritten
  | some old => exact .updated now hold

/-- Rows are numbered from one, without gaps and in order. -/
def Numbered (m : MigrationStore) : Prop :=
  m.rows.map (·.1) = (List.range m.lastId).map fun i : Nat => (i : Int) + 1

theorem Numbered.written {values : Row} {m m' : MigrationStore} (h : m.Numbered)
    (hwritten : Written values m m') : m'.Numbered := by
  cases hwritten with
  | unwritten => exact h
  | created now =>
      rw [Numbered, create, List.range_succ, List.map_append, List.map_append, h]
      rfl
  | updated now hold => exact (keys_replaceRow ..).trans h

theorem Numbered.ascending {m : MigrationStore} (h : m.Numbered) :
    (m.rows.map (·.1)).Pairwise (· < ·) := by
  rw [h, List.pairwise_map]
  exact List.pairwise_lt_range.imp fun hij => by omega

/-- Ascending numbers find the rows that stand in the store. -/
theorem find?_eq_some_iff {m : MigrationStore} (h : (m.rows.map (·.1)).Pairwise (· < ·)) {id : Int}
    {row : Row} : find? id m.rows = some row ↔ (id, row) ∈ m.rows := by
  generalize m.rows = rows at h
  induction rows with
  | nil => exact iff_of_false nofun (List.not_mem_nil)
  | cons p rows ih =>
      rw [List.map_cons, List.pairwise_cons] at h
      rw [find?, List.mem_cons]
      split
      · next hid =>
          have hlater : (id, row) ∉ rows := by
            intro hmem
            have hlt := h.1 id (List.mem_map_of_mem (f := (·.1)) hmem)
            omega
          rw [or_iff_left hlater, Option.some.injEq, ← hid, Prod.ext_iff]
          exact ⟨fun hrow => ⟨rfl, hrow.symm⟩, fun hp => hp.2.symm⟩
      · next hid =>
          rw [ih h.2, or_iff_right]
          rintro rfl
          exact hid rfl

end MigrationStore

open MigrationStore (Written)

section

variable {σ : Type} [Codecs]

/-! ## What calls do to the store -/

/-- Loading a row does not touch the state. -/
theorem state_load (w : Run σ Row) (e : Entity) (s : σ) : ((do
    let row ← EntityRun.ofRun w
    EntityRun.ofUpdate (loadRow row)
    pure .null : EntityRun σ Value) e s).2 = (w s).2 := by
  rcases hw : w s with ⟨err | row, s'⟩
  · have hrun : EntityRun.ofRun w e s = ((.error err, e), s') := by rw [EntityRun.ofRun, hw]
    rw [EntityRun.bind_error hrun]
  · have hrun : EntityRun.ofRun w e s = ((.ok row, e), s') := by rw [EntityRun.ofRun, hw]
    rw [EntityRun.bind_ok hrun]
    have hupdate : (EntityRun.ofUpdate (loadRow row) : EntityRun σ Unit) e s' =
        (loadRow row e, s') := rfl
    rcases hload : loadRow row e with ⟨err | u, e'⟩
    · rw [hload] at hupdate
      rw [EntityRun.bind_error hupdate]
    · rw [hload] at hupdate
      rw [EntityRun.bind_ok hupdate]
      rfl

variable {b : Backing σ} {store : String} {e : Entity}

omit [Codecs] in
theorem Backing.store_write {α : Type} (hb : b.Lawful store)
    (act : MigrationStore → Calendar.Instant → Outcome α × MigrationStore) (s : σ) :
    b.store store (b.write store act s).2 = (act (b.store store s) (b.now s).1).2 := by
  rw [b.write_eq, hb.read_write, hb.read_now]

theorem createBody_written (hb : b.Lawful store) (e : Entity) (s : σ) :
    Written (pendingValues e) (b.store store s) (b.store store (createBody b store e s).2) := by
  cases hid : e.isSet "id" with
  | true =>
      rw [createBody_refused hid]
      exact .unwritten
  | false =>
      have hget : (get : EntityRun σ Entity) e s = ((.ok e, e), s) := rfl
      rw [createBody, EntityRun.bind_ok hget, hid]
      refine (congrArg (Written _ _) ?_).mpr (.created (b.now s).1)
      exact (congrArg (b.store store) (state_load _ e s)).trans (Backing.store_write hb _ s)

theorem saveBody_written (hb : b.Lawful store) (e : Entity) (s : σ) :
    Written (pendingValues e) (b.store store s) (b.store store (saveBody b store e s).2) := by
  have hget : (get : EntityRun σ Entity) e s = ((.ok e, e), s) := rfl
  rw [saveBody, EntityRun.bind_ok hget]
  cases hv : e.get "id" with
  | error err => exact .unwritten
  | ok v =>
      have hread : (liftM (.ok v : Outcome Value) : EntityRun σ Value) e s = ((.ok v, e), s) := rfl
      rw [EntityRun.bind_ok hread]
      cases hid : v.int? with
      | none => exact .unwritten
      | some id =>
          refine (congrArg (Written _ _) ?_).mpr
            (MigrationStore.update_written _ id.toInt (b.now s).1 _)
          exact (congrArg (b.store store) (state_load _ e s)).trans (Backing.store_write hb _ s)

/-- The methods that write. -/
def writers : List String := ["create", "save"]

theorem call_written (hb : b.Lawful store) {d : Dispatcher σ} (hd : Here b d)
    (hschema : AnyMigration store e.schema) {method : String} (hmethod : method ∈ writers)
    (args : Args) (s : σ) :
    Written (pendingValues e) (b.store store s) (b.store store (d.call method args e s).2) := by
  simp only [writers, List.mem_cons, List.not_mem_nil, or_false] at hmethod
  rcases hmethod with rfl | rfl
  · rw [call_here hd hschema.method_create rfl rfl]
    split
    · exact .unwritten
    · split
      · exact .unwritten
      · exact createBody_written hb e s
  · rw [call_here hd hschema.method_save rfl rfl]
    split
    · exact .unwritten
    · split
      · exact .unwritten
      · exact saveBody_written hb e s

/-! ## Filled stores -/

/-- The state is reached from an empty store by local calls of `create` and `save` on migrations
with the given property, whatever comes of the calls, and by what leaves the store alone. -/
inductive Filled (b : Backing σ) (store : String) (used : Entity → Prop) : σ → Prop
  | start {s : σ} (hempty : b.store store s = .empty) : Filled b store used s
  | call {s s' : σ} {d : Dispatcher σ} {method : String} {args : Args} {e e' : Entity}
      {r : Outcome Value} (hfilled : Filled b store used s) (hd : Here b d)
      (hmethod : method ∈ writers) (hschema : AnyMigration store e.schema) (he : used e)
      (hcall : d.call method args e s = ((r, e'), s')) : Filled b store used s'
  | elsewhere {s s' : σ} (hfilled : Filled b store used s)
      (hstore : b.store store s' = b.store store s) : Filled b store used s'

namespace Filled

variable {used : Entity → Prop} {s : σ}

/-- What writes keep, holds of every filled store. -/
theorem keeps (hb : b.Lawful store) {P : MigrationStore → Prop} (hempty : P .empty)
    (hwrite : ∀ m m' e, P m → AnyMigration store e.schema → used e →
      Written (pendingValues e) m m' → P m') (h : Filled b store used s) : P (b.store store s) := by
  induction h with
  | start h => exact h ▸ hempty
  | @call s s' d method args e e' r _ hd hmethod hschema he hcall ih =>
      have hwritten := call_written hb hd hschema hmethod args s
      rw [hcall] at hwritten
      exact hwrite _ _ _ ih hschema he hwritten
  | elsewhere _ hstore ih => exact hstore ▸ ih

theorem numbered (hb : b.Lawful store) (h : Filled b store used s) : (b.store store s).Numbered :=
  h.keeps hb rfl fun _ _ _ hm _ _ hwritten => hm.written hwritten

theorem mono {used' : Entity → Prop} (himp : ∀ e, used e → used' e) (h : Filled b store used s) :
    Filled b store used' s := by
  induction h with
  | start hempty => exact .start hempty
  | call _ hd hmethod hschema he hcall ih => exact .call ih hd hmethod hschema (himp _ he) hcall
  | elsewhere _ hstore ih => exact .elsewhere ih hstore

end Filled

/-! ## Rows that fit -/

/-- Every value of the entity is one that its field stores. -/
def Stored (e : Entity) : Prop :=
  ∀ n v, Record.get? e.values n = some v → ∃ f, e.schema.field? n = some f ∧ f.coerce v = .ok v

omit [Codecs] in
theorem mem_pendingValues {p : String × Value} (h : p ∈ pendingValues e) :
    p.1 ≠ "id" ∧ Record.get? e.values p.1 = some p.2 := by
  obtain ⟨hp, hid⟩ := List.mem_filter.mp h
  obtain ⟨n, -, hn⟩ := List.mem_filterMap.mp hp
  obtain ⟨v, hv, rfl⟩ := Option.map_eq_some_iff.mp hn
  exact ⟨by simpa using hid, hv⟩

/-- What is pending in a migration fits the fields of all releases. -/
theorem Stored.pending (he : Stored e) (hschema : AnyMigration store e.schema)
    {p : String × Value} (hp : p ∈ pendingValues e) :
    ∃ f, Record.get? allFields p.1 = some f ∧ f.coerce p.2 = .ok p.2 := by
  obtain ⟨f, hf, hcoerce⟩ := he p.1 p.2 (mem_pendingValues hp).2
  exact ⟨f, hschema.field hf, hcoerce⟩

namespace MigrationStore

omit [Codecs] in
theorem mem_newRow {id : Nat} {now : Calendar.Instant} {values : Row} {p : String × Value}
    (h : p ∈ newRow id now values) : p ∈ values ∨ p = ("id", .int (Int64.ofInt id)) ∨
      p = ("created_at", .datetime now) ∨ p = ("deleted", .bool false) := by
  have hstamped (h : p ∈ Record.insert (Record.insert values "id" (.int (Int64.ofInt id)))
      "created_at" (.datetime now)) : p ∈ values ∨ p = ("id", .int (Int64.ofInt id)) ∨
        p = ("created_at", .datetime now) := by
    rcases Record.mem_insert h with h | h
    · exact Or.inr (Or.inr h)
    · exact (Record.mem_insert h).symm.imp_right Or.inl
  rw [newRow] at h
  split at h
  · rcases hstamped h with h | h | h <;> simp [h]
  · rcases Record.mem_insert h with h | h
    · simp [h]
    · rcases hstamped h with h | h | h <;> simp [h]

omit [Codecs] in
theorem get?_newRow_id (id : Nat) (now : Calendar.Instant) (values : Row) :
    Record.get? (newRow id now values) "id" = some (.int (Int64.ofInt id)) := by
  rw [newRow]
  split <;> simp [Record.get?_insert]

theorem fits_newRow {id : Nat} {now : Calendar.Instant} {values : Row}
    (h : ∀ p ∈ values, ∃ f, Record.get? allFields p.1 = some f ∧ f.coerce p.2 = .ok p.2) :
    Fits id (newRow id now values) where
  number := get?_newRow_id id now values
  stored n v hv := by
    rcases mem_newRow (Record.mem_of_get? hv) with hp | hp | hp | hp
    · exact h _ hp
    all_goals
      cases hp
      exact ⟨_, rfl, rfl⟩

theorem fits_updatedRow {id : Int} {now : Calendar.Instant} {values old : Row}
    (h : ∀ p ∈ values, ∃ f, Record.get? allFields p.1 = some f ∧ f.coerce p.2 = .ok p.2)
    (hvalues : "id" ∉ values.map (·.1)) (hold : Fits id old) :
    Fits id (updatedRow now old values) where
  number := by
    rw [updatedRow, Record.get?_insert_ne _ _ (by decide), Record.get?_update_of_notMem hvalues]
    exact hold.number
  stored n v hv := by
    rw [updatedRow, Record.get?_insert] at hv
    split at hv
    · next hn =>
        cases hv
        exact ⟨nullable .datetime, hn ▸ rfl, rfl⟩
    · rcases Record.mem_or_get?_of_get?_update hv with hp | hv
      · exact h _ hp
      · exact hold.stored n v hv

/-- All rows fit. -/
def Fitting (m : MigrationStore) : Prop := ∀ id row, find? id m.rows = some row → Fits id row

/-- Rows that fit still do after a write by a migration whose values are stored ones. -/
theorem Fitting.written {store : String} {m m' : MigrationStore} (h : m.Fitting)
    (hschema : AnyMigration store e.schema) (he : Stored e)
    (hwritten : Written (pendingValues e) m m') : m'.Fitting := by
  have hpending := fun p hp => he.pending hschema (p := p) hp
  intro k x hx
  cases hwritten with
  | unwritten => exact h k x hx
  | created now =>
      rcases find?_snoc hx with hx | ⟨rfl, rfl⟩
      · exact h k x hx
      · exact fits_newRow hpending
  | @updated now id old hold =>
      rw [find?_replaceRow] at hx
      split at hx
      · next hk =>
          rw [hk, hold] at hx
          cases hx
          refine hk ▸ fits_updatedRow hpending ?_ (h id old hold)
          intro hmem
          obtain ⟨p, hp, hname⟩ := List.mem_map.mp hmem
          exact (mem_pendingValues hp).1 hname
      · exact h k x hx

end MigrationStore

theorem Filled.fitting {s : σ} (hb : b.Lawful store) (h : Filled b store Stored s) :
    (b.store store s).Fitting :=
  h.keeps hb nofun fun _ _ _ hm hschema he hwritten => hm.written hschema he hwritten

end

end Skew.Catalog

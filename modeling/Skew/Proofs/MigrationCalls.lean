import Skew.Proofs.ClassCalls
import Skew.Proofs.MigrationRows

/-!
# Calls on migrations

What the methods of migrations do on the node that has the store, as a relation for each
(`Creates`, `Saves`, `Fetches`). A call that fails leaves the store and the entity as they
were: what can fail is asked before the store is written to, and the row that was written can
always be loaded.
-/

namespace Skew.Catalog

/-! ## Rows by number -/

namespace MigrationStore

theorem find?_append (id : Int) (rows later : List (Int × Row)) :
    find? id (rows ++ later) = (find? id rows).or (find? id later) := by
  induction rows with
  | nil => rfl
  | cons p rows ih =>
      rw [List.cons_append, find?, find?, ih]
      split <;> rfl

/-- With a row added, what is found was there before or is the row. -/
theorem find?_snoc {id k : Int} {rows : List (Int × Row)} {row x : Row}
    (h : find? k (rows ++ [(id, row)]) = some x) : find? k rows = some x ∨ k = id ∧ x = row := by
  rw [find?_append, Option.or_eq_some_iff] at h
  rcases h with h | ⟨-, h⟩
  · exact Or.inl h
  · rw [find?] at h
    split at h
    · next hid =>
        cases h
        exact Or.inr ⟨hid.symm, rfl⟩
    · cases h

theorem find?_isSome_iff {id : Int} {rows : List (Int × Row)} :
    (find? id rows).isSome ↔ id ∈ rows.map (·.1) := by
  induction rows with
  | nil => simp [find?]
  | cons p rows ih =>
      rw [find?, List.map_cons, List.mem_cons]
      by_cases hid : p.1 = id
      · simp [hid]
      · simp [hid, Ne.symm hid, ih]

theorem replaceRow_cons (id : Int) (row : Row) (n : Int) (old : Row) (rows : List (Int × Row)) :
    replaceRow id row ((n, old) :: rows) =
      (n, if n = id then row else old) :: replaceRow id row rows := by
  simp only [replaceRow, List.map_cons]
  split <;> rfl

theorem keys_replaceRow (id : Int) (row : Row) (rows : List (Int × Row)) :
    (replaceRow id row rows).map (·.1) = rows.map (·.1) := by
  induction rows with
  | nil => rfl
  | cons p rows ih => rw [replaceRow_cons, List.map_cons, List.map_cons, ih]

theorem find?_replaceRow (id k : Int) (row : Row) (rows : List (Int × Row)) :
    find? k (replaceRow id row rows) =
      if k = id then (find? k rows).map fun _ => row else find? k rows := by
  induction rows with
  | nil => simp [replaceRow, find?]
  | cons p rows ih =>
      obtain ⟨n, old⟩ := p
      rw [replaceRow_cons, find?, find?, ih]
      by_cases hn : n = k
      · subst hn
        by_cases hid : n = id <;> simp [hid]
      · simp [hn]

end MigrationStore

/-! ## Calls -/

section

variable {σ : Type}

/-- A store reads back what was written to it, and asking for the time leaves it alone. -/
structure Backing.Lawful (b : Backing σ) (store : String) : Prop where
  read_write : ∀ m s, b.store store (b.setStore store m s) = m
  read_now : ∀ s, b.store store (b.now s).2 = b.store store s

theorem Backing.write_eq {α : Type} (b : Backing σ) (store : String)
    (act : MigrationStore → Calendar.Instant → Outcome α × MigrationStore) (s : σ) :
    b.write store act s = ((act (b.store store (b.now s).2) (b.now s).1).1,
      b.setStore store (act (b.store store (b.now s).2) (b.now s).1).2 (b.now s).2) := rfl

variable [Codecs]

/-- The methods of the catalog run here. -/
structure Here (b : Backing σ) (d : Dispatcher σ) : Prop where
  bodies : d.bodies = Catalog.bodies b
  transport : d.transport? = none

/-- A call that runs here starts its body, once it is clear that it has a context and was not
given another one. -/
theorem call_here {b : Backing σ} {d : Dispatcher σ} (hd : Here b d) {e : Entity}
    {method : String} {m : Method} (hmethod : e.schema.method? method = some m)
    (hscope : m.scope = .ofInstance) (hremotable : m.remotable = true) (args : Args) (s : σ) :
    d.call method args e s =
      if args.context?.isSome then ((.error (.action method .positionalContext), e), s)
      else if e.context? = none then ((.error (.orphanedEntity method e.typeName), e), s)
      else (Catalog.bodies b).ofInstance m.body args e s := by
  cases hcontext : e.context? with
  | some c =>
      rw [d.call_eq hmethod hscope hremotable args hcontext, hd.transport, hd.bodies]
      rfl
  | none =>
      have hget : (get : EntityRun σ Entity) e s = ((.ok e, e), s) := rfl
      have hm : (liftM (e.schema.requireMethod method) : EntityRun σ Method) e s =
          ((.ok m, e), s) := by
        rw [Schema.requireMethod, hmethod]
        rfl
      rw [Dispatcher.call, EntityRun.bind_ok hget, EntityRun.bind_ok hm]
      simp only [hscope, hremotable, hcontext, ne_eq, not_true_eq_false, if_false, if_true]
      split <;> rfl

/-- The row that a save of the entity goes to. -/
def rowOf (e : Entity) : Int :=
  match Record.get? e.values "id" with
  | some (.int id) => id.toInt
  | _ => 0

/-- What a call of `create` on an entity does: it refuses and leaves all as it was, or it adds
the next row and loads it. -/
inductive Creates (b : Backing σ) (store : String) (args : Args) (e : Entity) (s : σ) :
    Outcome Value → Entity → σ → Prop
  | refused {err : EntityError}
      (hreason : args.context?.isSome ∨ e.context? = none ∨ e.isSet "id" = true) :
      Creates b store args e s (.error err) e s
  | created {row : Row} {e' : Entity} {s' : σ} (hargs : args.context? = none)
      (hcontext : e.context? ≠ none) (hid : e.isSet "id" = false)
      (hstore : b.store store s' = ⟨(b.store store s).rows ++
        [(((b.store store s).lastId : Int) + 1, row)], (b.store store s).lastId + 1⟩)
      (hrow : ∀ n, Record.get? row n =
        (Write.mk true ((b.store store s).lastId + 1) (b.now s).1 e).wrote n)
      (hloaded : Loaded row e e') : Creates b store args e s (.ok .null) e' s'

/-- What a call of `save` on an entity does: it refuses and leaves the entity and the store as
they were, or it writes over the row with its number and loads it. What the release of the
entity does not declare stays in the row. -/
inductive Saves (b : Backing σ) (store : String) (args : Args) (e : Entity) (s : σ) :
    Outcome Value → Entity → σ → Prop
  | refused {err : EntityError} {s' : σ} (hstore : b.store store s' = b.store store s)
      (hreason : args.context?.isSome ∨ e.context? = none ∨
        (∀ id, Record.get? e.values "id" ≠ some (.int id)) ∨
          MigrationStore.find? (rowOf e) (b.store store s).rows = none) :
      Saves b store args e s (.error err) e s'
  | saved {id : Int64} {old row : Row} {e' : Entity} {s' : σ} (hargs : args.context? = none)
      (hcontext : e.context? ≠ none) (hid : Record.get? e.values "id" = some (.int id))
      (hold : MigrationStore.find? id.toInt (b.store store s).rows = some old)
      (hlast : (b.store store s').lastId = (b.store store s).lastId)
      (hkeys : (b.store store s').rows.map (·.1) = (b.store store s).rows.map (·.1))
      (hrows : ∀ k, MigrationStore.find? k (b.store store s').rows =
        if k = id.toInt then some row else MigrationStore.find? k (b.store store s).rows)
      (hrow : ∀ n, Record.get? row n =
        ((Write.mk false id.toInt (b.now s).1 e).wrote n).or (Record.get? old n))
      (hundeclared : ∀ n, e.schema.field? n = none → Record.get? row n = Record.get? old n)
      (hloaded : Loaded row e e') : Saves b store args e s (.ok .null) e' s'

/-- What a call of `get_by_id` in a context does: it finds no row, or it loads the row into a
new entity. -/
inductive Fetches (b : Backing σ) (store : String) (c : Context) (schema : Schema) (args : Args)
    (s : σ) : Outcome Value → Prop
  | missed {err : EntityError}
      (hreason : ∀ id, args.get? 0 "migration_id" = some (.int id) →
        MigrationStore.find? id.toInt (b.store store s).rows = none) :
      Fetches b store c schema args s (.error err)
  | fetched {id : Int64} {row : Row} {e : Entity}
      (hid : args.get? 0 "migration_id" = some (.int id))
      (hrow : MigrationStore.find? id.toInt (b.store store s).rows = some row)
      (hloaded : Loaded row ((Entity.ofSchema schema).bound c) e) :
      Fetches b store c schema args s (.ok (.entity e))

variable {b : Backing σ} {store : String} {e : Entity}

/-- A write that leaves a row that fits is followed by loading the row, which succeeds. -/
theorem Held.exists_loaded (he : Held store e) {w : Run σ Row} {s s' : σ} {row : Row}
    (hw : w s = (.ok row, s')) {id : Int} (hfits : Fits id row) :
    ∃ e', (do
        let row ← EntityRun.ofRun w
        EntityRun.ofUpdate (loadRow row)
        pure .null : EntityRun σ Value) e s = ((.ok .null, e'), s') ∧
      Held store e' ∧ Loaded row e e' := by
  obtain ⟨e', hload, he', hloaded⟩ := he.exists_loadRow hfits
  have hwrite : EntityRun.ofRun w e s = ((.ok row, e), s') := by rw [EntityRun.ofRun, hw]
  have hrow : (EntityRun.ofUpdate (loadRow row) : EntityRun σ Unit) e s' = ((.ok (), e'), s') := by
    rw [EntityRun.ofUpdate, hload]
  exact ⟨e', (EntityRun.bind_ok hwrite).trans (EntityRun.bind_ok hrow), he', hloaded⟩

theorem createBody_refused (hid : e.isSet "id" = true) (s : σ) :
    createBody b store e s = ((.error (.action "create" .alreadyCreated), e), s) := by
  have hget : (get : EntityRun σ Entity) e s = ((.ok e, e), s) := rfl
  rw [createBody, EntityRun.bind_ok hget, if_pos hid]
  rfl

/-- The body of `create` succeeds with a fresh entity. -/
theorem createBody_ok (hb : b.Lawful store) (he : Held store e) (hid : e.isSet "id" = false)
    (s : σ) : ∃ row e' s', createBody b store e s = ((.ok .null, e'), s') ∧
      row = MigrationStore.newRow ((b.store store s).lastId + 1) (b.now s).1 (pendingValues e) ∧
      b.store store s' = ⟨(b.store store s).rows ++
        [((((b.store store s).lastId + 1 : Nat) : Int), row)], (b.store store s).lastId + 1⟩ ∧
      Held store e' ∧ Loaded row e e' := by
  rw [← hb.read_now s]
  generalize hm : b.store store (b.now s).2 = m
  let row := MigrationStore.newRow (m.lastId + 1) (b.now s).1 (pendingValues e)
  let m' : MigrationStore := ⟨m.rows ++ [(((m.lastId + 1 : Nat) : Int), row)], m.lastId + 1⟩
  have hw : (b.write store fun m now => (.ok (m.create now (pendingValues e)).1,
      (m.create now (pendingValues e)).2)) s = (.ok row, b.setStore store m' (b.now s).2) := by
    rw [b.write_eq, hm]
    rfl
  have hget : (get : EntityRun σ Entity) e s = ((.ok e, e), s) := rfl
  obtain ⟨e', hbody, hloaded⟩ := he.exists_loaded hw (he.fits_newRow (m.lastId + 1) (b.now s).1)
  refine ⟨row, e', b.setStore store m' (b.now s).2, ?_, rfl, hb.read_write _ _, hloaded⟩
  rw [createBody, EntityRun.bind_ok hget, hid]
  exact hbody

theorem call_creates (hb : b.Lawful store) {d : Dispatcher σ} (hd : Here b d) (he : Held store e)
    (args : Args) (s : σ) : ∃ r e' s', d.call "create" args e s = ((r, e'), s') ∧
      Held store e' ∧ Creates b store args e s r e' s' := by
  rw [call_here hd (he.migration.method rfl) rfl rfl]
  by_cases hargs : args.context?.isSome
  · rw [if_pos hargs]
    exact ⟨_, _, _, rfl, he, .refused (.inl hargs)⟩
  rw [if_neg hargs]
  by_cases hcontext : e.context? = none
  · rw [if_pos hcontext]
    exact ⟨_, _, _, rfl, he, .refused (.inr (.inl hcontext))⟩
  rw [if_neg hcontext]
  show ∃ r e' s', createBody b store e s = ((r, e'), s') ∧ _ ∧ _
  cases hid : e.isSet "id" with
  | true => exact ⟨_, _, _, createBody_refused hid s, he, .refused (.inr (.inr hid))⟩
  | false =>
      obtain ⟨row, e', s', hbody, rfl, hstore, he', hloaded⟩ := createBody_ok hb he hid s
      refine ⟨_, e', s', hbody, he', .created ?_ hcontext hid hstore ?_ hloaded⟩
      · simpa using hargs
      · intro n
        exact he.get?_newRow _ _ n

variable (b store) in
/-- The body of `save` needs a number. -/
theorem saveBody_unnumbered (hid : ∀ id, Record.get? e.values "id" ≠ some (.int id)) (s : σ) :
    ∃ err, saveBody b store e s = ((.error err, e), s) := by
  have hget : (get : EntityRun σ Entity) e s = ((.ok e, e), s) := rfl
  rw [saveBody, EntityRun.bind_ok hget]
  cases hv : e.get "id" with
  | error err => exact ⟨err, rfl⟩
  | ok v =>
      have hread : (liftM (.ok v : Outcome Value) : EntityRun σ Value) e s = ((.ok v, e), s) := rfl
      rw [EntityRun.bind_ok hread]
      cases v
      case int id => exact absurd (Entity.get_eq_ok_iff.mp hv).2 (hid id)
      all_goals exact ⟨_, rfl⟩

/-- The body of `save`, with a number. -/
theorem saveBody_numbered (he : Held store e) {id : Int64}
    (hid : Record.get? e.values "id" = some (.int id)) (s : σ) :
    saveBody b store e s = (do
      let row ← EntityRun.ofRun (b.write store fun m now => m.update id.toInt now (pendingValues e))
      EntityRun.ofUpdate (loadRow row)
      pure .null : EntityRun σ Value) e s := by
  obtain ⟨f, hf, -⟩ := he.stored "id" _ hid
  have hget : (get : EntityRun σ Entity) e s = ((.ok e, e), s) := rfl
  have hread : (liftM (e.get "id") : EntityRun σ Value) e s = ((.ok (.int id), e), s) := by
    rw [Entity.get_eq_ok_iff.mpr ⟨⟨f, hf⟩, hid⟩]
    rfl
  rw [saveBody, EntityRun.bind_ok hget, EntityRun.bind_ok hread]
  rfl

theorem saveBody_missing (hb : b.Lawful store) (he : Held store e) {id : Int64}
    (hid : Record.get? e.values "id" = some (.int id)) {s : σ}
    (hnone : MigrationStore.find? id.toInt (b.store store s).rows = none) :
    ∃ err s', saveBody b store e s = ((.error err, e), s') ∧
      b.store store s' = b.store store s := by
  rw [← hb.read_now s] at hnone ⊢
  generalize hm : b.store store (b.now s).2 = m at hnone ⊢
  have hw : (b.write store fun m now => m.update id.toInt now (pendingValues e)) s =
      (.error (MigrationStore.notFound id.toInt), b.setStore store m (b.now s).2) := by
    rw [b.write_eq, hm, MigrationStore.update, MigrationStore.get, hnone]
  have hrun : EntityRun.ofRun (b.write store fun m now => m.update id.toInt now (pendingValues e))
      e s = ((.error (MigrationStore.notFound id.toInt), e), b.setStore store m (b.now s).2) := by
    rw [EntityRun.ofRun, hw]
  exact ⟨_, _, (saveBody_numbered he hid s).trans (EntityRun.bind_error hrun), hb.read_write _ _⟩

/-- The body of `save` succeeds if there is a row, and the row fits. -/
theorem saveBody_ok (hb : b.Lawful store) (he : Held store e) {id : Int64}
    (hid : Record.get? e.values "id" = some (.int id)) {s : σ} {old : Row}
    (hold : MigrationStore.find? id.toInt (b.store store s).rows = some old)
    (hfits : Fits id.toInt old) :
    ∃ row e' s', saveBody b store e s = ((.ok .null, e'), s') ∧
      row = MigrationStore.updatedRow (b.now s).1 old (pendingValues e) ∧
      b.store store s' = ⟨MigrationStore.replaceRow id.toInt row (b.store store s).rows,
        (b.store store s).lastId⟩ ∧ Held store e' ∧ Loaded row e e' := by
  rw [← hb.read_now s] at hold ⊢
  generalize hm : b.store store (b.now s).2 = m at hold ⊢
  let row := MigrationStore.updatedRow (b.now s).1 old (pendingValues e)
  let m' : MigrationStore := ⟨MigrationStore.replaceRow id.toInt row m.rows, m.lastId⟩
  have hw : (b.write store fun m now => m.update id.toInt now (pendingValues e)) s =
      (.ok row, b.setStore store m' (b.now s).2) := by
    rw [b.write_eq, hm, MigrationStore.update, MigrationStore.get, hold]
  obtain ⟨e', hbody, hloaded⟩ := he.exists_loaded hw (he.fits_updatedRow (b.now s).1 hfits)
  exact ⟨row, e', _, (saveBody_numbered he hid s).trans hbody, rfl, hb.read_write _ _, hloaded⟩

theorem call_saves (hb : b.Lawful store) {d : Dispatcher σ} (hd : Here b d) (he : Held store e)
    (args : Args) (s : σ)
    (hfits : ∀ k row, MigrationStore.find? k (b.store store s).rows = some row → Fits k row) :
    ∃ r e' s', d.call "save" args e s = ((r, e'), s') ∧
      Held store e' ∧ Saves b store args e s r e' s' := by
  rw [call_here hd (he.migration.method rfl) rfl rfl]
  by_cases hargs : args.context?.isSome
  · rw [if_pos hargs]
    exact ⟨_, _, _, rfl, he, .refused rfl (.inl hargs)⟩
  rw [if_neg hargs]
  by_cases hcontext : e.context? = none
  · rw [if_pos hcontext]
    exact ⟨_, _, _, rfl, he, .refused rfl (.inr (.inl hcontext))⟩
  rw [if_neg hcontext]
  show ∃ r e' s', saveBody b store e s = ((r, e'), s') ∧ _ ∧ _
  by_cases hnumber : ∃ id, Record.get? e.values "id" = some (.int id)
  swap
  · have hid := not_exists.mp hnumber
    obtain ⟨err, hbody⟩ := saveBody_unnumbered b store hid s
    exact ⟨_, _, _, hbody, he, .refused rfl (.inr (.inr (.inl hid)))⟩
  obtain ⟨id, hid⟩ := hnumber
  cases hold : MigrationStore.find? id.toInt (b.store store s).rows with
  | none =>
      obtain ⟨err, s', hbody, hstore⟩ := saveBody_missing hb he hid hold
      refine ⟨_, _, s', hbody, he, .refused hstore (.inr (.inr (.inr ?_)))⟩
      rw [rowOf, hid]
      exact hold
  | some old =>
      obtain ⟨row, e', s', hbody, rfl, hstore, he', hloaded⟩ :=
        saveBody_ok hb he hid hold (hfits _ _ hold)
      have hrow := he.get?_updatedRow id.toInt (b.now s).1 old
      refine ⟨_, e', s', hbody, he', .saved (by simpa using hargs) hcontext hid hold ?_ ?_ ?_
        hrow ?_ hloaded⟩
      · rw [hstore]
      · rw [hstore, MigrationStore.keys_replaceRow]
      · intro k
        rw [hstore, MigrationStore.find?_replaceRow]
        split
        · next hk => rw [hk, hold]; rfl
        · rfl
      · intro n hn
        rw [hrow, he.wrote_undeclared hn]
        rfl

theorem getByIdBody_missing (call : ClassCall) (s : σ)
    (hnone : ∀ id, call.args.get? 0 "migration_id" = some (.int id) →
      MigrationStore.find? id.toInt (b.store store s).rows = none) :
    ∃ err, getByIdBody b store call s = (.error err, s) := by
  rw [getByIdBody]
  cases hv : call.args.get? 0 "migration_id" with
  | none =>
      have harg : (liftM (call.args.require 0 "migration_id") : Run σ Value) s =
          (.error (.action "migration_id" (.missingArgument "migration_id")), s) := by
        rw [Args.require, hv]
        rfl
      exact ⟨_, ExceptT.bind_error harg⟩
  | some v =>
      have harg : (liftM (call.args.require 0 "migration_id") : Run σ Value) s = (.ok v, s) := by
        rw [Args.require, hv]
        rfl
      rw [ExceptT.bind_ok harg]
      cases v
      case int id =>
        have hget : (liftM ((b.store store s).get id.toInt) : Run σ Row) s =
            (.error (MigrationStore.notFound id.toInt), s) := by
          rw [MigrationStore.get, hnone id hv]
          rfl
        have hread : b.read store s = (.ok (b.store store s), s) := rfl
        exact ⟨_, (ExceptT.bind_ok hread).trans (ExceptT.bind_error hget)⟩
      all_goals exact ⟨_, rfl⟩

theorem getByIdBody_ok (call : ClassCall) (hschema : IsMigration store call.schema) {id : Int64}
    (hid : call.args.get? 0 "migration_id" = some (.int id)) {s : σ} {row : Row}
    (hrow : MigrationStore.find? id.toInt (b.store store s).rows = some row)
    (hfits : Fits id.toInt row) :
    ∃ e, getByIdBody b store call s = (.ok (.entity e), s) ∧ Held store e ∧
      Loaded row call.newEntity e := by
  obtain ⟨e, hload, he, hloaded⟩ :=
    ((Held.ofSchema hschema).withContext? (some call.context)).exists_loadRow hfits
  refine ⟨e, ?_, he, hloaded⟩
  have harg : (liftM (call.args.require 0 "migration_id") : Run σ Value) s =
      (.ok (.int id), s) := by
    rw [Args.require, hid]
    rfl
  have hread : b.read store s = (.ok (b.store store s), s) := rfl
  have hget : (liftM ((b.store store s).get id.toInt) : Run σ Row) s = (.ok row, s) := by
    rw [MigrationStore.get, hrow]
    rfl
  have hnew : loadRow row call.newEntity = (.ok (), e) := hload
  rw [getByIdBody, ExceptT.bind_ok harg]
  refine (ExceptT.bind_ok hread).trans ((ExceptT.bind_ok hget).trans ?_)
  rw [hnew]
  rfl

theorem call_fetches {d : Dispatcher σ} (hd : Here b d) {schema : Schema}
    (hschema : IsMigration store schema) (c : Context) (args : Args) (s : σ)
    (hfits : ∀ k row, MigrationStore.find? k (b.store store s).rows = some row → Fits k row) :
    ∃ r, d.callClassOn c schema "get_by_id" args s = (r, s) ∧
      Fetches b store c schema args s r ∧ ∀ e, r = .ok (.entity e) → Held store e := by
  rw [d.callClassOn_eq (hschema.method rfl) rfl rfl, hd.transport, hd.bodies]
  show ∃ r, (getByIdBody b store ⟨d.registry, schema, c, args⟩ >>= fun v => pure (v.bound c)) s =
    (r, s) ∧ _ ∧ _
  by_cases hfound : ∃ id row, args.get? 0 "migration_id" = some (.int id) ∧
      MigrationStore.find? id.toInt (b.store store s).rows = some row
  · obtain ⟨id, row, hid, hrow⟩ := hfound
    obtain ⟨e, hbody, he, hloaded⟩ :=
      getByIdBody_ok ⟨d.registry, schema, c, args⟩ hschema hid hrow (hfits _ _ hrow)
    have hbound : e.bound c = e := by
      have hcontext : e.context? = some c := hloaded.context
      cases e
      cases hcontext
      rfl
    refine ⟨.ok (.entity e), ?_, .fetched hid hrow hloaded, ?_⟩
    · rw [ExceptT.bind_ok hbody, Value.bound, hbound]
      rfl
    · rintro _ ⟨⟩
      exact he
  · have hmissing (id : Int64) (hid : args.get? 0 "migration_id" = some (.int id)) :
        MigrationStore.find? id.toInt (b.store store s).rows = none := by
      rw [Option.eq_none_iff_forall_ne_some]
      intro row hrow
      exact hfound ⟨id, row, hid, hrow⟩
    obtain ⟨err, hbody⟩ := getByIdBody_missing ⟨d.registry, schema, c, args⟩ s hmissing
    exact ⟨.error err, ExceptT.bind_error hbody, .missed hmissing, nofun⟩

end

end Skew.Catalog

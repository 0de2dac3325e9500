import Skew.Proofs.FilledStores
import Skew.Proofs.MigrationRuns
import Skew.Proofs.RowReading

/-!
# Migrations in progress

The query for migrations in progress filters the rows of the store and reads each by the newest
definition of migrations. What it finds is said without the filter: in ascending order of their
numbers, exactly the rows that have the host and the node on the same side and no status of a
migration that has ended (`Selection`).

Rows are read through the fields, which coerce. Nothing keeps a client from putting a raw value
into a migration and creating that as a row, so a field may make another value of what is in a
row, or refuse it, and then the query fails (`Refuses`). Where only values that fields store were
written, every row is read as it is.
-/

namespace Skew.Catalog

open EntityList (built ofItems)

/-! ## Rows in progress -/

/-- The row has the text under the name. -/
def Says (row : Row) (n text : String) : Prop := Record.get? row n = some (.str text)

/-- The row is of a migration that has the host and the node on the same side, and has no status
of one that has ended. -/
structure Ongoing (host node : String) (row : Row) : Prop where
  side : Says row "source_compute" host ∧ Says row "source_node" node ∨
    Says row "dest_compute" host ∧ Says row "dest_node" node
  going : ∀ text ∈ MigrationStore.finished, ¬ Says row "status" text

/-- The ongoing rows of a store, each once, in ascending order of their numbers. -/
structure Selection (m : MigrationStore) (host node : String) (found : List (Int × Row)) :
    Prop where
  ascending : (found.map (·.1)).Pairwise (· < ·)
  mem_iff : ∀ id row, (id, row) ∈ found ↔
    MigrationStore.find? id m.rows = some row ∧ Ongoing host node row

namespace MigrationStore

theorem says_iff {row : Row} {n text : String} :
    (Record.get? row n).bind Value.str? = some text ↔ Says row n text := by
  rw [Says, Option.bind_eq_some_iff]
  constructor
  · rintro ⟨v, hv, htext⟩
    cases v <;> cases htext
    exact hv
  · intro h
    exact ⟨_, h, rfl⟩

theorem holds_iff {row : Row} {n text : String} : holds row n text = true ↔ Says row n text := by
  rw [holds, decide_eq_true_iff, says_iff]

theorem isFinished_iff {row : Row} :
    isFinished row = true ↔ ∃ text ∈ finished, Says row "status" text := by
  simp only [← says_iff]
  rw [isFinished]
  cases (Record.get? row "status").bind Value.str? with
  | none => exact iff_of_false nofun nofun
  | some text => simp

theorem ongoing_iff {row : Row} {host node : String} :
    (!isFinished row && touches row host node) = true ↔ Ongoing host node row := by
  rw [Bool.and_eq_true, Bool.not_eq_true', ← Bool.not_eq_true, isFinished_iff, touches]
  simp only [Bool.or_eq_true, Bool.and_eq_true, holds_iff]
  constructor
  · rintro ⟨hopen, hside⟩
    exact ⟨hside, fun text htext hstatus => hopen ⟨text, htext, hstatus⟩⟩
  · rintro ⟨hside, hopen⟩
    exact ⟨fun ⟨text, htext, hstatus⟩ => hopen text htext hstatus, hside⟩

/-- The filter finds the ongoing rows. -/
theorem Numbered.exists_selection {m : MigrationStore} (h : m.Numbered) (host node : String) :
    ∃ found, Selection m host node found ∧ m.inProgress host node = found.map (·.2) := by
  refine ⟨m.rows.filter fun p => !isFinished p.2 && touches p.2 host node, ⟨?_, ?_⟩, ?_⟩
  · exact h.ascending.sublist (List.filter_sublist.map _)
  · intro id row
    rw [List.mem_filter, ongoing_iff, find?_eq_some_iff h.ascending]
  · rw [inProgress, List.filter_map]
    rfl

end MigrationStore

/-! ## The query -/

/-- A schema of lists of migrations, built at some version, whose query uses the named store. -/
def AnyMigrationList (store : String) (s : Schema) : Prop :=
  ∃ version, migrationList version store = .ok s

/-- The name of the query. -/
def query : String := "get_in_progress_by_host_and_node"

theorem AnyMigrationList.shape {store : String} {s : Schema} (h : AnyMigrationList store s) :
    s.itemType? = some "Migration" ∧
      s.method? query = some (remotable .ofClass getInProgress store) := by
  obtain ⟨version, h⟩ := h
  obtain ⟨v, -, h⟩ := Except.bind_eq_ok_iff.mp h
  obtain ⟨tables, -, h⟩ := Except.bind_eq_ok_iff.mp h
  cases h
  exact ⟨rfl, rfl⟩

/-- A list of these entities, bound to a context and without changes. -/
structure Lists (c : Context) (list : Schema) (es : List Entity) (l : Entity) : Prop where
  schema : l.schema = list
  version : l.version = list.version
  context : l.context? = some c
  clean : l.whatChanged = []
  items : Record.get? l.values Schema.itemsField = some (.list (es.map .entity))

section

variable {σ : Type} [Codecs]

/-- The catalog runs on this node, where lists of migrations use the named store and have the
given definition as their newest, and migrations have the other one, whatever it declares. -/
structure Serves (b : Backing σ) (store : String) (d : Dispatcher σ) (list item : Schema) :
    Prop where
  here : Here b d
  lists : AnyMigrationList store list
  latestList : d.registry.latest "MigrationList" = .ok list
  latestItem : d.registry.latest "Migration" = .ok item
  named : item.name = "Migration"
  wellFormed : item.WellFormed

variable {c : Context} {list item : Schema}

omit [Codecs] in
theorem lists_ofItems (c : Context) (list : Schema) (es : List Entity) :
    Lists c list (es.map Entity.settled) (ofItems c list es).inner := by
  refine ⟨rfl, rfl, rfl, Entity.whatChanged_settled _, ?_⟩
  have hitems := congrArg (fun vs => some (Value.list vs)) (Value.settledItems_entities es)
  rw [List.map_map]
  exact hitems

omit [Codecs] in
theorem stringArg_eq_ok {args : Args} {i : Nat} {n text : String}
    (h : args.get? i n = some (.str text)) : stringArg args i n = .ok text := by
  rw [stringArg, Args.require, h]
  rfl

variable {b : Backing σ} {store : String} {d : Dispatcher σ}

/-- The query lists what is in progress, and leaves the state alone. -/
theorem Serves.query_eq (h : Serves b store d list item) {args : Args} {host node : String}
    (hhost : args.get? 0 "host" = some (.str host)) (hnode : args.get? 1 "node" = some (.str node))
    (c : Context) (s : σ) : d.callClass c "MigrationList" query args s =
      ((EntityList.ofRecords c list item ((b.store store s).inProgress host node) loadRow).map
        fun l => (Value.entity l.inner).bound c, s) := by
  rw [d.callClass_eq h.latestList, d.callClassOn_eq h.lists.shape.2 rfl rfl, h.here.transport,
    h.here.bodies]
  show (getInProgressBody b store ⟨d.registry, list, c, args⟩ >>= fun v => pure (v.bound c)) s = _
  have hlift {α : Type} {x : Outcome α} {a : α} (hx : x = .ok a) :
      (liftM x : Run σ α) s = (.ok a, s) := by
    rw [hx]
    rfl
  have hread : b.read store s = (.ok (b.store store s), s) := rfl
  have hbody : getInProgressBody b store ⟨d.registry, list, c, args⟩ s =
      ((EntityList.ofRecords c list item ((b.store store s).inProgress host node) loadRow).map
        fun l => Value.entity l.inner, s) := by
    rw [getInProgressBody, ExceptT.bind_ok (hlift (stringArg_eq_ok hhost)),
      ExceptT.bind_ok (hlift (stringArg_eq_ok hnode)), ExceptT.bind_ok (hlift h.latestItem)]
    refine (ExceptT.bind_ok hread).trans ?_
    cases EntityList.ofRecords c list item ((b.store store s).inProgress host node) loadRow <;> rfl
  cases hrecords : EntityList.ofRecords c list item
      ((b.store store s).inProgress host node) loadRow with
  | error err =>
      rw [hrecords] at hbody
      exact ExceptT.bind_error hbody
  | ok l =>
      rw [hrecords] at hbody
      exact ExceptT.bind_ok hbody

namespace Serves

variable (h : Serves b store d list item) {found : List (Int × Row)}
include h

/-- Only a refusal is a fault of a row: what is read is a migration. -/
theorem fault_iff {row : Row} {err : EntityError} :
    EntityList.Fault c item loadRow "Migration" row err ↔ Refuses item row err := by
  constructor
  · intro hfault
    cases hfault with
    | failed hbuilt => exact (built_eq_error_iff h.wellFormed.fields).mp hbuilt
    | mistyped hbuilt htype =>
        exact absurd ((reads_of_built h.wellFormed.fields hbuilt).1.trans h.named) htype
  · intro hrefuses
    exact .failed ((built_eq_error_iff h.wellFormed.fields).mpr hrefuses)

theorem exists_built_iff {row : Row} :
    (∃ e, built c item loadRow row = .ok e ∧ e.typeName = "Migration") ↔
      ∀ err, ¬ Refuses item row err := by
  constructor
  · rintro ⟨e, he, -⟩
    exact (reads_of_built h.wellFormed.fields he).2.2
  · intro hnone
    cases hbuilt : built c item loadRow row with
    | error err => exact absurd ((built_eq_error_iff h.wellFormed.fields).mp hbuilt) (hnone err)
    | ok e => exact ⟨e, rfl, (reads_of_built h.wellFormed.fields hbuilt).1.trans h.named⟩

/-- The list fails as the first row that is refused. -/
theorem ofRecords_eq_error_iff {err : EntityError} :
    EntityList.ofRecords c list item (found.map (·.2)) loadRow = .error err ↔
      ∃ before p after, found = before ++ p :: after ∧
        (∀ q ∈ before, ∀ err, ¬ Refuses item q.2 err) ∧ Refuses item p.2 err := by
  rw [EntityList.ofRecords_eq_error_iff h.lists.shape.1]
  simp only [h.exists_built_iff, h.fault_iff]
  constructor
  · rintro ⟨before, row, after, hsplit, hbefore, hrefuses⟩
    obtain ⟨before, rest, rfl, rfl, hrest⟩ := List.map_eq_append_iff.mp hsplit
    obtain ⟨p, after, rfl, rfl, -⟩ := List.map_eq_cons_iff.mp hrest
    exact ⟨before, p, after, rfl, List.forall_mem_map.mp hbefore, hrefuses⟩
  · rintro ⟨before, p, after, rfl, hbefore, hrefuses⟩
    refine ⟨before.map (·.2), p.2, after.map (·.2), ?_, List.forall_mem_map.mpr hbefore, hrefuses⟩
    rw [List.map_append, List.map_cons]

/-- The list has an element for each row, read from it. -/
theorem lists_of_ofRecords {l : EntityList}
    (hl : EntityList.ofRecords c list item (found.map (·.2)) loadRow = .ok l) :
    ∃ es, l.inner.bound c = l.inner ∧ Lists c list es l.inner ∧
      List.Forall₂ (fun p e => Reads c item p.2 e) found es := by
  have hmatches := EntityList.ofRecords_matches c h.lists.shape.1 item loadRow (found.map (·.2))
  rw [hl] at hmatches
  obtain ⟨es, hes, rfl⟩ := hmatches.exists_of_ok
  refine ⟨es.map Entity.settled, rfl, lists_ofItems c list es, ?_⟩
  rw [List.mapM_eq_ok_iff, List.forall₂_map_left_iff] at hes
  rw [List.forall₂_map_right_iff]
  refine hes.imp fun p e hitem => ?_
  exact (reads_of_built h.wellFormed.fields (EntityList.itemOf_eq_ok_iff.mp hitem).1).2.1

end Serves

/-! ## Rows that fit -/

section

variable {other : String} (hitem : AnyMigration other item) {id : Int} {row : Row}
  (hrow : Fits id row)
include hitem hrow

/-- No version of migrations refuses a row that fits. -/
theorem Fits.not_refuses {err : EntityError} : ¬ Refuses item row err := by
  rintro ⟨hfields, -, hrefused⟩
  have hf : item.field? _ = some _ := Record.get?_of_mem hitem.wellFormed.fields
    (hfields ▸ List.mem_append_right _ List.mem_cons_self)
  have hcoerce := hrow.coerce (hitem.field hf)
  rw [← given, hrefused] at hcoerce
  cases hcoerce

/-- What is read from a row that fits is what is in the row. -/
theorem Reads.loaded {e : Entity} (h : Reads c item row e) :
    Loaded row ((Entity.ofSchema item).bound c) e := by
  refine ⟨h.schema, h.version, h.context, h.clean, fun n f hf => ?_⟩
  obtain ⟨w, hw, hget⟩ := h.declared n f hf
  have hcoerce := hrow.coerce (hitem.field hf)
  rw [← given, hw, Except.ok.injEq] at hcoerce
  rw [hget, Value.settled_of_graph_nil (settled (hitem.field hf) hw).2, hcoerce]

end

/-- **The query for migrations in progress.** After any local creates and saves, it leaves the
state alone and goes through the ongoing rows, each once and in ascending order of their numbers.
It fails exactly as the first row that the newest definition of migrations refuses; otherwise it
gives a list with an element for each row, read from it, all bound to the context of the call and
without changes. If only values that fields store were written, and the newest definition is one
of the catalog, it does not fail, and the elements hold what the rows hold. -/
theorem inProgress_exact (b : Backing σ) (store : String) (hb : b.Lawful store) (s : σ)
    (hs : Filled b store (fun _ => True) s) (d : Dispatcher σ) (list item : Schema)
    (hd : Serves b store d list item) (c : Context) (args : Args) (host node : String)
    (hhost : args.get? 0 "host" = some (.str host))
    (hnode : args.get? 1 "node" = some (.str node)) :
    ∃ found r, Selection (b.store store s) host node found ∧
      d.callClass c "MigrationList" query args s = (r, s) ∧
      (∀ err, r = .error err ↔ ∃ before p after, found = before ++ p :: after ∧
        (∀ q ∈ before, ∀ err, ¬ Refuses item q.2 err) ∧ Refuses item p.2 err) ∧
      (∀ v, r = .ok v → ∃ l es, v = .entity l ∧ Lists c list es l ∧
        List.Forall₂ (fun p e => Reads c item p.2 e) found es) ∧
      (Filled b store Stored s → (∃ other, AnyMigration other item) →
        ∃ l es, r = .ok (.entity l) ∧ Lists c list es l ∧
          List.Forall₂ (fun p e => Loaded p.2 ((Entity.ofSchema item).bound c) e) found es) := by
  obtain ⟨found, hfound, hrows⟩ := (hs.numbered hb).exists_selection host node
  have hcall := hd.query_eq hhost hnode c s
  rw [hrows] at hcall
  cases hrecords : EntityList.ofRecords c list item (found.map (·.2)) loadRow with
  | error err =>
      rw [hrecords] at hcall
      obtain ⟨before, p, after, hsplit, hbefore, hrefuses⟩ :=
        hd.ofRecords_eq_error_iff.mp hrecords
      refine ⟨found, .error err, hfound, hcall, fun err' => ?_, nofun, fun hstored hitem => ?_⟩
      · rw [← hd.ofRecords_eq_error_iff (c := c), hrecords]
        exact ⟨fun herr => by cases herr; rfl, fun herr => by cases herr; rfl⟩
      · obtain ⟨other, hitem⟩ := hitem
        have hp : (p.1, p.2) ∈ found := hsplit ▸ List.mem_append_right _ List.mem_cons_self
        have hfits := hstored.fitting hb p.1 p.2 ((hfound.mem_iff _ _).mp hp).1
        exact absurd hrefuses (hfits.not_refuses hitem)
  | ok l =>
      rw [hrecords] at hcall
      obtain ⟨es, hbound, hlists, hreads⟩ := hd.lists_of_ofRecords hrecords
      have hr : (Value.entity l.inner).bound c = .entity l.inner := congrArg _ hbound
      refine ⟨found, .ok (.entity l.inner), hfound, hcall.trans ?_, fun err' => ?_, ?_,
        fun hstored hitem => ?_⟩
      · rw [Except.ok_map, hr]
      · rw [← hd.ofRecords_eq_error_iff (c := c), hrecords]
        exact iff_of_false nofun nofun
      · rintro _ ⟨⟩
        exact ⟨l.inner, es, rfl, hlists, hreads⟩
      · obtain ⟨other, hitem⟩ := hitem
        refine ⟨l.inner, es, rfl, hlists, ?_⟩
        have hfits : ∀ p ∈ found, Fits p.1 p.2 := fun p hp =>
          hstored.fitting hb p.1 p.2 ((hfound.mem_iff p.1 p.2).mp hp).1
        refine ((List.forall₂_and_left found es).mpr ⟨hfits, hreads⟩).imp ?_
        rintro p e ⟨hp, hread⟩
        exact Reads.loaded hitem hp hread

/-- Clients that make migrations, assign to them and get them write only what fields store. -/
theorem Runs.filled (hb : b.Lawful store) {w : World σ} {log : List Write}
    (h : Runs b store w log) : Filled b store Stored w.state := by
  induction h with
  | start hempty => exact .start hempty
  | @move w w' log made hrun hmove ih =>
      have hkept := hrun.kept hb
      cases hmove with
      | make hschema c? => exact ih
      | assign before after n v => exact ih
      | create before after hd hcall =>
          have he := hkept.held_middle
          exact .call ih hd (by decide) he.migration.any he.stored hcall
      | save before after hd hcall =>
          have he := hkept.held_middle
          exact .call ih hd (by decide) he.migration.any he.stored hcall
      | @get _ s' d c schema args r hd hschema hcall =>
          obtain ⟨r', hcall', -⟩ := call_fetches hd hschema c args w.state hkept.fits
          cases hcall.symm.trans hcall'
          exact ih
      | elsewhere hstore => exact .elsewhere ih hstore

end

/-! ## A depot

A migration is planned, and created as the first row; and so are two others, whose status was
made a number and a map without an assignment. -/

namespace Depot

attribute [local instance] Codecs.none

open Office (backing context newSchema blank backing_lawful)

def listSchema : Schema :=
  ⟨"MigrationList", release 1 0,
    [("objects", ⟨.listOfObjects "Migration", false, some (.list [])⟩)],
    [("objects", [(release 1 0, release 1 2)])], [(query, remotable .ofClass getInProgress "db")],
    none⟩

def node : Dispatcher (MigrationStore × Nat) :=
  ⟨Registry.empty.registerAll [newSchema, listSchema], bodies backing, none⟩

def placed : Entity :=
  (Update.set "source_node" (.str "n1") (Update.set "source_compute" (.str "h1") blank).2).2

def planned : Entity := (Update.set "status" (.str "queued") placed).2

def numbered : Entity := planned.storeCoerced "status" (.int 5)

def mapped : Entity := planned.storeCoerced "status" (.map [])

@[irreducible]
def created (e : Entity) : (Outcome Value × Entity) × MigrationStore × Nat :=
  node.call "create" .empty e (.empty, 0)

def place : Args := ⟨none, [.str "h1", .str "n1"], []⟩

@[irreducible]
def answer (e : Entity) : Outcome Value :=
  (node.callClass context "MigrationList" query place (created e).2).1

theorem listSchema_built : migrationList "1.0" "db" = .ok listSchema := rfl

theorem newSchema_built : AnyMigration "db" newSchema := ⟨"1.2", migration_third "db"⟩

theorem node_serves : Serves backing "db" node listSchema newSchema where
  here := ⟨rfl, rfl⟩
  lists := ⟨"1.0", listSchema_built⟩
  latestList := rfl
  latestItem := rfl
  named := rfl
  wellFormed := newSchema_built.wellFormed

theorem created_filled {e : Entity} {used : Entity → Prop} (hschema : e.schema = newSchema)
    (he : used e) : Filled backing "db" used (created e).2 := by
  have hcall : node.call "create" .empty e (.empty, 0) =
      (((created e).1.1, (created e).1.2), (created e).2) := (created.eq_1 e).symm
  exact .call (.start rfl) node_serves.here (by decide) (hschema ▸ newSchema_built) he hcall

theorem planned_stored : Stored planned := by
  have hschema : IsMigration "db" newSchema := isMigration_iff.mpr (.inr (.inr rfl))
  have hblank : Held "db" blank := (Held.ofSchema hschema).withContext? (some context)
  have hplaced : Held "db" placed :=
    (hblank.set "source_compute" (.str "h1")).set "source_node" (.str "n1")
  exact (hplaced.set "status" (.str "queued")).stored

/-- The planned migration is listed. -/
theorem planned_listed : Filled backing "db" Stored (created planned).2 ∧
    Serves backing "db" node listSchema newSchema ∧
    ∃ found l es, Selection (created planned).2.1 "h1" "n1" found ∧ (∃ row, (1, row) ∈ found) ∧
      node.callClass context "MigrationList" query place (created planned).2 =
        (.ok (.entity l), (created planned).2) ∧ Lists context listSchema es l ∧
      List.Forall₂ (fun p e => Loaded p.2 ((Entity.ofSchema newSchema).bound context) e)
        found es := by
  have hfilled : Filled backing "db" Stored (created planned).2 :=
    created_filled rfl planned_stored
  have hrow : ((MigrationStore.find? 1 (created planned).2.1.rows).map fun row =>
      !MigrationStore.isFinished row && MigrationStore.touches row "h1" "n1") = some true := by
    decide +kernel
  obtain ⟨found, r, hfound, hcall, -, -, hlisted⟩ := inProgress_exact backing "db" backing_lawful
    (created planned).2 (hfilled.mono fun _ _ => trivial) node listSchema newSchema node_serves
    context place "h1" "n1" rfl rfl
  obtain ⟨l, es, rfl, hlists, hloaded⟩ := hlisted hfilled ⟨"db", newSchema_built⟩
  obtain ⟨row, hfind, hongoing⟩ := Option.map_eq_some_iff.mp hrow
  have hmem : (1, row) ∈ found :=
    (hfound.mem_iff 1 row).mpr ⟨hfind, MigrationStore.ongoing_iff.mp hongoing⟩
  exact ⟨hfilled, node_serves, found, l, es, hfound, ⟨row, hmem⟩, hcall, hlists, hloaded⟩

/-- The status of the first migration in a list that was answered. -/
def firstStatus? : Outcome Value → Option Value
  | .ok (.entity l) => match Record.get? l.values Schema.itemsField with
    | some (.list (.entity e :: _)) => Record.get? e.values "status"
    | _ => none
  | _ => none

def fault? : Outcome Value → Option EntityError
  | .error err => some err
  | .ok _ => none

/-- A number for a status is listed as a text, and for a map there is no list at all. -/
theorem raw_status_misread :
    planned.put "status" (.int 5) = .ok numbered ∧ planned.put "status" (.map []) = .ok mapped ∧
    Filled backing "db" (fun _ => True) (created numbered).2 ∧
    Filled backing "db" (fun _ => True) (created mapped).2 ∧
    (∃ row, MigrationStore.find? 1 (created numbered).2.1.rows = some row ∧
      Ongoing "h1" "n1" row ∧ (Record.get? row "status").bind Value.int? = some 5) ∧
    (∃ row, MigrationStore.find? 1 (created mapped).2.1.rows = some row ∧
      Ongoing "h1" "n1" row) ∧
    (firstStatus? (answer numbered)).bind Value.str? = some "5" ∧
    fault? (answer mapped) = some (.invalidValue "status" (.mismatch .map .string)) := by
  have hnumbered : ((MigrationStore.find? 1 (created numbered).2.1.rows).map fun row =>
      (!MigrationStore.isFinished row && MigrationStore.touches row "h1" "n1",
        (Record.get? row "status").bind Value.int?)) = some (true, some 5) := by
    decide +kernel
  have hmapped : ((MigrationStore.find? 1 (created mapped).2.1.rows).map fun row =>
      !MigrationStore.isFinished row && MigrationStore.touches row "h1" "n1") = some true := by
    decide +kernel
  obtain ⟨row, hrow, heq⟩ := Option.map_eq_some_iff.mp hnumbered
  obtain ⟨hongoing, hstatus⟩ := Prod.mk.injEq .. |>.mp heq
  obtain ⟨row', hrow', hongoing'⟩ := Option.map_eq_some_iff.mp hmapped
  exact ⟨rfl, rfl, created_filled rfl trivial, created_filled rfl trivial,
    ⟨row, hrow, MigrationStore.ongoing_iff.mp hongoing, hstatus⟩,
    ⟨row', hrow', MigrationStore.ongoing_iff.mp hongoing'⟩, by decide +kernel, by decide +kernel⟩

end Depot

end Skew.Catalog

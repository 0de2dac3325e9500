import Skew.Catalog.Schemas
import Skew.Catalog.Store
import Skew.Dispatch
import Skew.Entity.EntityList

/-!
# Methods of the catalog

Migrations are loaded from a store and written to it: only changed fields are
written, never the number, and afterwards the entity holds the stored row.
-/

namespace Skew.Catalog

/-- Where a node keeps its migration stores, and its clock. -/
structure Backing (σ : Type) where
  store : String → σ → MigrationStore
  setStore : String → MigrationStore → σ → σ
  now : σ → Calendar.Instant × σ

namespace Backing

variable {σ : Type} (b : Backing σ)

def read (store : String) : Run σ MigrationStore := do
  pure (b.store store (← get))

/-- Writes to a store at the present moment. -/
def write {α : Type} (store : String)
    (act : MigrationStore → Calendar.Instant → Outcome α × MigrationStore) : Run σ α := do
  let (now, s) := b.now (← get)
  let (r, m) := act (b.store store s) now
  set (b.setStore store m s)
  r

end Backing

variable [Codecs]

/-- Takes a stored row: every declared field is set, to null where the row has
nothing, and nothing counts as changed. -/
def loadRow (row : Row) : Update Unit := do
  Update.setAll ((← get).schema.fieldNames.map fun n => (n, (Record.get? row n).getD .null))
  modify (·.resetChanges none false)

/-- The changed fields but the number. -/
def pendingValues (e : Entity) : Row := Record.erase e.getChanges "id"

/-- A text argument. -/
def stringArg (args : Args) (index : Nat) (name : String) : Outcome String := do
  match ← args.require index name with
  | .str s => .ok s
  | _ => .error (.action name (.notString name))

variable {σ : Type} (b : Backing σ)

def getByIdBody (store : String) (call : ClassCall) : Run σ Value := do
  let v ← call.args.require 0 "migration_id"
  match v.int? with
  | none => throw (.action "get_by_id" (.notInteger "migration_id"))
  | some id =>
    let row ← (← b.read store).get id.toInt
    match loadRow row call.newEntity with
    | (.ok (), e) => pure (.entity e)
    | (.error err, _) => throw err

def createBody (store : String) : EntityRun σ Value := do
  let e ← get
  if e.isSet "id" then throw (.action "create" .alreadyCreated)
  let row ← EntityRun.ofRun (b.write store fun m now =>
    let (row, m) := m.create now (pendingValues e)
    (.ok row, m))
  EntityRun.ofUpdate (loadRow row)
  pure .null

def saveBody (store : String) : EntityRun σ Value := do
  let e ← get
  let v ← e.get "id"
  match v.int? with
  | none => throw (.action "save" .idNotInteger)
  | some id =>
    let row ← EntityRun.ofRun (b.write store fun m now =>
      m.update id.toInt now (pendingValues e))
    EntityRun.ofUpdate (loadRow row)
    pure .null

def getInProgressBody (store : String) (call : ClassCall) : Run σ Value := do
  let host ← stringArg call.args 0 "host"
  let node ← stringArg call.args 1 "node"
  let item ← call.registry.latest "Migration"
  let rows := (← b.read store).inProgress host node
  let l ← EntityList.ofRecords call.context call.schema item rows loadRow
  pure (.entity l.inner)

/-- The class methods of the catalog. -/
def classBody? (ref : BodyRef) : Option (ClassCall → Run σ Value) :=
  if ref.routine = getById then some (getByIdBody b ref.resource)
  else if ref.routine = getInProgress then some (getInProgressBody b ref.resource)
  else none

/-- The instance methods of the catalog; they take no arguments. -/
def instanceBody? (ref : BodyRef) : Option (Args → EntityRun σ Value) :=
  if ref.routine = create then some fun _ => createBody b ref.resource
  else if ref.routine = save then some fun _ => saveBody b ref.resource
  else none

/-- The methods of the catalog; any other body does nothing. -/
def bodies : Bodies σ where
  ofClass ref := (classBody? b ref).getD fun _ => pure .null
  ofInstance ref := (instanceBody? b ref).getD fun _ => pure .null

end Skew.Catalog

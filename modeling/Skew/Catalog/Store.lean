import Skew.Value.Equality

/-!
# The migration store

Rows of migrations by number, counted up from one. A row is stamped when it is
created and whenever it is updated. Rows are never removed.
-/

namespace Skew.Catalog

open Calendar (Instant)

/-- A stored row: values by field name. -/
abbrev Row := Record Value

structure MigrationStore where
  /-- in ascending order of numbers -/
  rows : List (Int × Row)
  lastId : Nat

namespace MigrationStore

def empty : MigrationStore := ⟨[], 0⟩

def size (s : MigrationStore) : Nat := s.rows.length

def find? (id : Int) : List (Int × Row) → Option Row
  | [] => none
  | (n, row) :: rows => if n = id then some row else find? id rows

def notFound (id : Int) : EntityError := .action "get_by_id" (.noMigration id)

def get (s : MigrationStore) (id : Int) : Outcome Row :=
  match find? id s.rows with
  | some row => .ok row
  | none => .error (notFound id)

/-- A row as it is first stored: numbered, stamped, and not deleted unless it says so. -/
def newRow (id : Nat) (now : Instant) (values : Row) : Row :=
  let row := Record.insert values "id" (.int (Int64.ofInt id))
  let row := Record.insert row "created_at" (.datetime now)
  if Record.contains row "deleted" then row else Record.insert row "deleted" (.bool false)

/-- Adds a row; gives it as stored. -/
def create (s : MigrationStore) (now : Instant) (values : Row) : Row × MigrationStore :=
  let id := s.lastId + 1
  let row := newRow id now values
  (row, ⟨s.rows ++ [((id : Int), row)], id⟩)

/-- A row with new values over its own. -/
def updatedRow (now : Instant) (row values : Row) : Row :=
  Record.insert (Record.update row values) "updated_at" (.datetime now)

def replaceRow (id : Int) (row : Row) (rows : List (Int × Row)) : List (Int × Row) :=
  rows.map fun (n, old) => if n = id then (n, row) else (n, old)

/-- Merges values into a row; gives the row as stored. -/
def update (s : MigrationStore) (id : Int) (now : Instant) (values : Row) :
    Outcome Row × MigrationStore :=
  match s.get id with
  | .error err => (.error err, s)
  | .ok old =>
    let row := updatedRow now old values
    (.ok row, { s with rows := replaceRow id row s.rows })

/-! ## Rows in progress -/

/-- Statuses of migrations that have ended. -/
def finished : List String := ["confirmed", "reverted", "error", "failed", "completed", "cancelled"]

def holds (row : Row) (field text : String) : Bool :=
  (Record.get? row field).bind Value.str? = some text

def isFinished (row : Row) : Bool :=
  match (Record.get? row "status").bind Value.str? with
  | some s => s ∈ finished
  | none => false

/-- The row has the host and the node together on one side. -/
def touches (row : Row) (host node : String) : Bool :=
  holds row "source_compute" host && holds row "source_node" node
    || holds row "dest_compute" host && holds row "dest_node" node

/-- The rows touching a host and node that have not ended, in order of numbers. -/
def inProgress (s : MigrationStore) (host node : String) : List Row :=
  (s.rows.map (·.2)).filter fun row => !isFinished row && touches row host node

end MigrationStore

end Skew.Catalog

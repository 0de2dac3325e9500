import Skew.Entity.Fields

/-!
# Declaring schemas

A declaration collects the parts of a schema, with versions still as texts, and is
then checked as a whole. Fields keep the order in which they were first declared;
declaring a field again replaces it in place. Of several tables for one field the
last counts.
-/

namespace Skew

structure Declaration where
  name : String
  version : String
  fields : List (String × Field)
  relationships : List (String × List (String × String))
  methods : Record Method
  hook? : Option Hook

namespace Declaration

def start (name version : String) : Declaration := ⟨name, version, [], [], [], none⟩

/-- Replaces the field of that name, or adds one at the end. -/
def replaceField (name : String) (f : Field) : List (String × Field) → List (String × Field)
  | [] => [(name, f)]
  | (n, g) :: fs => if n = name then (n, f) :: fs else (n, g) :: replaceField name f fs

def field (d : Declaration) (name : String) (f : Field) : Declaration :=
  { d with fields := replaceField name f d.fields }

def timestamp : Field := ⟨.datetime, true, none⟩

def timestamps (d : Declaration) : Declaration :=
  (d.field "created_at" timestamp).field "updated_at" timestamp

/-- Timestamps and the fields of soft deletion. -/
def persistent (d : Declaration) : Declaration :=
  (d.timestamps.field "deleted_at" timestamp).field "deleted" ⟨.boolean, false, some (.bool false)⟩

def relationship (d : Declaration) (name : String) (table : List (String × String)) : Declaration :=
  { d with relationships := d.relationships.filter (·.1 ≠ name) ++ [(name, table)] }

def method (d : Declaration) (name : String) (m : Method) : Declaration :=
  { d with methods := Record.insert d.methods name m }

def hook (d : Declaration) (h : Hook) : Declaration := { d with hook? := some h }

/-- A list type: one field with entities of the item type. -/
def list (name version itemType : String) (table : List (String × String)) : Declaration :=
  ((start name version).field Schema.itemsField ⟨.listOfObjects itemType, false, some (.list [])⟩)
    |>.relationship Schema.itemsField table

/-! ## Checking -/

/-- The owner versions ascend strictly, patches aside. -/
def ascending : Relationship → Bool
  | [] => true
  | [_] => true
  | r :: s :: rows => r.1.release < s.1.release && ascending (s :: rows)

def readTable (table : List (String × String)) : Outcome Relationship :=
  table.mapM fun (owner, child) => do
    let owner ← Version.ofText owner
    let child ← Version.ofText child
    .ok (owner, child)

/-- Checks one table: its field is declared, its versions can be read, its owners
ascend. -/
def checkTable (d : Declaration) (name : String) (table : List (String × String)) :
    Outcome Relationship := do
  if ¬ Record.contains d.fields name then throw (.unknownField d.name name)
  let rows ← readTable table
  if ¬ ascending rows then throw (.action "register" (.unordered d.name name))
  .ok rows

/-- The schema that the declaration describes. -/
def build (d : Declaration) : Outcome Schema := do
  let version ← Version.ofText d.version
  let relationships ← d.relationships.foldlM (fun tables (name, table) =>
    (d.checkTable name table).map (Record.insert tables name)) []
  .ok ⟨d.name, version, d.fields, relationships, d.methods, d.hook?⟩

end Declaration

end Skew

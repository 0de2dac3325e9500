/-!
# Configuration documents

A document is a table of keys. Tables come about in three ways, and how a table came
about decides who may add to it: a table with a header of its own is closed to
headers and to dotted keys from outside; one that only stands on the way to a header
may still get a header; one made by a dotted key grows by dotted keys alone. Nothing
is ever given twice.

Of numbers and dates a document keeps only that they are there.
-/

namespace Skew.Toml

/-- Values behind an equals sign. -/
inductive Value where
  | str (s : String)
  | bool (b : Bool)
  | integer
  | float
  | datetime
  | array (items : List Value)
  /-- a table in braces; `isOpen` if it was made by a dotted key and may still grow -/
  | inline (isOpen : Bool) (entries : List (String × Value))

instance : Inhabited Value := ⟨.integer⟩

/-- How a table came about. -/
inductive Origin where
  | header
  | parent
  | dotted
deriving DecidableEq

inductive Item where
  | value (v : Value)
  | table (origin : Origin) (entries : List (String × Item))
  | tables (elements : List (List (String × Item)))

/-- A document, or a table of one. -/
abbrev Table := List (String × Item)

/-! ## Entries -/

section Entries

variable {α : Type}

def find? : List (String × α) → String → Option α
  | [], _ => none
  | (n, a) :: es, k => if n = k then some a else find? es k

def replace (es : List (String × α)) (k : String) (a : α) : List (String × α) :=
  es.map fun e => if e.1 = k then (k, a) else e

/-- Adds an entry unless there is one of that name. -/
def add? (es : List (String × α)) (k : String) (a : α) : Option (List (String × α)) :=
  match find? es k with
  | none => some (es ++ [(k, a)])
  | some _ => none

end Entries

/-! ## Tables -/

/-- Changes the table at the end of a path; tables that are missing on the way are
made. Of an array of tables the last one is meant. A dotted key does not enter tables
that have a header. -/
def descend? (dotted : Bool) (change : Origin → Table → Option Table) :
    List String → Origin → Table → Option Table
  | [], o, t => change o t
  | k :: path, _, t =>
    match find? t k with
    | none =>
      let o := if dotted then Origin.dotted else .parent
      (descend? dotted change path o []).map fun new => t ++ [(k, .table o new)]
    | some (.value _) => none
    | some (.tables ts) =>
      match ts.getLast? with
      | some last =>
        (descend? dotted change path .header last).map fun new =>
          replace t k (.tables (ts.dropLast ++ [new]))
      | none => none
    | some (.table o old) =>
      if dotted && o = .header then none
      else (descend? dotted change path o old).map fun new => replace t k (.table o new)

/-- The path of a key and its last part. -/
def splitKey? (key : List String) : Option (List String × String) :=
  key.getLast?.map fun last => (key.dropLast, last)

/-- A header opens a table that has none yet. -/
def openTable? (t : Table) (key : List String) : Option Table := do
  let (path, k) ← splitKey? key
  descend? false (fun _ t =>
    match find? t k with
    | none => some (t ++ [(k, .table .header [])])
    | some (.table .parent es) => some (replace t k (.table .header es))
    | some _ => none) path .header t

/-- A doubled header adds a table to an array of tables. -/
def openElement? (t : Table) (key : List String) : Option Table := do
  let (path, k) ← splitKey? key
  descend? false (fun _ t =>
    match find? t k with
    | none => some (t ++ [(k, .tables [[]])])
    | some (.tables ts) => some (replace t k (.tables (ts ++ [[]])))
    | some _ => none) path .header t

/-- Puts a value under a key, below the header that is open. A dotted key ends in a
table made by dotted keys, a plain key in one that was not. -/
def assign? (t : Table) (header key : List String) (v : Value) : Option Table := do
  let (path, k) ← splitKey? key
  descend? false (fun o t =>
    descend? true (fun o t =>
      if (o == .dotted) == path.isEmpty then none else add? t k (.value v)) path o t)
    header .header t

/-! ## Tables in braces -/

/-- Puts a value under a dotted key of a table in braces. -/
def assignInline? (k : String) (v : Value) (isPlain : Bool) :
    List String → Bool → List (String × Value) → Option (List (String × Value))
  | [], isOpen, es => if isOpen = isPlain then none else add? es k v
  | p :: path, _, es =>
    match find? es p with
    | none => (assignInline? k v isPlain path true []).map fun new => es ++ [(p, .inline true new)]
    | some (.inline true old) =>
      (assignInline? k v isPlain path true old).map fun new => replace es p (.inline true new)
    | some _ => none

/-- The table in braces with the given keys and values. -/
def inlineTable? (pairs : List (List String × Value)) : Option Value :=
  let entries? := pairs.foldlM (fun es (key, v) => do
    let (path, k) ← splitKey? key
    assignInline? k v path.isEmpty path false es) []
  entries?.map (.inline false)

end Skew.Toml

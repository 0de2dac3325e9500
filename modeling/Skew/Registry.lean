import Skew.Entity.Fields

/-!
# Registries

The schemas a node knows: for each type name the registered versions, newest
first. A schema registered at a version that is there already takes its place.

A process publishes one registry, once; from then on everybody sees that one.
-/

namespace Skew

structure Registry where
  types : List (String × List Schema)

namespace Registry

def empty : Registry := ⟨[]⟩

/-- Puts a schema at its place among the versions of a type. -/
def place (s : Schema) : List Schema → List Schema
  | [] => [s]
  | t :: ts =>
    if t.version.isExactly s.version then s :: ts
    else if t.version.rank < s.version.rank then s :: t :: ts
    else t :: place s ts

def schemas (r : Registry) (name : String) : List Schema := (Record.get? r.types name).getD []

def register (r : Registry) (s : Schema) : Registry :=
  ⟨Record.insert r.types s.name (place s (r.schemas s.name))⟩

def registerAll (r : Registry) (ss : List Schema) : Registry := ss.foldl register r

def contains (r : Registry) (name : String) : Bool := Record.contains r.types name

/-- The registered type names, in ascending order. -/
def typeNames (r : Registry) : List String := Record.names r.types

def size (r : Registry) : Nat := r.types.length

def versions (r : Registry) (name : String) : List Version := (r.schemas name).map (·.version)

/-- The newest schema of a type. -/
def latest (r : Registry) (name : String) : Outcome Schema :=
  match r.schemas name with
  | s :: _ => .ok s
  | [] => .error (.unsupportedType name)

/-- The schema for data at a version: the one registered at exactly that version, or
else the newest that accepts it. -/
def resolve (r : Registry) (name : String) (version : Version) : Outcome Schema := do
  let newest ← r.latest name
  let known := r.schemas name
  match known.find? (·.version.isExactly version) <|> known.find? (·.version.accepts version) with
  | some s => .ok s
  | none => .error (.incompatibleVersion name version newest.version)

/-- A new entity of the newest schema. -/
def create (r : Registry) (name : String) : Outcome Entity := (r.latest name).map Entity.ofSchema

end Registry

/-! ## The published registry -/

/-- What the process has published so far. -/
structure Publication where
  registry? : Option Registry

namespace Publication

def none : Publication := ⟨.none⟩

/-- Publishes a registry unless one is published already. -/
def publish (p : Publication) (r : Registry) : Outcome Registry × Publication :=
  match p.registry? with
  | .none => (.ok r, ⟨some r⟩)
  | some _ => (.error .alreadyInitialized, p)

end Publication

end Skew

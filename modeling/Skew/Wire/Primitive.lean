import Skew.Error
import Skew.Json.Printer
import Skew.Text

/-!
# Primitives

The wire form of an entity: an object with a namespace, the type's name and
version, the data, and the names of the changed fields, which is left out when
there are none. Other members of such an object are ignored.

The keys are read in ascending order; the first that holds the wrong thing is
reported, and only then the first that is missing, in the order namespace, name,
version, data.
-/

namespace Skew

structure Primitive where
  space : String
  name : String
  version : String
  data : Members
  changes : List String

namespace Primitive

/-- The namespace of every entity. -/
def entitySpace : String := "nova"

def spaceKey : String := "nova_object.namespace"
def nameKey : String := "nova_object.name"
def versionKey : String := "nova_object.version"
def dataKey : String := "nova_object.data"
def changesKey : String := "nova_object.changes"

/-- The document is marked as an entity by the name key. -/
def isPrimitive (j : Json) : Bool :=
  match j with
  | .obj ms => Record.contains ms nameKey
  | _ => false

/-! ## Reading -/

/-- What a document is, as named in messages. -/
def describe : Json → String
  | .null => "null"
  | .bool b => "boolean \x60" ++ Json.boolText b ++ "\x60"
  | .int n => "integer \x60" ++ Decimal.intText n ++ "\x60"
  | .float x => "floating point \x60" ++ Json.floatNotation.text x ++ "\x60"
  | .str s => "string " ++ Text.quoted s
  | .arr _ => "sequence"
  | .obj _ => "map"

def unexpected (j : Json) (expected : String) : EntityError :=
  .malformed (.wrongType (describe j) expected)

def readString : Json → Outcome String
  | .str s => .ok s
  | j => .error (unexpected j "a string")

def readMap : Json → Outcome Members
  | .obj ms => .ok ms
  | j => .error (unexpected j "a map")

def readNames : Json → Outcome (List String)
  | .arr js => js.mapM readString
  | j => .error (unexpected j "a sequence")

/-- Reads the member under a key, if there is one. -/
def readKey? {α : Type} (ms : Members) (key : String) (read : Json → Outcome α) :
    Outcome (Option α) :=
  match Record.get? ms key with
  | some j => (read j).map some
  | none => .ok none

def required {α : Type} (key : String) : Option α → Outcome α
  | some a => .ok a
  | none => .error (.malformed (.missingKey key))

def ofMembers (ms : Members) : Outcome Primitive := do
  let changes? ← readKey? ms changesKey readNames
  let data? ← readKey? ms dataKey readMap
  let name? ← readKey? ms nameKey readString
  let space? ← readKey? ms spaceKey readString
  let version? ← readKey? ms versionKey readString
  let space ← required spaceKey space?
  let name ← required nameKey name?
  let version ← required versionKey version?
  let data ← required dataKey data?
  .ok ⟨space, name, version, data, changes?.getD []⟩

def ofJson : Json → Outcome Primitive
  | .obj ms => ofMembers ms
  | _ => .error (.malformed .notObject)

/-! ## Writing -/

def toJson (p : Primitive) : Json :=
  let changes := if p.changes.isEmpty then [] else [(changesKey, Json.arr (p.changes.map .str))]
  .obj (changes ++
    [(dataKey, .obj p.data), (nameKey, .str p.name), (spaceKey, .str p.space),
      (versionKey, .str p.version)])

end Primitive

end Skew

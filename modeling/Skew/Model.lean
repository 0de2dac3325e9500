import Skew.Calendar.Instant
import Skew.Context
import Skew.Error
import Skew.Json.Basic

/-!
# Values, entities and schemas

An entity is one instance of a schema: each declared field is unset or holds a
value. A value may itself be an entity, and a schema holds the default values of
its fields, so the three are defined together.

Methods are listed in the schema by name; what a method does is looked up by its
`BodyRef` where methods are run. A compatibility hook edits the data that is
about to be sent and keeps what it did before it failed.
-/

namespace Skew

/-- An edit of the data members of a primitive. Its effects stay even when it fails. -/
abbrev Edit (α : Type) := ExceptT EntityError (StateM Members) α

/-- Adapts data to a peer at the given version. -/
abbrev Hook := Version → Edit Unit

/-- Thresholds of a composed field, ascending: from the first version of the
owner on, the child travels at the second. -/
abbrev Relationship := List (Version × Version)

/-- What a method runs: a routine and the resource it is tied to. -/
structure BodyRef where
  routine : String
  resource : String
deriving DecidableEq

inductive Scope where
  | ofClass
  | ofInstance
deriving DecidableEq

structure Method where
  scope : Scope
  remotable : Bool
  body : BodyRef
deriving DecidableEq

mutual

inductive Value where
  | null
  | bool (b : Bool)
  | int (n : Int64)
  | float (x : Float)
  | str (s : String)
  | datetime (t : Calendar.Instant)
  | list (items : List Value)
  | tuple (items : List Value)
  | set (items : List Value)
  | map (entries : List (String × Value))
  | entity (e : Entity)

structure Entity where
  schema : Schema
  /-- the version of the data, which may be older than the schema -/
  version : Version
  context? : Option Context
  values : List (String × Value)
  /-- the fields that were assigned; changes of composed entities are not listed -/
  changed : List String

structure Field where
  kind : Kind
  isNullable : Bool
  default? : Option Value

structure Schema where
  name : String
  version : Version
  /-- in order of declaration -/
  fields : List (String × Field)
  relationships : List (String × Relationship)
  methods : List (String × Method)
  hook? : Option Hook

end

instance : Inhabited Value := ⟨.null⟩

/-! ## Values -/

namespace Value

def shape : Value → Shape
  | .null => .null
  | .bool _ => .bool
  | .int _ => .int
  | .float _ => .float
  | .str _ => .string
  | .datetime _ => .datetime
  | .list _ => .list
  | .tuple _ => .tuple
  | .set _ => .set
  | .map _ => .map
  | .entity _ => .entity

def isNull : Value → Bool
  | .null => true
  | _ => false

def bool? : Value → Option Bool
  | .bool b => some b
  | _ => none

def int? : Value → Option Int64
  | .int n => some n
  | _ => none

def float? : Value → Option Float
  | .float x => some x
  | .int n => some n.toFloat
  | _ => none

def str? : Value → Option String
  | .str s => some s
  | _ => none

def datetime? : Value → Option Calendar.Instant
  | .datetime t => some t
  | _ => none

/-- The elements of a list, tuple or set. -/
def items? : Value → Option (List Value)
  | .list vs | .tuple vs | .set vs => some vs
  | _ => none

def entries? : Value → Option (Record Value)
  | .map es => some es
  | _ => none

def entity? : Value → Option Entity
  | .entity e => some e
  | _ => none

/-- Zero and whatever is empty count as false. -/
def isTruthy : Value → Bool
  | .null => false
  | .bool b => b
  | .int n => n ≠ 0
  | .float x => !(x == 0.0)
  | .str s => !s.isEmpty
  | .datetime _ => true
  | .entity _ => true
  | .list vs | .tuple vs | .set vs => !vs.isEmpty
  | .map es => !es.isEmpty

end Value

/-! ## Schemas -/

namespace Schema

def field? (s : Schema) (name : String) : Option Field := Record.get? s.fields name

def hasField (s : Schema) (name : String) : Bool := (s.field? name).isSome

def requireField (s : Schema) (name : String) : Outcome Field :=
  match s.field? name with
  | some f => .ok f
  | none => .error (.unknownField s.name name)

def fieldNames (s : Schema) : List String := s.fields.map (·.1)

def relationship? (s : Schema) (field : String) : Option Relationship :=
  Record.get? s.relationships field

def method? (s : Schema) (name : String) : Option Method := Record.get? s.methods name

/-- The one field of a list type. -/
def itemsField : String := "objects"

/-- The element type of a list type: a schema whose only field is a list of
entities under the usual name. -/
def itemType? (s : Schema) : Option String :=
  match s.fields with
  | [(name, ⟨.listOfObjects type, _, _⟩)] => if name = itemsField then some type else none
  | _ => none

def isList (s : Schema) : Bool := s.itemType?.isSome

end Schema

/-! ## Codecs

A codec gives a custom kind its meaning: which values it takes, and how they are
written and read. Codecs are known by name; `Codecs` says what each name means. -/

structure Codec where
  coerce : Value → Except String Value
  write : Value → Except String Json
  read : Json → Except String Value

/-- The codecs in force. -/
class Codecs where
  codec : String → Codec

end Skew

import Skew.Entity.Changes
import Skew.Wire.Primitive

/-!
# Writing entities

Every set field is written by its kind, in order of declaration; the first field
that cannot be written fails the whole. Composed entities are written as
primitives of their own, at the version they have. Null is written as null by
every kind.
-/

namespace Skew

/-- The number a float denotes, if it denotes one. -/
def Json.ofFloat? (x : Float) : Option Json := if x.isFinite then some (.float x) else none

/-- A scalar of the kind's own shape. -/
def Value.writeScalar? : Value → Kind → Option Json
  | .int n, .integer _ => some (.int n.toInt)
  | .float x, .float _ => Json.ofFloat? x
  | .int n, .float _ => Json.ofFloat? n.toFloat
  | .str s, .string | .str s, .uuid | .str s, .address | .str s, .enum _ => some (.str s)
  | .bool b, .boolean => some (.bool b)
  | .datetime t, .datetime => some (.str t.wireText)
  | _, _ => none

/-- A value outside containers and entities, or one that its kind cannot write. -/
def Value.writeLeaf [Codecs] (v : Value) (field : String) (kind : Kind) : Outcome Json :=
  match kind with
  | .custom c => ((Codecs.codec c).write v).mapError fun r => .invalidValue field (.codec r)
  | _ =>
    match v.writeScalar? kind with
    | some j => .ok j
    | none => .error (.invalidValue field (.unwritable v.shape kind))

/-- A field's value, waiting for the kind to be written by. -/
abbrev FieldWriter := Kind → Outcome Json

/-- The data of the set fields: each declared field that has a writer is written. -/
def Schema.writeData (s : Schema) (writers : Record FieldWriter) : Outcome Members :=
  s.fields.foldlM (fun data (name, f) =>
    match Record.get? writers name with
    | some write => (write f.kind).map (Record.insert data name)
    | none => .ok data) []

/-- Wraps data. Change markers of fields that are not in it are left out. -/
def Entity.wrap (e : Entity) (version : Version) (data : Members) : Primitive :=
  ⟨Primitive.entitySpace, e.schema.name, version.text, data,
    e.whatChanged.filter (Record.contains data)⟩

variable [Codecs]

mutual

/-- The wire form of a field's value. -/
def Value.write : Value → String → Kind → Outcome Json
  | .null, _, _ => .ok .null
  | .entity e, field, kind =>
    match kind.bare with
    | .object _ => (Entity.write e).map Primitive.toJson
    | k => Value.writeLeaf (.entity e) field k
  | .list vs, field, kind =>
    match kind.bare with
    | .list k | .set k => (Value.writeItems vs field k).map .arr
    | .listOfObjects t =>
      (Value.writeObjects vs (.invalidValue field (.unwritable .list (.listOfObjects t)))).map .arr
    | k => Value.writeLeaf (.list vs) field k
  | .tuple vs, field, kind =>
    match kind.bare with
    | .list k | .set k => (Value.writeItems vs field k).map .arr
    | .listOfObjects t =>
      (Value.writeObjects vs (.invalidValue field (.unwritable .tuple (.listOfObjects t)))).map .arr
    | k => Value.writeLeaf (.tuple vs) field k
  | .set vs, field, kind =>
    match kind.bare with
    | .list k | .set k => (Value.writeItems vs field k).map .arr
    | .listOfObjects t =>
      (Value.writeObjects vs (.invalidValue field (.unwritable .set (.listOfObjects t)))).map .arr
    | k => Value.writeLeaf (.set vs) field k
  | .map es, field, kind =>
    match kind.bare with
    | .dict k => (Value.writeEntries es field k).map .obj
    | k => Value.writeLeaf (.map es) field k
  | v, field, kind => Value.writeLeaf v field kind.bare

def Value.writeItems : List Value → String → Kind → Outcome (List Json)
  | [], _, _ => .ok []
  | v :: vs, field, kind => do
    let j ← v.write field kind
    let js ← Value.writeItems vs field kind
    .ok (j :: js)

/-- Elements that must all be entities. -/
def Value.writeObjects : List Value → EntityError → Outcome (List Json)
  | [], _ => .ok []
  | .entity e :: vs, mismatch => do
    let p ← Entity.write e
    let js ← Value.writeObjects vs mismatch
    .ok (p.toJson :: js)
  | _ :: _, mismatch => .error mismatch

def Value.writeEntries : List (String × Value) → String → Kind → Outcome Members
  | [], _, _ => .ok []
  | (n, v) :: es, field, kind => do
    let j ← v.write field kind
    let ms ← Value.writeEntries es field kind
    .ok ((n, j) :: ms)

def Entity.writers : List (String × Value) → List (String × FieldWriter)
  | [] => []
  | (n, v) :: es => (n, v.write n) :: Entity.writers es

/-- The primitive at the entity's own version. -/
def Entity.write : Entity → Outcome Primitive
  | ⟨schema, version, context?, values, changed⟩ =>
    (schema.writeData (Entity.writers values)).map
      (Entity.wrap ⟨schema, version, context?, values, changed⟩ version)

end

/-- The data of the set fields. -/
def Entity.data (e : Entity) : Outcome Members := e.schema.writeData (Entity.writers e.values)

end Skew

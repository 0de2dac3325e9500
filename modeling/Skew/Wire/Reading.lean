import Skew.Registry
import Skew.Wire.Primitive

/-!
# Reading entities

An entity is read from its primitive: the registry says which schema reads the
stamped version, each declared field that has data is read by its kind and then
stored as an assigned value would be, and change markers count as far as they
name set fields. Everything read carries the given context.

A document is first turned into a `Reading`, which answers what the document is
as an entity and what it is as a field of any kind. The schema asks for the
fields in order of declaration, so the first declared field that fails is the one
reported.
-/

namespace Skew

/-! ## Plain values -/

/-- An integer outside the signed 64-bit range becomes the nearest float. -/
def Value.ofInt (n : Int) : Value :=
  if Int64.minValue.toInt ≤ n ∧ n ≤ Int64.maxValue.toInt then .int (Int64.ofInt n)
  else if n < 0 then .float (-(Decimal.nearest n.natAbs 0)) else .float (Decimal.nearest n.natAbs 0)

mutual

/-- The value of a document in which nothing is taken for an entity. -/
def Value.ofJson : Json → Value
  | .null => .null
  | .bool b => .bool b
  | .int n => .ofInt n
  | .float x => .float x
  | .str s => .str s
  | .arr js => .list (Value.ofItems js)
  | .obj ms => .map (Value.ofMembers ms)

def Value.ofItems : List Json → List Value
  | [] => []
  | j :: js => Value.ofJson j :: Value.ofItems js

def Value.ofMembers : List (String × Json) → List (String × Value)
  | [] => []
  | (n, j) :: ms => (n, Value.ofJson j) :: Value.ofMembers ms

end

/-! ## Fields -/

/-- What a document is as an entity, and as a field of a given name and kind. Both are
worked out when asked for. -/
structure Reading where
  entity : Unit → Outcome Entity
  field : String → Kind → Outcome Value

variable [Codecs]

/-- A document read by a kind that needs nothing read inside it. -/
def Json.readLeaf (j : Json) (field : String) (kind : Kind) : Outcome Value :=
  match kind with
  | .list _ | .set _ | .dict _ | .listOfObjects _ => .error (.invalidValue field (.unreadable kind))
  | .object _ => .error (.malformed .notObject)
  | .custom c => ((Codecs.codec c).read j).mapError fun r => .invalidValue field (.codec r)
  | _ => inField field (kind.coerce (Value.ofJson j))

/-- Takes what was read as a value of the kind. -/
def Kind.accept (kind : Kind) (field : String) (v : Value) : Outcome Value :=
  inField field (kind.coerce v)

/-- What the field stores for a document: null goes through the field's own rule. -/
def Field.read (f : Field) (name : String) (r : Reading) : Outcome Value := do
  let v ← r.field name f.kind
  if v.isNull ∧ ¬ f.isNullable then inField name (f.coerce v) else .ok v

/-! ## Entities -/

variable (registry : Registry) (context? : Option Context)

/-- The schema for a primitive, and the version it is stamped with. -/
def Primitive.resolve (p : Primitive) : Outcome (Schema × Version) := do
  if p.space ≠ Primitive.entitySpace then throw (.unsupportedType (p.space ++ "." ++ p.name))
  if ¬ registry.contains p.name then throw (.unsupportedType p.name)
  let version ← Version.ofText p.version
  let schema ← registry.resolve p.name version
  .ok (schema, version)

/-- Stores the declared fields that were read. -/
def Entity.fill (e : Entity) (readings : Record Reading) : Outcome Entity :=
  e.schema.fields.foldlM (fun e (name, f) =>
    match Record.get? readings name with
    | some r => do
      let v ← f.read name r
      e.store name v
    | none => .ok e) e

/-- The entity of a primitive whose data has been read. -/
def Primitive.assemble (p : Primitive) (readings : Record Reading) : Outcome Entity := do
  let (schema, version) ← p.resolve registry
  let e ← Entity.fill ⟨schema, version, context?, [], []⟩ readings
  .ok (e.replaceChanges p.changes)

mutual

def Json.reading : Json → Reading
  | .null => ⟨fun _ => .error (.malformed .notObject), fun _ _ => .ok .null⟩
  | .arr js =>
    ⟨fun _ => .error (.malformed .notObject), fun field kind =>
      match kind.bare with
      | .list k => ((Json.itemReadings js).mapM fun r : Reading => r.field field k).map .list
      | .set k => ((Json.itemReadings js).mapM fun r : Reading => r.field field k).map Value.setOf
      | .listOfObjects t => do
        let es ← (Json.itemReadings js).mapM (·.entity ())
        (Kind.listOfObjects t).accept field (.list (es.map .entity))
      | k => (Json.arr js).readLeaf field k⟩
  | .obj ms =>
    let entity _ := do
      let p ← Primitive.ofMembers ms
      p.assemble registry context? (Json.dataReadings ms)
    ⟨entity, fun field kind =>
      match kind.bare with
      | .dict k =>
        (mapEntriesM (fun r : Reading => r.field field k) (Json.memberReadings ms)).map .map
      | .object t => do
        let e ← entity ()
        (Kind.object t).accept field (.entity e)
      | k => (Json.obj ms).readLeaf field k⟩
  | .bool b =>
    ⟨fun _ => .error (.malformed .notObject),
      fun field kind => (Json.bool b).readLeaf field kind.bare⟩
  | .int n =>
    ⟨fun _ => .error (.malformed .notObject),
      fun field kind => (Json.int n).readLeaf field kind.bare⟩
  | .float x =>
    ⟨fun _ => .error (.malformed .notObject),
      fun field kind => (Json.float x).readLeaf field kind.bare⟩
  | .str s =>
    ⟨fun _ => .error (.malformed .notObject),
      fun field kind => (Json.str s).readLeaf field kind.bare⟩

def Json.itemReadings : List Json → List Reading
  | [] => []
  | j :: js => j.reading :: Json.itemReadings js

def Json.memberReadings : List (String × Json) → List (String × Reading)
  | [] => []
  | (n, j) :: ms => (n, j.reading) :: Json.memberReadings ms

/-- The readings of the members under the data key. -/
def Json.dataReadings : List (String × Json) → List (String × Reading)
  | [] => []
  | (n, .obj ds) :: ms =>
    if n = Primitive.dataKey then Json.memberReadings ds else Json.dataReadings ms
  | _ :: ms => Json.dataReadings ms

end

namespace Entity

/-- The entity of a primitive. -/
def ofPrimitive (p : Primitive) : Outcome Entity :=
  p.assemble registry context? (Json.memberReadings registry context? p.data)

/-- The entity of a document. -/
def ofJson (j : Json) : Outcome Entity := (j.reading registry context?).entity ()

end Entity

/-- What a field stores for a document. -/
def Field.ofJson (f : Field) (name : String) (j : Json) : Outcome Value :=
  f.read name (j.reading registry context?)

end Skew

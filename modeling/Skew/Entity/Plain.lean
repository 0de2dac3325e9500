import Skew.Wire.Writing

/-!
# Plain documents

A view of an entity without any wire markers: the set fields by name, composed
entities as plain documents themselves, and list types as arrays.
-/

namespace Skew

/-- A value's plain form, waiting for the field that holds it. -/
abbrev PlainWriter := Option Field → Outcome Json

/-- The members of the set fields, in order of declaration. -/
def Schema.plainMembers (s : Schema) (writers : Record PlainWriter) : Outcome Members :=
  s.fields.foldlM (fun ms (name, f) =>
    match Record.get? writers name with
    | some write => (write (some f)).map (Record.insert ms name)
    | none => .ok ms) []

/-- The value is an entity. -/
def Value.isEntity (v : Value) : Bool := v.entity?.isSome

variable [Codecs]

/-- A value without entities is written by its field. -/
def Value.plainLeaf (v : Value) (name : String) (field? : Option Field) : Outcome Json :=
  match field? with
  | some f => v.write name f.kind
  | none => .ok .null

mutual

def Value.plain : Value → String → PlainWriter
  | .entity e, _, _ => Entity.plain e
  | .list vs, name, field? =>
    if vs.any Value.isEntity then (Value.plainItems vs name field?).map .arr
    else Value.plainLeaf (.list vs) name field?
  | v, name, field? => v.plainLeaf name field?

def Value.plainItems : List Value → String → Option Field → Outcome (List Json)
  | [], _, _ => .ok []
  | v :: vs, name, field? => do
    let j ← v.plain name field?
    let js ← Value.plainItems vs name field?
    .ok (j :: js)

def Entity.plainWriters : List (String × Value) → List (String × PlainWriter)
  | [] => []
  | (n, v) :: es => (n, v.plain n) :: Entity.plainWriters es

/-- The items of a list type, if it has any. -/
def Entity.plainList (field? : Option Field) : List (String × Value) → Outcome (List Json)
  | [] => .ok []
  | (n, .list vs) :: es =>
    if n = Schema.itemsField then Value.plainItems vs n field? else Entity.plainList field? es
  | _ :: es => Entity.plainList field? es

def Entity.plain : Entity → Outcome Json
  | ⟨schema, _, _, values, _⟩ =>
    if schema.isList then
      (Entity.plainList (schema.field? Schema.itemsField) values).map .arr
    else (schema.plainMembers (Entity.plainWriters values)).map .obj

end

/-- Two entities have the same primitives, change markers and the given names
aside, at every depth. -/
def Entity.equalPrimitives (a b : Entity) (ignore : List String) : Outcome Bool := do
  let names := Primitive.changesKey :: ignore
  let p ← a.write
  let q ← b.write
  .ok (p.toJson.strip names == q.toJson.strip names)

end Skew

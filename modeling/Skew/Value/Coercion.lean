import Skew.Value.Equality
import Skew.Value.Text
import Skew.Format.Address
import Skew.Format.Uuid

/-!
# Coercion

What a field stores when a value is assigned to it. Numbers are taken from
numbers, booleans and their texts; strings from scalars; anything counts as a
boolean by its truth value. Containers coerce their elements one by one and the
first refusal counts. Entities are taken as they are when their type has the
right name.

Null is kept by a nullable field, replaced by the default where there is one,
and refused otherwise.
-/

namespace Skew

open Decimal (readInt64? readFloat? plain intText)

/-! ## Numbers -/

/-- The integer part of a finite float, at the nearest end of the 64-bit range
where it lies outside. -/
def integerPart? (x : Float) : Option Int64 :=
  (Decimal.Binary.ofFloat? x).map fun b =>
    Int64.ofInt (max Int64.minValue.toInt (min Int64.maxValue.toInt b.truncate))

def boolInt (b : Bool) : Int64 := if b then 1 else 0

/-- The integer that a value denotes. -/
def Value.toInteger (kind : Kind) : Value → Except ValueFault Int64
  | .int n => .ok n
  | .bool b => .ok (boolInt b)
  | .float x =>
    match integerPart? x with
    | some n => .ok n
    | none => .error (.mismatch .float kind)
  | .str s =>
    match readInt64? (Text.trim s.toList) with
    | some n => .ok n
    | none => .error (.notInteger s)
  | v => .error (.mismatch v.shape kind)

/-- The float that a value denotes. -/
def Value.toFloat (kind : Kind) : Value → Except ValueFault Float
  | .float x => .ok x
  | .int n => .ok n.toFloat
  | .bool b => .ok (boolInt b).toFloat
  | .str s =>
    match readFloat? (Text.trim s.toList) with
    | some x => .ok x
    | none => .error (.notFloat s)
  | v => .error (.mismatch v.shape kind)

def coerceInteger (nonNegative : Bool) (v : Value) : Except ValueFault Value := do
  let n ← v.toInteger (.integer nonNegative)
  if nonNegative ∧ n < 0 then .error (.negative (intText n.toInt)) else .ok (.int n)

def coerceFloat (nonNegative : Bool) (v : Value) : Except ValueFault Value := do
  let x ← v.toFloat (.float nonNegative)
  if nonNegative ∧ x < 0 then .error (.negative (plain.text x)) else .ok (.float x)

/-! ## Texts -/

def coerceString : Value → Except ValueFault String
  | .str s => .ok s
  | .int n => .ok (intText n.toInt)
  | .float x => .ok (plain.text x)
  | .bool b => .ok (Value.boolText b)
  | .datetime t => .ok t.wireText
  | v => .error (.mismatch v.shape .string)

def coerceDatetime : Value → Except ValueFault Value
  | .datetime t => .ok (.datetime t)
  | .str s =>
    match Calendar.Instant.read? s with
    | some t => .ok (.datetime t)
    | none => .error (.notDatetime s)
  | v => .error (.mismatch v.shape .datetime)

def coerceUuid : Value → Except ValueFault Value
  | .str s =>
    match Format.Uuid.normalize? s with
    | some t => .ok (.str t)
    | none => .error (.notUuid s)
  | v => .error (.mismatch v.shape .uuid)

def coerceAddress : Value → Except ValueFault Value
  | .str s =>
    match Format.normalizeAddress? s with
    | some t => .ok (.str t)
    | none => .error (.notAddress s)
  | v => .error (.mismatch v.shape .address)

def coerceEnum (valid : List String) (v : Value) : Except ValueFault Value := do
  let s ← coerceString v
  if s ∈ valid then .ok (.str s) else .error (.notMember s valid)

/-! ## Entities -/

/-- An entity whose type has the given name. -/
def coerceObject (type : String) : Value → Except ValueFault Value
  | .entity e =>
    if e.schema.name = type then .ok (.entity e) else .error (.wrongType type e.schema.name)
  | v => .error (.mismatch v.shape (.object type))

def coerceObjects (type : String) : Value → Except ValueFault Value
  | .list vs | .tuple vs => (vs.mapM (coerceObject type)).map .list
  | v => .error (.mismatch v.shape (.listOfObjects type))

/-! ## Kinds and fields -/

/-- Applies a step to the contents of each entry; the first error counts. -/
def mapEntriesM {α β ε : Type} (f : α → Except ε β) (es : List (String × α)) :
    Except ε (List (String × β)) :=
  es.mapM fun e => (f e.2).map (e.1, ·)

def Kind.coerce [Codecs] : Kind → Value → Except ValueFault Value
  | .integer nonNegative, v => coerceInteger nonNegative v
  | .float nonNegative, v => coerceFloat nonNegative v
  | .string, v => (coerceString v).map .str
  | .boolean, v => .ok (.bool v.isTruthy)
  | .datetime, v => coerceDatetime v
  | .uuid, v => coerceUuid v
  | .address, v => coerceAddress v
  | .enum valid, v => coerceEnum valid v
  | .list k, v =>
    match v.items? with
    | some vs => (vs.mapM k.coerce).map .list
    | none => .error (.mismatch v.shape (.list k))
  | .set k, v =>
    match v.items? with
    | some vs => (vs.mapM k.coerce).map Value.setOf
    | none => .error (.mismatch v.shape (.set k))
  | .dict k, v =>
    match v.entries? with
    | some es => (mapEntriesM k.coerce es).map .map
    | none => .error (.mismatch v.shape (.dict k))
  | .nullable k, v => if v.isNull then .ok .null else k.coerce v
  | .object type, v => coerceObject type v
  | .listOfObjects type, v => coerceObjects type v
  | .custom c, v => (Codecs.codec c |>.coerce v).mapError .codec

/-- What the field stores when the value is assigned. -/
def Field.coerce [Codecs] (f : Field) (v : Value) : Except ValueFault Value :=
  if v.isNull then
    if f.isNullable then .ok .null
    else match f.default? with
      | some d => .ok d
      | none => .error .notNullable
  else f.kind.coerce v

/-- Names the field that refused a value. -/
def inField {α : Type} (name : String) (r : Except ValueFault α) : Outcome α :=
  r.mapError (.invalidValue name)

end Skew

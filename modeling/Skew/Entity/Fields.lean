import Skew.Entity.Changes
import Skew.Value.Coercion

/-!
# Reading and assigning fields

Assignment coerces the value and marks the field changed; a value that is
refused leaves the entity as it was. Only declared fields can be read or
assigned.
-/

namespace Skew

/-- A computation on an entity. What it did before it failed stays done. -/
abbrev Update (α : Type) := ExceptT EntityError (StateM Entity) α

namespace Entity

/-- An instance without values and without a context. -/
def ofSchema (s : Schema) : Entity := ⟨s, s.version, none, [], []⟩

def bound (e : Entity) (c : Context) : Entity := { e with context? := some c }

def withContext? (e : Entity) (c? : Option Context) : Entity := { e with context? := c? }

def typeName (e : Entity) : String := e.schema.name

def isSet (e : Entity) (name : String) : Bool := Record.contains e.values name

/-- The set fields in order of declaration. -/
def setFields (e : Entity) : List String := e.schema.fieldNames.filter e.isSet

def get (e : Entity) (name : String) : Outcome Value := do
  let _ ← e.schema.requireField name
  match Record.get? e.values name with
  | some v => .ok v
  | none => .error (.attributeNotSet e.typeName name)

/-- Puts a value that is already in the form its field stores. -/
def storeCoerced (e : Entity) (name : String) (v : Value) : Entity :=
  { e with values := Record.insert e.values name v }

variable [Codecs]

/-- Assigns without marking the field changed. -/
def store (e : Entity) (name : String) (v : Value) : Outcome Entity := do
  let f ← e.schema.requireField name
  let v ← inField name (f.coerce v)
  .ok (e.storeCoerced name v)

def set (e : Entity) (name : String) (v : Value) : Outcome Entity := do
  let e ← e.store name v
  .ok { e with changed := NameSet.insert e.changed name }

end Entity

namespace Update

/-- A step that yields the next entity, or fails and leaves the entity alone. -/
def ofStep (step : Entity → Outcome Entity) : Update Unit := do
  match step (← get) with
  | .ok e => MonadStateOf.set e
  | .error err => throw err

/-- A question to the entity. -/
def ask {α : Type} (f : Entity → Outcome α) : Update α := do
  match f (← get) with
  | .ok a => pure a
  | .error err => throw err

variable [Codecs]

def set (name : String) (v : Value) : Update Unit := ofStep (·.set name v)

/-- Sets several fields in order; the first refusal ends it. -/
def setAll (fields : List (String × Value)) : Update Unit :=
  fields.forM fun (n, v) => Update.set n v

/-- Gives a field its default unless it is set. -/
def setDefault (name : String) : Update Unit := do
  let f ← ask (·.schema.requireField name)
  match f.default? with
  | none => throw (.action "set_defaults" (.noDefault name))
  | some d => if (← get).isSet name then pure () else Update.set name d

/-- Gives defaults to the named fields, or to all fields that declare one. -/
def setDefaults (names? : Option (List String)) : Update Unit := do
  let e ← get
  let names := names?.getD
    ((e.schema.fields.filter fun f => f.2.default?.isSome).map (·.1))
  names.forM setDefault

/-- Runs with another context in place of the entity's own, which is put back
afterwards in any case. -/
def withContext {α : Type} (c : Context) (act : Update α) : Update α := fun e =>
  let (r, e') := act (e.bound c)
  (r, { e' with context? := e.context? })

/-- Runs with administrative rights. -/
def asAdmin {α : Type} (act : Update α) : Update α := do
  let e ← get
  match e.context? with
  | some c => withContext c.elevated act
  | none => throw (.orphanedEntity "as_admin" e.typeName)

end Update

end Skew

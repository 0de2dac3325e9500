import Skew.Entity.Fields

/-!
# Entity lists

A list type is a schema with a single field of entities. An `EntityList` is an
entity of such a type, used as a sequence.
-/

namespace Skew

structure EntityList where
  inner : Entity

namespace EntityList

variable [Codecs]

/-- Wraps an entity of a list type; an unset sequence becomes the empty one. -/
def ofEntity (e : Entity) : Outcome EntityList :=
  if ¬ e.schema.isList then .error (.action "make_list" (.notList e.typeName))
  else if e.isSet Schema.itemsField then .ok ⟨e⟩
  else (e.store Schema.itemsField (.list [])).map .mk

/-- The empty list of a list type, without changes. -/
def ofSchema (s : Schema) : Outcome EntityList := do
  let e ← (Entity.ofSchema s).store Schema.itemsField (.list [])
  ofEntity e

/-- The element type. -/
def itemType (l : EntityList) : String :=
  match l.inner.schema.field? Schema.itemsField with
  | some ⟨.listOfObjects type, _, _⟩ => type
  | _ => ""

def items (l : EntityList) : List Value :=
  match l.inner.get Schema.itemsField with
  | .ok v => v.items?.getD []
  | .error _ => []

def size (l : EntityList) : Nat := l.items.length

def entities (l : EntityList) : List Entity := l.items.filterMap Value.entity?

def get? (l : EntityList) (index : Nat) : Option Entity := l.items[index]?.bind Value.entity?

/-- Appends an entity and marks the sequence changed. A value that is no list takes
no element. -/
def push (l : EntityList) (item : Entity) : Outcome EntityList := do
  if item.typeName ≠ l.itemType then
    throw (.invalidValue Schema.itemsField (.wrongType l.itemType item.typeName))
  let v ← l.inner.get Schema.itemsField
  let e := match v with
    | .list vs => l.inner.storeCoerced Schema.itemsField (.list (vs ++ [Value.entity item]))
    | _ => l.inner
  .ok ⟨e.markChanged Schema.itemsField⟩

/-- Updates the element at an index; `none` if there is no entity there. -/
def update? {α : Type} (l : EntityList) (index : Nat) (act : Update α) :
    Option (Outcome α × EntityList) :=
  match l.inner.get Schema.itemsField with
  | .ok (.list vs) =>
    match vs[index]? with
    | some (.entity e) =>
      let (r, e) := act e
      some (r, ⟨l.inner.storeCoerced Schema.itemsField (.list (vs.set index (.entity e)))⟩)
    | _ => none
  | _ => none

/-- Builds one item per record, with the context on all of them, and appends it; the
first failure ends it. -/
def pushRecords {ρ : Type} (c : Context) (item : Schema) (build : ρ → Update Unit) :
    List ρ → EntityList → Outcome EntityList
  | [], l => .ok l
  | r :: rs, l => do
    match build r ((Entity.ofSchema item).bound c) with
    | (.error err, _) => .error err
    | (.ok (), e) =>
      let l ← l.push e.settled
      pushRecords c item build rs l

/-- A list with one item per record, bound to the context and without changes. -/
def ofRecords {ρ : Type} (c : Context) (list item : Schema) (records : List ρ)
    (build : ρ → Update Unit) : Outcome EntityList := do
  let l ← ofSchema list
  let l ← pushRecords c item build records l
  .ok ⟨(l.inner.bound c).settled⟩

end EntityList

end Skew

import Skew.Model

/-!
# Changes

A field counts as changed when it was assigned, and when the entity it holds, or
an entity in the list it holds, has changes of its own.
-/

namespace Skew

namespace NameSet

def union (s t : NameSet) : NameSet := t.foldl insert s

theorem mem_union {s t : NameSet} {j : String} : j ∈ union s t ↔ j ∈ s ∨ j ∈ t := by
  induction t generalizing s with
  | nil => simp [union]
  | cons n t ih =>
    have h : union s (n :: t) = union (insert s n) t := rfl
    rw [h, ih, mem_insert, List.mem_cons]
    constructor
    · rintro ((h | h) | h) <;> simp [h]
    · rintro (h | h | h) <;> simp [h]

end NameSet

/-! ## What changed -/

mutual

/-- The changed fields, in ascending order. -/
def Entity.whatChanged : Entity → NameSet
  | ⟨_, _, _, values, changed⟩ => NameSet.union changed (Entity.changedEntries values)

/-- The fields whose values have changes of their own. -/
def Entity.changedEntries : List (String × Value) → List String
  | [] => []
  | (n, v) :: es =>
    if Value.hasChanges v then n :: Entity.changedEntries es else Entity.changedEntries es

/-- A composed entity, or one of a list, has changes. -/
def Value.hasChanges : Value → Bool
  | .entity e => !(Entity.whatChanged e).isEmpty
  | .list vs => Value.anyChanges vs
  | _ => false

def Value.anyChanges : List Value → Bool
  | [] => false
  | .entity e :: vs => !(Entity.whatChanged e).isEmpty || Value.anyChanges vs
  | _ :: vs => Value.anyChanges vs

end

/-- The changed fields with their values. -/
def Entity.getChanges (e : Entity) : Record Value :=
  e.whatChanged.filterMap fun n => (Record.get? e.values n).map (n, ·)

/-! ## Forgetting changes -/

mutual

/-- The entity without changes at any depth. -/
def Entity.settled : Entity → Entity
  | ⟨schema, version, context?, values, _⟩ =>
    ⟨schema, version, context?, Entity.settledEntries values, []⟩

def Entity.settledEntries : List (String × Value) → List (String × Value)
  | [] => []
  | (n, v) :: es => (n, v.settled) :: Entity.settledEntries es

/-- A composed entity, or those of a list, without changes. -/
def Value.settled : Value → Value
  | .entity e => .entity (Entity.settled e)
  | .list vs => .list (Value.settledItems vs)
  | v => v

def Value.settledItems : List Value → List Value
  | [] => []
  | .entity e :: vs => .entity (Entity.settled e) :: Value.settledItems vs
  | v :: vs => v :: Value.settledItems vs

end

/-- Forgets the changes of all fields, or only of the given ones. With `deep`, the
entities composed under these fields are settled as well. -/
def Entity.resetChanges (e : Entity) (fields? : Option (List String)) (deep : Bool) : Entity :=
  let wanted (n : String) : Bool := match fields? with
    | some fields => n ∈ fields
    | none => true
  { e with
    values := if deep then e.values.map fun (n, v) => (n, if wanted n then v.settled else v)
      else e.values
    changed := e.changed.filter fun n => !wanted n }

/-- Marks a field changed if it is set. -/
def Entity.markChanged (e : Entity) (name : String) : Entity :=
  if Record.contains e.values name then { e with changed := NameSet.insert e.changed name } else e

/-- The given names, as far as they are set, become the changed fields. -/
def Entity.replaceChanges (e : Entity) (names : List String) : Entity :=
  { e with changed := NameSet.ofList (names.filter (Record.contains e.values)) }

end Skew

import Skew.Entity.Fields

/-!
# Paths

A path leads from an entity to one composed in it, field by field. Where a field
holds a list, the step also has an index.
-/

namespace Skew

structure PathStep where
  field : String
  index? : Option Nat

/-- Why a path leads nowhere: a field on the way cannot be read, or there is no entity
at some step. -/
inductive PathFault where
  | refused (error : EntityError)
  | missing

/-- Changes the entity that a value is, or the one at an index of a list. -/
def Value.focus {α : Type} (act : Entity → Except PathFault (α × Entity)) :
    Option Nat → Value → Except PathFault (α × Value)
  | none, .entity e => (act e).map fun (a, e) => (a, .entity e)
  | some i, .list vs =>
    match vs[i]? with
    | some (.entity e) => (act e).map fun (a, e) => (a, .list (vs.set i (.entity e)))
    | _ => .error .missing
  | _, _ => .error .missing

namespace Entity

/-- Acts on the entity at the end of a path, in place. -/
def focus {α : Type} (act : Entity → α × Entity) :
    List PathStep → Entity → Except PathFault (α × Entity)
  | [], e => .ok (act e)
  | step :: steps, e => do
    let v ← (e.get step.field).mapError .refused
    let (a, v) ← v.focus (focus act steps) step.index?
    .ok (a, e.storeCoerced step.field v)

/-- Replaces the value of a set field as it is, without coercion and without a mark. -/
def put (e : Entity) (name : String) (v : Value) : Outcome Entity := do
  let _ ← e.get name
  .ok (e.storeCoerced name v)

end Entity

end Skew

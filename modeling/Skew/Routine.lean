import Skew.Dispatch
import Skew.Wire.Backport

/-!
# Routines

Methods and hooks given as data. A routine is a list of actions on one entity: it
computes from the entity's fields, its context and the arguments, and writes only by
assignment. As the method of a class it works on a new entity and answers it; as the
method of an instance it answers null, unless an action answers something else.

A hook rule edits the data sent to peers before a version.
-/

namespace Skew

/-- What an action computes. -/
inductive Term where
  /-- an argument that must be there -/
  | argument (index : Nat) (name : String)
  /-- an argument, or null -/
  | optional (index : Nat) (name : String)
  | field (name : String)
  /-- one more than the integer in a field; other values count as zero -/
  | successor (field : String)
  | itself
  /-- the id of the request that the entity is bound to, or null -/
  | requestId
  | const (v : Value)

inductive Action where
  | assign (field : String) (t : Term)
  | reset (deep : Bool)
  | fail (text : String)
  | answer (t : Term)

abbrev Routine := List Action

def Term.eval (args : Args) (e : Entity) : Term → Outcome Value
  | .argument i n => args.require i n
  | .optional i n => .ok ((args.get? i n).getD .null)
  | .field n => e.get n
  | .successor n => do
    let v ← e.get n
    .ok (.int (v.int?.getD 0 + 1))
  | .itself => .ok (.entity e)
  | .requestId => .ok (match e.context? with
    | some c => .str c.requestId
    | none => .null)
  | .const v => .ok v

namespace Routine

/-- Performs the actions in order until one answers. -/
def perform [Codecs] (args : Args) : List Action → Update (Option Value)
  | [] => pure none
  | .assign f t :: acts => do
    let v ← Update.ask (t.eval args)
    Update.set f v
    perform args acts
  | .reset deep :: acts => do
    modify (·.resetChanges none deep)
    perform args acts
  | .fail text :: _ => throw (.transport text)
  | .answer t :: _ => some <$> Update.ask (t.eval args)

variable {σ : Type} [Codecs] (r : Routine)

def asInstanceMethod (args : Args) : EntityRun σ Value := do
  let v? ← EntityRun.ofUpdate (perform args r)
  pure (v?.getD .null)

def asClassMethod (call : ClassCall) : Run σ Value :=
  match perform call.args r call.newEntity with
  | (.ok (some v), _) => pure v
  | (.ok none, e) => pure (.entity e)
  | (.error err, _) => throw err

end Routine

/-! ## Hook rules -/

structure HookRule where
  /-- peers older than this get the change -/
  before : Version
  change : Edit Unit

/-- The rules in order, as far as they apply to the target. -/
def Hook.ofRules (rules : List HookRule) : Hook := fun target =>
  rules.forM fun r => if target.release < r.before.release then r.change else pure ()

end Skew

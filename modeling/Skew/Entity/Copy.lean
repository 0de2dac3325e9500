import Skew.Model

/-!
# Copies

A copy of an entity has its schema, version, context and changes, and the values
of its declared fields, copied in the same way.
-/

namespace Skew

mutual

def Value.copy : Value → Value
  | .list vs => .list (Value.copyItems vs)
  | .tuple vs => .tuple (Value.copyItems vs)
  | .set vs => .set (Value.copyItems vs)
  | .map es => .map (Value.copyEntries es)
  | .entity e => .entity (Entity.copy e)
  | v => v

def Value.copyItems : List Value → List Value
  | [] => []
  | v :: vs => v.copy :: Value.copyItems vs

def Value.copyEntries : List (String × Value) → List (String × Value)
  | [] => []
  | (n, v) :: es => (n, v.copy) :: Value.copyEntries es

def Entity.copy : Entity → Entity
  | ⟨schema, version, context?, values, changed⟩ =>
    ⟨schema, version, context?,
      (Value.copyEntries values).filter fun e => schema.hasField e.1, changed⟩

end

end Skew

import Skew.Model

/-!
# Equality of values

Values are equal when they have the same shape and equal contents; an integer
never equals a float. Floats are compared as numbers. Entities are equal when
their types have the same name and they hold equal values: version, context and
changes do not count.

A set keeps the first of equal elements, in the order they came.
-/

namespace Skew

mutual

def Value.beq : Value → Value → Bool
  | .null, .null => true
  | .bool a, .bool b => a == b
  | .int a, .int b => a == b
  | .float a, .float b => a == b
  | .str a, .str b => a == b
  | .datetime a, .datetime b => a == b
  | .list as, .list bs => Value.beqItems as bs
  | .tuple as, .tuple bs => Value.beqItems as bs
  | .set as, .set bs => Value.beqItems as bs
  | .map as, .map bs => Value.beqEntries as bs
  | .entity a, .entity b => Entity.beq a b
  | _, _ => false
termination_by structural a => a

def Value.beqItems : List Value → List Value → Bool
  | [], [] => true
  | a :: as, b :: bs => Value.beq a b && Value.beqItems as bs
  | _, _ => false
termination_by structural as => as

def Value.beqEntries : List (String × Value) → List (String × Value) → Bool
  | [], [] => true
  | (k, a) :: as, (l, b) :: bs => k == l && Value.beq a b && Value.beqEntries as bs
  | _, _ => false
termination_by structural as => as

def Entity.beq : Entity → Entity → Bool
  | ⟨s, _, _, as, _⟩, ⟨t, _, _, bs, _⟩ => s.name == t.name && Value.beqEntries as bs
termination_by structural e => e

end

instance : BEq Value := ⟨Value.beq⟩

instance : BEq Entity := ⟨Entity.beq⟩

namespace Value

/-- Keeps the first of equal values. -/
def dedup (vs : List Value) : List Value :=
  vs.foldl (fun kept v => if kept.any (· == v) then kept else kept ++ [v]) []

def setOf (vs : List Value) : Value := .set (dedup vs)

end Value

end Skew

import Skew.Record

/-!
# Wire documents

The documents that travel between nodes. A number is an integer or a 64-bit
float, and the two are different documents even where they denote the same
number. The members of an object are a record: ascending names, each once.
-/

namespace Skew

inductive Json where
  | null
  | bool (b : Bool)
  | int (n : Int)
  | float (x : Float)
  | str (s : String)
  | arr (items : List Json)
  | obj (members : List (String × Json))

/-- The members of an object. -/
abbrev Members := Record Json

namespace Json

instance : Inhabited Json := ⟨.null⟩

def isNull : Json → Bool
  | .null => true
  | _ => false

def str? : Json → Option String
  | .str s => some s
  | _ => none

def members? : Json → Option Members
  | .obj ms => some ms
  | _ => none

def items? : Json → Option (List Json)
  | .arr js => some js
  | _ => none

/-! ## Comparison

Floats are compared as numbers: the two zeros are equal, NaN is not equal to
itself. -/

mutual

protected def beq : Json → Json → Bool
  | .null, .null => true
  | .bool a, .bool b => a == b
  | .int a, .int b => a == b
  | .float a, .float b => a == b
  | .str a, .str b => a == b
  | .arr as, .arr bs => beqItems as bs
  | .obj as, .obj bs => beqMembers as bs
  | _, _ => false
termination_by structural a => a

def beqItems : List Json → List Json → Bool
  | [], [] => true
  | a :: as, b :: bs => Json.beq a b && beqItems as bs
  | _, _ => false
termination_by structural as => as

def beqMembers : List (String × Json) → List (String × Json) → Bool
  | [], [] => true
  | (k, a) :: as, (l, b) :: bs => k == l && Json.beq a b && beqMembers as bs
  | _, _ => false
termination_by structural as => as

end

instance : BEq Json := ⟨Json.beq⟩

/-! ## Removing names at every depth -/

mutual

/-- Removes the given names from every object in the document. -/
def strip (names : List String) : Json → Json
  | .arr js => .arr (stripItems names js)
  | .obj ms => .obj (stripMembers names ms)
  | .null => .null
  | .bool b => .bool b
  | .int n => .int n
  | .float x => .float x
  | .str s => .str s

def stripItems (names : List String) : List Json → List Json
  | [] => []
  | j :: js => strip names j :: stripItems names js

def stripMembers (names : List String) : List (String × Json) → List (String × Json)
  | [] => []
  | (k, j) :: ms =>
    if k ∈ names then stripMembers names ms else (k, strip names j) :: stripMembers names ms

end

end Json

end Skew

import Skew.Model

/-!
# Display texts

Strings in quotes, sequences in brackets, maps in braces; an entity shows its
type and all declared fields in ascending order of names, a question mark for
those that are not set.
-/

namespace Skew

namespace Value

def boolText (b : Bool) : String := if b then "True" else "False"

/-- Brackets, and commas between the texts. -/
def enclose (opening closing : String) (texts : List String) : String :=
  opening ++ ",".intercalate texts ++ closing

end Value

/-- Declared fields in ascending order of names, each with its text if it is set. -/
def Schema.fieldTexts (s : Schema) (texts : Record String) : List String :=
  (NameSet.ofList s.fieldNames).map fun n => n ++ "=" ++ (Record.get? texts n).getD "<?>"

mutual

def Value.text : Value → String
  | .null => "None"
  | .bool b => Value.boolText b
  | .int n => Decimal.intText n.toInt
  | .float x => Decimal.plain.text x
  | .str s => "'" ++ s ++ "'"
  | .datetime t => t.wireText
  | .list vs => Value.enclose "[" "]" (Value.itemTexts vs)
  | .tuple vs => Value.enclose "[" "]" (Value.itemTexts vs)
  | .set vs => Value.enclose "[" "]" (Value.itemTexts vs)
  | .map es =>
    Value.enclose "\x7b" "\x7d" ((Value.entryTexts es).map fun e => e.1 ++ "=" ++ e.2)
  | .entity e => Entity.text e

def Value.itemTexts : List Value → List String
  | [] => []
  | v :: vs => v.text :: Value.itemTexts vs

def Value.entryTexts : List (String × Value) → List (String × String)
  | [] => []
  | (k, v) :: es => (k, v.text) :: Value.entryTexts es

def Entity.text : Entity → String
  | ⟨schema, _, _, values, _⟩ =>
    schema.name ++ Value.enclose "(" ")" (schema.fieldTexts (Value.entryTexts values))

end

end Skew

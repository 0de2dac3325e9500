/-!
# Kinds

The kind of a field says which values it takes and how they travel. Containers
have an element kind; the elements of a container may be null only under
`nullable`. A custom kind is known by the name of its codec.
-/

namespace Skew

inductive Kind where
  | integer (nonNegative : Bool)
  | float (nonNegative : Bool)
  | string
  | boolean
  | datetime
  | uuid
  | address
  | enum (valid : List String)
  | list (element : Kind)
  | set (element : Kind)
  | dict (element : Kind)
  | nullable (element : Kind)
  | object (type : String)
  | listOfObjects (type : String)
  | custom (codec : String)
deriving DecidableEq

namespace Kind

/-- The kind without the nullable layers around it. -/
def bare : Kind → Kind
  | .nullable k => k.bare
  | k => k

/-- The fields that compose other entities. -/
def isObject : Kind → Bool
  | .object _ | .listOfObjects _ => true
  | _ => false

/-- The name of a kind in messages and listings. -/
def describe : Kind → String
  | .integer false => "Integer"
  | .integer true => "NonNegativeInteger"
  | .float false => "Float"
  | .float true => "NonNegativeFloat"
  | .string => "String"
  | .boolean => "Boolean"
  | .datetime => "DateTime"
  | .uuid => "UUID"
  | .address => "IPAddress"
  | .enum _ => "Enum"
  | .list k => "List(" ++ k.describe ++ ")"
  | .set k => "Set(" ++ k.describe ++ ")"
  | .dict k => "Dict(" ++ k.describe ++ ")"
  | .nullable k => "Nullable(" ++ k.describe ++ ")"
  | .object t => "Object(" ++ t ++ ")"
  | .listOfObjects t => "ListOfObjects(" ++ t ++ ")"
  | .custom c => c

end Kind

/-- The outermost form of a value. -/
inductive Shape where
  | null | bool | int | float | string | datetime | list | tuple | set | map | entity
deriving DecidableEq

def Shape.name : Shape → String
  | .null => "null"
  | .bool => "bool"
  | .int => "int"
  | .float => "float"
  | .string => "string"
  | .datetime => "datetime"
  | .list => "list"
  | .tuple => "tuple"
  | .set => "set"
  | .map => "map"
  | .entity => "entity"

end Skew

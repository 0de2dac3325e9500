import Skew.Kind
import Skew.Version

/-!
# Errors

Everything that can go wrong with entities, by cause. The wording is in the
`message` functions alone.
-/

namespace Skew

/-- Why a field refuses a value. -/
inductive ValueFault where
  | mismatch (found : Shape) (kind : Kind)
  | notInteger (text : String)
  | notFloat (text : String)
  | negative (number : String)
  | notDatetime (text : String)
  | notUuid (text : String)
  | notAddress (text : String)
  | notMember (text : String) (valid : List String)
  | wrongType (expected found : String)
  | notNullable
  | unwritable (found : Shape) (kind : Kind)
  | unreadable (kind : Kind)
  | unsendable (number : String)
  | codec (reason : String)
deriving DecidableEq

def ValueFault.message : ValueFault → String
  | .mismatch found kind => s!"{found.name} is not a valid {kind.describe}"
  | .notInteger s => s!"'{s}' is not an integer"
  | .notFloat s => s!"'{s}' is not a float"
  | .negative n => s!"{n} is negative"
  | .notDatetime s => s!"'{s}' is not a datetime"
  | .notUuid s => s!"'{s}' is not a UUID"
  | .notAddress s => s!"'{s}' is not an IP address"
  | .notMember s valid => s!"'{s}' is not one of " ++ ", ".intercalate valid
  | .wrongType expected found => s!"expected {expected} object, got {found}"
  | .notNullable => "field is not nullable"
  | .unwritable found kind => s!"cannot serialize {found.name} as {kind.describe}"
  | .unreadable kind => s!"unexpected primitive for {kind.describe}"
  | .unsendable n => s!"{n} cannot be sent"
  | .codec reason => reason

/-- What is wrong with a wire document that should hold an entity. -/
inductive Malformation where
  | notObject
  | wrongType (found expected : String)
  | missingKey (key : String)
  | notSequence (field : String)
  | childNotObject
  | childWithoutData
  | lostEntity
deriving DecidableEq

def Malformation.message : Malformation → String
  | .notObject => "primitive is not a JSON object"
  | .wrongType found expected => s!"invalid type: {found}, expected {expected}"
  | .missingKey key => "missing field \x60" ++ key ++ "\x60"
  | .notSequence field => s!"{field} is not a sequence"
  | .childNotObject => "child primitive is not an object"
  | .childWithoutData => "child primitive has no data"
  | .lostEntity => "entity did not survive the wire"

/-- Why an action on an entity is refused. -/
inductive ActionFault where
  | unordered (type field : String)
  | noRule (field : String)
  | noDefault (field : String)
  | notList (type : String)
  | notClassMethod
  | notInstanceMethod
  | positionalContext
  | missingArgument (name : String)
  | notString (name : String)
  | notInteger (name : String)
  | idNotInteger
  | alreadyCreated
  | noMigration (id : Int)
deriving DecidableEq

def ActionFault.message : ActionFault → String
  | .unordered type field => s!"relationships for {type}.{field} are not in ascending order"
  | .noRule field => s!"No rule for {field}"
  | .noDefault field => s!"No default set for field {field}"
  | .notList type => s!"{type} is not a list type"
  | .notClassMethod => "not a class method"
  | .notInstanceMethod => "not an instance method"
  | .positionalContext => "Calling remotables with context is deprecated"
  | .missingArgument name => s!"missing argument '{name}'"
  | .notString name => s!"{name} must be a string"
  | .notInteger name => s!"{name} must be an integer"
  | .idNotInteger => "id is not an integer"
  | .alreadyCreated => "already created"
  | .noMigration id => "Migration " ++ Decimal.intText id ++ " could not be found"

inductive EntityError where
  | unsupportedType (type : String)
  | incompatibleVersion (type : String) (requested supported : Version)
  | attributeNotSet (type field : String)
  | unknownField (type field : String)
  | orphanedEntity (method type : String)
  | action (verb : String) (fault : ActionFault)
  | invalidValue (field : String) (fault : ValueFault)
  | invalidVersion (text : String)
  | malformed (fault : Malformation)
  | unknownMethod (type method : String)
  | transport (text : String)
  | alreadyInitialized
deriving DecidableEq

def EntityError.message : EntityError → String
  | .unsupportedType type => s!"Unsupported object type {type}"
  | .incompatibleVersion type requested supported =>
    s!"Version {requested.text} of {type} is not supported, supported version is {supported.text}"
  | .attributeNotSet type field => s!"Attribute '{field}' of {type} object is not set"
  | .unknownField type field => s!"{type} object has no attribute '{field}'"
  | .orphanedEntity method type => s!"Cannot call {method} on orphaned {type} object"
  | .action verb fault => s!"Object action {verb} failed because: {fault.message}"
  | .invalidValue field fault => s!"Invalid value for field '{field}': {fault.message}"
  | .invalidVersion text => s!"Invalid object version: '{text}'"
  | .malformed fault => s!"Malformed object primitive: {fault.message}"
  | .unknownMethod type method => s!"{type} has no method '{method}'"
  | .transport text => s!"Transport error: {text}"
  | .alreadyInitialized => "Object registry already initialized"

/-- The name of a cause, by which callers tell errors apart. -/
def EntityError.name : EntityError → String
  | .unsupportedType .. => "UnsupportedType"
  | .incompatibleVersion .. => "IncompatibleVersion"
  | .attributeNotSet .. => "AttributeNotSet"
  | .unknownField .. => "UnknownField"
  | .orphanedEntity .. => "OrphanedEntity"
  | .action .. => "ActionError"
  | .invalidValue .. => "InvalidValue"
  | .invalidVersion .. => "InvalidVersion"
  | .malformed .. => "MalformedPrimitive"
  | .unknownMethod .. => "UnknownMethod"
  | .transport .. => "Transport"
  | .alreadyInitialized => "AlreadyInitialized"

/-- A result of the entity model. -/
abbrev Outcome := Except EntityError

/-- The version that a text denotes. -/
def Version.ofText (s : String) : Outcome Version :=
  match Version.read? s with
  | some v => .ok v
  | none => .error (.invalidVersion s)

end Skew

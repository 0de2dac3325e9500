import Skew.Loopback
import Skew.Text

/-!
# Inspection texts

Texts that show the structure of values, schemas and nodes: every value with its
shape, strings quoted, maps in braces.
-/

namespace Skew

namespace Inspection

/-- Floats in such texts: positional from 1e-4 up to 1e16, whole numbers with a point. -/
def floatNotation : Decimal.Notation := ⟨-4, 16, true, false, .awayFromZero⟩

def boolText (b : Bool) : String := if b then "true" else "false"

def bracketed (texts : List String) : String := "[" ++ ", ".intercalate texts ++ "]"

def braced (texts : List String) : String := "\x7b" ++ ", ".intercalate texts ++ "\x7d"

/-- A name and named parts. -/
def record (name : String) (parts : List (String × String)) : String :=
  name ++ " \x7b " ++ ", ".intercalate (parts.map fun p => p.1 ++ ": " ++ p.2) ++ " \x7d"

def strings (texts : List String) : String := bracketed (texts.map Text.quoted)

def wrapped (shape text : String) : String := shape ++ "(" ++ text ++ ")"

end Inspection

open Inspection

mutual

def Value.inspect : Value → String
  | .null => "Null"
  | .bool b => wrapped "Bool" (boolText b)
  | .int n => wrapped "Int" (Decimal.intText n.toInt)
  | .float x => wrapped "Float" (floatNotation.text x)
  | .str s => wrapped "Str" (Text.quoted s)
  | .datetime t => wrapped "DateTime" t.fullText
  | .list vs => wrapped "List" (bracketed (Value.inspectItems vs))
  | .tuple vs => wrapped "Tuple" (bracketed (Value.inspectItems vs))
  | .set vs => wrapped "Set" (bracketed (Value.inspectItems vs))
  | .map es => wrapped "Map" (braced (Value.inspectEntries es))
  | .entity e => wrapped "Entity" (Entity.inspect e)

def Value.inspectItems : List Value → List String
  | [] => []
  | v :: vs => v.inspect :: Value.inspectItems vs

def Value.inspectEntries : List (String × Value) → List String
  | [] => []
  | (n, v) :: es => (Text.quoted n ++ ": " ++ v.inspect) :: Value.inspectEntries es

def Entity.inspect : Entity → String
  | ⟨schema, version, _, values, changed⟩ =>
    record "Entity"
      [("type", Text.quoted schema.name), ("version", Text.quoted version.text),
        ("values", braced (Value.inspectEntries values)),
        ("changed", braced (changed.map Text.quoted))]

end

def Schema.inspect (s : Schema) : String :=
  record "TypeDefinition"
    [("name", Text.quoted s.name), ("version", Text.quoted s.version.text),
      ("fields", strings s.fieldNames), ("methods", strings (Record.names s.methods))]

def SkewPolicy.inspect (p : SkewPolicy) : String :=
  record "SerializerConfig"
    [("tolerate_patch_skew", boolText p.toleratePatch),
      ("request_backport", boolText p.requestBackport)]

variable {σ : Type}

def Endpoint.inspect (n : Endpoint σ) : String :=
  record "WireSerializer"
    [("types", Decimal.natText n.registry.size), ("backport", boolText n.authority?.isSome),
      ("config", n.policy.inspect)]

def Conductor.inspect (k : Conductor σ) : String :=
  record "LoopbackConductor" [("client", k.client.inspect), ("server", k.server.inspect)]

def Dispatcher.inspect (d : Dispatcher σ) : String :=
  record "Dispatcher"
    [("types", Decimal.natText d.registry.size), ("remote", boolText d.transport?.isSome)]

end Skew

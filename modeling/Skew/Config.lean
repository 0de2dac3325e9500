import Skew.Toml.Reader

/-!
# Configuration

A configuration is a document with a log level and a table for the serializer. What
is missing has its standard value, and other keys do not matter. The serializer's
settings may also be given as an array, in the order in which they are written here.
-/

namespace Skew

/-- What an endpoint does about versions it does not know. -/
structure SkewPolicy where
  /-- read data without its patch -/
  toleratePatch : Bool
  /-- ask an authority for an older version -/
  requestBackport : Bool
deriving DecidableEq

def SkewPolicy.standard : SkewPolicy := ⟨true, true⟩

structure Config where
  logLevel : String
  policy : SkewPolicy
deriving DecidableEq

inductive ConfigError where
  /-- the text is no document, or a value has the wrong type -/
  | unreadable
  | unknownLevel (level : String)
deriving DecidableEq

namespace Config

def logLevels : List String := ["trace", "debug", "info", "warn", "error"]

def standard : Config := ⟨"info", .standard⟩

def logLevelKey : String := "log_level"
def serializerKey : String := "serializer"
def toleratePatchKey : String := "tolerate_patch_skew"
def requestBackportKey : String := "request_backport"

/-! ## Reading -/

/-- A switch that is given, or on. -/
def switch? : Option Toml.Value → Option Bool
  | none => some true
  | some (.bool b) => some b
  | some _ => none

/-- The settings of a table, given by what stands under each key. -/
def policyOf? (setting : String → Option Toml.Value) : Option SkewPolicy := do
  some ⟨← switch? (setting toleratePatchKey), ← switch? (setting requestBackportKey)⟩

/-- The value under a key of a table; anything that is not a plain value stands for a
value of the wrong type. -/
def setting (t : Toml.Table) (key : String) : Option Toml.Value :=
  match Toml.find? t key with
  | none => none
  | some (.value v) => some v
  | some _ => some (.array [])

def policy? : Option Toml.Item → Option SkewPolicy
  | none => some .standard
  | some (.table _ t) => policyOf? (setting t)
  | some (.value (.inline _ es)) => policyOf? (Toml.find? es)
  | some (.value (.array vs)) => do some ⟨← switch? vs[0]?, ← switch? vs[1]?⟩
  | some (.value .datetime) => some .standard
  | some _ => none

def logLevel? : Option Toml.Item → Option String
  | none => some standard.logLevel
  | some (.value (.str s)) => some s
  | some _ => none

def ofTable? (t : Toml.Table) : Option Config := do
  some ⟨← logLevel? (Toml.find? t logLevelKey), ← policy? (Toml.find? t serializerKey)⟩

/-- Levels are known in any case of letters. -/
def knowsLevel (level : String) : Bool :=
  String.ofList (level.toList.map Char.toLower) ∈ logLevels

/-- Reads and checks a configuration. -/
def read (text : String) : Except ConfigError Config :=
  match (Toml.read? text).bind ofTable? with
  | none => .error .unreadable
  | some c => if knowsLevel c.logLevel then .ok c else .error (.unknownLevel c.logLevel)

/-! ## Writing -/

def boolText (b : Bool) : String := if b then "true" else "false"

/-- The document of a configuration. -/
def text (c : Config) : String :=
  logLevelKey ++ " = \"" ++ c.logLevel ++ "\"\n\n[" ++ serializerKey ++ "]\n"
    ++ toleratePatchKey ++ " = " ++ boolText c.policy.toleratePatch ++ "\n"
    ++ requestBackportKey ++ " = " ++ boolText c.policy.requestBackport ++ "\n"

end Config

def ConfigError.message : ConfigError → String
  | .unreadable => "TOML parse error"
  | .unknownLevel level =>
    s!"Invalid configuration: Unknown log level '{level}' (expected one of "
      ++ ", ".intercalate Config.logLevels ++ ")"

end Skew

import Skew.Catalog.Schemas
import Skew.Cli.Help
import Skew.Config
import Skew.Endpoint
import Skew.Entity.Plain
import Skew.Json.Reader

/-!
# Reports

What a command prints, and whether it fails. A command sees files by their contents;
what it writes is part of the report and is carried out afterwards.
-/

namespace Skew.Cli

/-- The contents of the files a command may read. -/
abbrev Files := String → Option String

structure Report where
  output : String
  error? : Option String
  /-- a file to be written before anything is printed -/
  save? : Option (String × String)

namespace Report

def done (output : String) : Report := ⟨output, none, none⟩

def failed (output message : String) : Report := ⟨output, some message, none⟩

/-- The report of a command whose file could not be written. -/
def unsaved (path : String) : Report := failed "" s!"Failed to write {path}"

/-- The exit code. -/
def code (r : Report) : Nat := if r.error?.isSome then 1 else 0

end Report

/-- A step of a command: it goes on with what was found, or ends with a message. -/
abbrev Try := Except String

def Try.ofOutcome {α : Type} (r : Outcome α) : Try α := r.mapError EntityError.message

/-- The catalog; its schemas need no store here. -/
def knownTypes : Try Registry := Try.ofOutcome (Catalog.registry "")

def readConfig (files : Files) (path failure : String) : Try Config :=
  match files path with
  | none => .error failure
  | some text => (Config.read text).mapError fun _ => failure

def readDocument (files : Files) (path : String) : Try Json :=
  match files path with
  | none => .error s!"Failed to read {path}"
  | some text =>
    match Json.read? text with
    | some j => .ok j
    | none => .error s!"{path} is not valid JSON"

def lines (ls : List String) : String := String.join (ls.map (· ++ "\n"))

/-! ## Listing types -/

def fieldLine (name : String) (f : Field) : String :=
  "  " ++ name ++ ": " ++ f.kind.describe ++ if f.isNullable then "?" else ""

def methodLine (name : String) (m : Method) : String :=
  let scope := match m.scope with
    | .ofClass => "class"
    | .ofInstance => "instance"
  "  " ++ name ++ "() (" ++ scope ++ (if m.remotable then ", remotable" else "") ++ ")"

def typeLines (r : Registry) (name : String) : List String :=
  let newest := match r.latest name with
    | .ok s =>
      s.fields.map (fun f => fieldLine f.1 f.2) ++ s.methods.map fun m => methodLine m.1 m.2
    | .error _ => []
  (name ++ " [" ++ ", ".intercalate ((r.versions name).map Version.text) ++ "]") :: newest

def listTypes (name? : Option String) : Try String := do
  let r ← knownTypes
  match name? with
  | none => .ok (lines (r.typeNames.flatMap (typeLines r)))
  | some name =>
    if r.contains name then .ok (lines (typeLines r name)) else .error s!"Unknown type '{name}'"

/-! ## Inspecting -/

section Inspecting

variable [Codecs]

/-- What is printed of an entity before its plain document. -/
def entityLines (e : Entity) : String :=
  lines
    ["type:    " ++ e.typeName, "version: " ++ e.version.text,
      "changed: " ++ ", ".intercalate e.whatChanged]

/-- The entity that a file holds. -/
def readEntity (files : Files) (path : String) (policy : SkewPolicy) : Try Entity := do
  let j ← readDocument files path
  let n : Endpoint Unit := { registry := ← knownTypes, authority? := none, policy }
  match ← Try.ofOutcome (n.deserialize none j ()).1 with
  | .entity e => .ok e
  | _ => .error s!"{path} does not contain an object primitive"

def inspectFile (files : Files) (path : String) (policy : SkewPolicy) : Report :=
  match readEntity files path policy with
  | .error message => .failed "" message
  | .ok e =>
    match e.plain with
    | .ok j => .done (entityLines e ++ j.pretty ++ "\n")
    | .error err => .failed (entityLines e) err.message

/-! ## Backporting -/

def backportFile (files : Files) (path targetText : String) : Try String := do
  let target ← Try.ofOutcome (Version.ofText targetText)
  let j ← readDocument files path
  let e ← Try.ofOutcome (Entity.ofJson (← knownTypes) none j)
  if e.version.release < target.release then
    throw s!"Cannot backport {e.typeName} {e.version.text} to newer version {target.text}"
  let p ← Try.ofOutcome (e.writeFor (some target))
  .ok (p.toJson.pretty ++ "\n")

end Inspecting

/-! ## Configurations -/

def checkConfig (files : Files) (path : String) : Try String := do
  let c ← readConfig files path s!"Invalid configuration {path}"
  .ok (lines
    ["Configuration is valid", "  log_level: " ++ c.logLevel,
      "  tolerate_patch_skew: " ++ Config.boolText c.policy.toleratePatch,
      "  request_backport: " ++ Config.boolText c.policy.requestBackport])

def writeConfig (output? : Option String) : Report :=
  match output? with
  | none => .done Config.standard.text
  | some path =>
    ⟨lines ["Generated configuration: " ++ path], none, some (path, Config.standard.text)⟩

/-! ## Commands -/

def Report.ofTry (r : Try String) : Report :=
  match r with
  | .ok output => .done output
  | .error message => .failed "" message

/-- The files that a command reads. -/
def Invocation.files (i : Invocation) : List String :=
  i.config?.toList ++ match i.command with
    | .inspect file | .backport file _ | .validateConfig file => [file]
    | .types _ | .genConfig _ => []

def Command.report [Codecs] (c : Command) (files : Files) (config : Config) : Report :=
  match c with
  | .types name? => .ofTry (listTypes name?)
  | .inspect file => inspectFile files file config.policy
  | .backport file target => .ofTry (backportFile files file target)
  | .genConfig output? => writeConfig output?
  | .validateConfig file => .ofTry (checkConfig files file)

/-- What comes of an invocation. The configuration is read before all else. -/
def Invocation.report [Codecs] (i : Invocation) (files : Files) : Report :=
  match i.config? with
  | none => i.command.report files .standard
  | some path =>
    match readConfig files path s!"Failed to load {path}" with
    | .error message => .failed "" message
    | .ok config => i.command.report files config

end Skew.Cli

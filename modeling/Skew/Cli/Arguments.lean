/-!
# Command lines

What the words of a command line ask for. Options stand before or behind the name of
the command, with the value behind an equals sign or as the next word; a word that
starts with a hyphen is never a value by itself. Each level takes an option once.
Behind a double hyphen every word counts as it stands.

A value in the same word as its option is looked at when it is read. One in a word of
its own waits until the next argument of its level begins or the level ends; what stands
in front of a command waits until the words of the command are read.

A request for help or for the version counts as soon as it is read, if nothing is wrong
with what was looked at before it.
-/

namespace Skew.Cli

inductive Command where
  | types (name? : Option String)
  | inspect (file : String)
  | backport (file target : String)
  | genConfig (output? : Option String)
  | validateConfig (file : String)
deriving DecidableEq

structure Invocation where
  config? : Option String
  logLevel? : Option String
  command : Command
deriving DecidableEq

/-- The names of commands, which is also what help is about. -/
inductive Topic where
  | types
  | inspect
  | backport
  | genConfig
  | validateConfig
  | help
deriving DecidableEq

inductive Request where
  | run (invocation : Invocation)
  /-- help about a command, or about all of them -/
  | help (topic? : Option Topic)
  | version
  /-- not a command line -/
  | misuse
deriving DecidableEq

def Topic.ofName? : String → Option Topic
  | "types" => some .types
  | "inspect" => some .inspect
  | "backport" => some .backport
  | "gen-config" => some .genConfig
  | "validate-config" => some .validateConfig
  | "help" => some .help
  | _ => none

/-! ## Words -/

/-- An option that takes a value. -/
structure ValueOption where
  long : String
  short? : Option Char
  /-- the empty text is a value -/
  allowsEmpty : Bool

def configOption : ValueOption := ⟨"config", some 'c', false⟩
def logLevelOption : ValueOption := ⟨"log-level", none, true⟩
def toOption : ValueOption := ⟨"to", none, true⟩
def outputOption : ValueOption := ⟨"output", some 'o', false⟩

/-- What the words of a level that are no options stand for. -/
inductive Operand where
  | nothing
  /-- a command, with the words behind it -/
  | command
  /-- one name, which may be empty -/
  | name
  /-- one file, whose name is not empty -/
  | file
deriving DecidableEq

/-- The word can be the operand. -/
def Operand.admits : Operand → String → Bool
  | .name, _ => true
  | .file, w => !w.isEmpty
  | .nothing, _ | .command, _ => false

def ValueOption.admits (o : ValueOption) (v : String) : Bool := o.allowsEmpty || !v.isEmpty

/-- What one level of the command line takes. -/
structure Level where
  options : List ValueOption
  operand : Operand
  hasVersion : Bool

def Topic.level : Topic → Level
  | .types => ⟨[configOption, logLevelOption], .name, false⟩
  | .inspect => ⟨[configOption, logLevelOption], .file, false⟩
  | .backport => ⟨[toOption, configOption, logLevelOption], .file, false⟩
  | .genConfig => ⟨[outputOption, configOption, logLevelOption], .nothing, false⟩
  | .validateConfig => ⟨[configOption, logLevelOption], .file, false⟩
  | .help => ⟨[], .nothing, false⟩

def rootLevel : Level := ⟨[configOption, logLevelOption], .command, true⟩

/-- An argument that was given. -/
inductive Argument where
  | option (o : ValueOption) (value : String)
  | operand (word : String)

/-- What the words of one level gave. -/
structure Found where
  values : List (String × String)
  operand? : Option String
  /-- the argument that is yet to be looked at -/
  pending? : Option Argument

def Found.none : Found := ⟨[], .none, .none⟩

def Found.value? (f : Found) (o : ValueOption) : Option String := f.values.lookup o.long

/-- Takes in an argument. An option may come once, and so may the operand. -/
def Level.take? (l : Level) (f : Found) : Argument → Option Found
  | .option o v =>
    if (f.value? o).isNone && o.admits v then some { f with values := f.values ++ [(o.long, v)] }
    else none
  | .operand w =>
    if f.operand?.isNone && l.operand.admits w then some { f with operand? := some w } else none

/-- Looks at the argument that waits. -/
def Level.settle? (l : Level) (f : Found) : Option Found :=
  match f.pending? with
  | none => some f
  | some a => l.take? { f with pending? := none } a

/-- How the reading of one level ended. -/
inductive LevelEnd where
  /-- nothing is left, and nothing waits -/
  | words (found : Found)
  /-- the name of a command, and the words behind it; what waits is not looked at -/
  | command (found : Found) (name : String) (rest : List String)
  | help
  | version
  | misuse

/-- The word is an option by its looks: a hyphen and something behind it. -/
def looksLikeOption (w : String) : Bool :=
  match w.toList with
  | '-' :: _ :: _ => true
  | _ => false

/-- What a word means where options are read. -/
inductive Word where
  | help
  | version
  /-- an option with its value, or one whose value is the next word -/
  | option (o : ValueOption) (value? : Option String)
  | unknown
  | operand

/-- The value that stands in the same word as a short option. -/
def attachedValue? : List Char → Option String
  | [] => none
  | '=' :: v => some (String.ofList v)
  | v => some (String.ofList v)

def Level.readLong (l : Level) (body : List Char) : Word :=
  let name := String.ofList (body.takeWhile (· ≠ '='))
  let value? := match body.dropWhile (· ≠ '=') with
    | [] => none
    | _ :: v => some (String.ofList v)
  match l.options.find? (·.long = name) with
  | some o => .option o value?
  | none =>
    if value?.isSome then .unknown
    else if name = "help" then .help
    else if name = "version" ∧ l.hasVersion then .version
    else .unknown

def Level.readShort (l : Level) (c : Char) (rest : List Char) : Word :=
  match l.options.find? (·.short? = some c) with
  | some o => .option o (attachedValue? rest)
  | none => if c = 'h' then .help else if c = 'V' ∧ l.hasVersion then .version else .unknown

def Level.readWord (l : Level) (w : String) : Word :=
  match w.toList with
  | '-' :: '-' :: body => l.readLong body
  | '-' :: c :: rest => l.readShort c rest
  | _ => .operand

def Level.finish (l : Level) (f : Found) : LevelEnd :=
  match l.settle? f with
  | some f => .words f
  | none => .misuse

/-- Takes the words behind a double hyphen as they stand. -/
def Level.readPlain (l : Level) : Found → List String → LevelEnd
  | f, [] => l.finish f
  | f, w :: ws =>
    match l.settle? f with
    | some f => l.readPlain { f with pending? := some (.operand w) } ws
    | none => .misuse

/-- Reads the words of one level. -/
def Level.read (l : Level) : Found → List String → LevelEnd
  | f, [] => l.finish f
  | f, w :: ws =>
    if w = "--" then l.readPlain f ws
    else match l.readWord w, l.operand with
      | .operand, .command => .command f w ws
      | word, _ =>
        match l.settle? f, word with
        | none, _ => .misuse
        | some _, .help => .help
        | some _, .version => .version
        | some _, .unknown => .misuse
        | some f, .operand => l.read { f with pending? := some (.operand w) } ws
        | some f, .option o (some v) =>
          match l.take? f (.option o v) with
          | some f => l.read f ws
          | none => .misuse
        | some f, .option o none =>
          match ws with
          | v :: ws =>
            if looksLikeOption v then .misuse
            else l.read { f with pending? := some (.option o v) } ws
          | [] => .misuse

/-! ## Requests -/

/-- The command of a topic; what it needs must be there. -/
def Topic.command? (t : Topic) (f : Found) : Option Command :=
  match t, f.operand? with
  | .types, name? => some (.types name?)
  | .inspect, some file => some (.inspect file)
  | .backport, some file => (f.value? toOption).map (.backport file)
  | .genConfig, _ => some (.genConfig (f.value? outputOption))
  | .validateConfig, some file => some (.validateConfig file)
  | .help, _ => none
  | _, none => none

/-- Reads the words of a command. Its own value of a common option counts before the
one that stood in front of it. -/
def readCommand (t : Topic) (outer : Found) (ws : List String) : Request :=
  match t.level.read .none ws with
  | .help => .help (some t)
  | .words f =>
    match t.command? f, rootLevel.settle? outer with
    | some c, some outer =>
      .run ⟨f.value? configOption <|> outer.value? configOption,
        f.value? logLevelOption <|> outer.value? logLevelOption, c⟩
    | _, _ => .misuse
  | _ => .misuse

/-- Reads what help is asked about. -/
def readHelp : List String → Request
  | [] => .help none
  | [name] =>
    match Topic.ofName? name with
    | some t => .help (some t)
    | none => .misuse
  | _ => .misuse

/-- The request of a command line. -/
def Request.ofWords (ws : List String) : Request :=
  match rootLevel.read .none ws with
  | .help => .help none
  | .version => .version
  | .command f name rest =>
    match Topic.ofName? name with
    | some .help => readHelp rest
    | some t => readCommand t f rest
    | none => .misuse
  | .words _ => .misuse
  | .misuse => .misuse

end Skew.Cli

import Skew.Cli.Report

/-!
# Commands in a directory

A directory has a place in the file system and holds files with their contents. A command
that runs in one gives an exit code, what it prints, the first line of its complaint, and
the directory as it leaves it.

A path is walked part by part, from the root or from the directory on, and every part but
the last has to lead to a directory: nothing lies below a file, not even the file itself.
Beyond the directory only the usual directories of a system and a few devices are known.
Files can be made in the directory and in those around it.
-/

namespace Skew.Cli

/-- The parts of a path from the root on. -/
abbrev Parts := List String

structure Directory where
  /-- where the directory lies -/
  location : Parts
  /-- the files with their contents, those written last first -/
  files : List (Parts × String)

/-- What stands for no file, though it has a name. There is nothing to read. -/
inductive Device where
  /-- what is written there is lost -/
  | sink
  /-- what is written there joins what is printed -/
  | output

/-- Where a path leads. -/
inductive Place where
  | directory (parts : Parts)
  | file (parts : Parts) (text : String)
  | device (device : Device)
  /-- a name that is free, where files can be made -/
  | free (parts : Parts)

namespace Directory

/-- Parts that do not lead anywhere else. -/
def isIdle (part : String) : Bool := part = "" || part = "."

/-- A directory for temporary use that holds the given files. -/
def ofFiles (files : List (String × String)) : Directory :=
  let location := ["tmp", "work"]
  ⟨location, files.map fun f => (location ++ (f.1.splitOn "/").filter (!isIdle ·), f.2)⟩

/-- The directories below the root that a system has. -/
def usual : List String :=
  ["bin", "boot", "dev", "etc", "home", "lib", "media", "mnt", "opt", "proc", "root", "run", "sbin",
    "srv", "sys", "tmp", "usr", "var"]

/-- The devices that a system has. -/
def device? : Parts → Option Device
  | ["dev", "null"] | ["dev", "stdin"] | ["dev", "stderr"] => some .sink
  | ["dev", "stdout"] => some .output
  | _ => none

def isDirectory (d : Directory) (parts : Parts) : Bool :=
  parts.isPrefixOf d.location || d.files.any (parts.isPrefixOf ·.1)
    || usual.any fun name => parts = [name]

/-- Files can be made in a directory that lies around the directory, or within. -/
def canMakeIn (d : Directory) (parts : Parts) : Bool :=
  parts.isPrefixOf d.location || d.location.isPrefixOf parts

/-- What has the name, in a directory. -/
def find? (d : Directory) (parts : Parts) : Option Place :=
  match d.files.lookup parts, device? parts with
  | some text, _ => some (.file parts text)
  | none, some device => some (.device device)
  | none, none =>
    if d.isDirectory parts then some (.directory parts)
    else if d.canMakeIn parts.dropLast then some (.free parts)
    else none

/-- A name has at most 255 bytes. -/
def isName (part : String) : Bool := part.utf8ByteSize ≤ 255

/-- Goes on by one part. Above the root is the root. -/
def step? (d : Directory) (place : Place) (part : String) : Option Place :=
  match place with
  | .directory parts =>
    if isIdle part then some place
    else if part = ".." then some (.directory parts.dropLast)
    else if isName part then d.find? (parts ++ [part])
    else none
  | _ => none

/-- Where a path leads. It has less than 4096 bytes. -/
def place? (d : Directory) (path : String) : Option Place :=
  if path = "" || 4096 ≤ path.utf8ByteSize then none
  else
    let start := if path.startsWith "/" then [] else d.location
    (path.splitOn "/").foldlM d.step? (.directory start)

def read? (d : Directory) (path : String) : Option String :=
  match d.place? path with
  | some (.file _ text) => some text
  | some (.device .sink) => some ""
  | _ => none

/-- Writes a file: what is printed by that, and the directory afterwards; `none` if the
file cannot be written. -/
def write? (d : Directory) (path text : String) : Option (String × Directory) :=
  match d.place? path with
  | some (.file parts _) | some (.free parts) =>
    some ("", { d with files := (parts, text) :: d.files })
  | some (.device .sink) => some ("", d)
  | some (.device .output) => some (text, d)
  | some (.directory _) | none => none

end Directory

structure Result where
  code : Nat
  output : String
  complaint? : Option String
  directory : Directory

def firstLine (s : String) : String :=
  let line := s.toList.takeWhile (· ≠ '\n')
  String.ofList (if line.getLast? = some '\r' then line.dropLast else line)

def Report.result (r : Report) (d : Directory) : Result :=
  ⟨r.code, r.output, r.error?.map firstLine, d⟩

/-- Carries out a report. -/
def Report.carryOutIn (r : Report) (d : Directory) : Result :=
  match r.save? with
  | none => r.result d
  | some (path, text) =>
    match d.write? path text with
    | some (printed, d) => { r with output := printed ++ r.output }.result d
    | none => (unsaved path).result d

/-- Runs a command line. What cannot be understood ends with the code 2 and prints
nothing. -/
def Request.perform [Codecs] (r : Request) (d : Directory) : Result :=
  match r with
  | .run i => (i.report d.read?).carryOutIn d
  | .help topic? => ⟨0, helpText topic?, none, d⟩
  | .version => ⟨0, versionText, none, d⟩
  | .misuse => ⟨2, "", none, d⟩

end Skew.Cli

import Skew.Cli.Report

/-!
# The command line tool

Reads the files a command needs, and carries out its report. There are no custom
kinds here.
-/

namespace Skew.Cli

/-- A codec that takes nothing. -/
def noCodec : Codec := ⟨fun _ => .error "", fun _ => .error "", fun _ => .error ""⟩

abbrev noCodecs : Codecs := ⟨fun _ => noCodec⟩

def readFile? (path : String) : IO (Option String) := do
  try some <$> IO.FS.readFile path catch _ => pure none

/-- The files of the given names, as far as they can be read. -/
def readFiles (paths : List String) : IO Files := do
  let contents ← paths.mapM fun path => do pure (path, ← readFile? path)
  pure fun path => (contents.lookup path).join

/-- Carries out a report; gives the exit code. -/
def carryOut (r : Report) : IO UInt32 := do
  let r ← match r.save? with
    | none => pure r
    | some (path, text) => try IO.FS.writeFile path text; pure r catch _ => pure (.unsaved path)
  IO.print r.output
  match r.error? with
  | some message => IO.eprintln ("Error: " ++ message)
  | none => pure ()
  pure (UInt32.ofNat r.code)

def run (words : List String) : IO UInt32 := do
  match Request.ofWords words with
  | .run i => carryOut (@Invocation.report noCodecs i (← readFiles i.files))
  | .help topic? =>
    IO.print (helpText topic?)
    pure 0
  | .version =>
    IO.print versionText
    pure 0
  | .misuse =>
    IO.eprint rootHelp
    pure 2

end Skew.Cli

def main (words : List String) : IO UInt32 := Skew.Cli.run words

import Skew.Json.Basic
import Skew.Decimal.Notation
import Skew.Text

/-!
# Writing documents

A document is written compactly, or with one member or item to a line and two
spaces of indentation for each depth. Strings escape the quote, the backslash
and the control characters below the space, everything else stands as it is.
-/

namespace Skew.Json

open Skew.Decimal (intText)
open Skew.Text (hexDigit)

/-- Floats of documents: positional from 1e-5 up to 1e16, a whole number keeps a
point, an exponent shows its sign, and of two nearest digits the even one is taken. -/
def floatNotation : Decimal.Notation := ⟨-5, 16, true, true, .toEven⟩

def escapeChar (c : Char) : List Char :=
  if c = '"' then ['\\', '"']
  else if c = '\\' then ['\\', '\\']
  else if c = '\n' then ['\\', 'n']
  else if c = '\r' then ['\\', 'r']
  else if c = '\t' then ['\\', 't']
  else if c = '\x08' then ['\\', 'b']
  else if c = '\x0c' then ['\\', 'f']
  else if c.toNat < 32 then ['\\', 'u', '0', '0', hexDigit (c.toNat / 16), hexDigit (c.toNat % 16)]
  else [c]

def quote (s : String) : String :=
  String.ofList ('"' :: s.toList.flatMap escapeChar ++ ['"'])

def boolText (b : Bool) : String := if b then "true" else "false"

def commaSeparated (texts : List String) : String := ",".intercalate texts

mutual

def compact : Json → String
  | .null => "null"
  | .bool b => boolText b
  | .int n => intText n
  | .float x => floatNotation.text x
  | .str s => quote s
  | .arr js => "[" ++ commaSeparated (compactItems js) ++ "]"
  | .obj ms => "\x7b" ++ commaSeparated (compactMembers ms) ++ "\x7d"

def compactItems : List Json → List String
  | [] => []
  | j :: js => compact j :: compactItems js

def compactMembers : List (String × Json) → List String
  | [] => []
  | (k, j) :: ms => (quote k ++ ":" ++ compact j) :: compactMembers ms

end

def indent (depth : Nat) : String := String.ofList (List.replicate (2 * depth) ' ')

/-- Brackets around lines at the next depth; nothing between them if there are none. -/
def block (depth : Nat) (opening closing : String) (lines : List String) : String :=
  if lines.isEmpty then opening ++ closing
  else
    opening ++ "\n" ++ indent (depth + 1) ++ (",\n" ++ indent (depth + 1)).intercalate lines
      ++ "\n" ++ indent depth ++ closing

mutual

/-- The indented form, for a document that stands at the given depth. -/
def prettyAt (depth : Nat) : Json → String
  | .null => "null"
  | .bool b => boolText b
  | .int n => intText n
  | .float x => floatNotation.text x
  | .str s => quote s
  | .arr js => block depth "[" "]" (prettyItems (depth + 1) js)
  | .obj ms => block depth "\x7b" "\x7d" (prettyMembers (depth + 1) ms)

def prettyItems (depth : Nat) : List Json → List String
  | [] => []
  | j :: js => prettyAt depth j :: prettyItems depth js

def prettyMembers (depth : Nat) : List (String × Json) → List String
  | [] => []
  | (k, j) :: ms => (quote k ++ ": " ++ prettyAt depth j) :: prettyMembers depth ms

end

def pretty (j : Json) : String := prettyAt 0 j

end Skew.Json

import Skew.Text

/-!
# UUIDs

A UUID is read from 32 hexadecimal digits, with or without hyphens; the
hyphenated form may stand in braces or behind `urn:uuid:`. Letters count in either case.
It is written in lower case with hyphens.
-/

namespace Skew.Format

open Skew.Text (hexValue? hexDigit)

namespace Uuid

/-- Lengths of the groups between hyphens. -/
def groups : List Nat := [8, 4, 4, 4, 12]

/-- Takes the groups off a hyphenated text; gives the digits without hyphens. -/
def ungroup? : List Nat → List Char → Option (List Char)
  | [], s => if s.isEmpty then some [] else none
  | [n], s => if s.length = n then some s else none
  | n :: more, s =>
    match s.drop n with
    | '-' :: rest => (ungroup? more rest).map (s.take n ++ ·)
    | _ => none

def regroup : List Nat → List Char → List Char
  | [], s => s
  | [_], s => s
  | n :: more, s => s.take n ++ '-' :: regroup more (s.drop n)

/-- What stands before a UUID that is written as a name. -/
def scheme : List Char := "urn:uuid:".toList

def unwrap (s : List Char) : List Char :=
  if (s.take 9).map Char.toLower = scheme ∧ s.length = 45 then s.drop 9
  else if s.head? = some '{' ∧ s.getLast? = some '}' ∧ s.length = 38 then (s.drop 1).dropLast
  else s

/-- The 32 digits of a UUID text. -/
def digits? (s : List Char) : Option (List Nat) :=
  let plain? := if s.length = 32 then some s else ungroup? groups (unwrap s)
  match plain? with
  | some ds => ds.mapM hexValue?
  | none => none

/-- The written form of the UUID that a text denotes. -/
def normalize? (s : String) : Option String :=
  (digits? s.toList).map fun ds => String.ofList (regroup groups (ds.map hexDigit))

end Uuid

end Skew.Format

import Skew.Text
import Skew.Decimal.Notation
import Skew.Decimal.Reading

/-!
# Internet addresses

Version 4 addresses are four decimal numbers below 256 without leading zeros.
Version 6 addresses are eight groups of up to four hexadecimal digits, where one
`::` may stand for one or more zero groups and the last two groups may be written
as a version 4 address.

Addresses are written in canonical form: lower case, no leading zeros, the first
longest run of at least two zero groups as `::`, and addresses that embed a
version 4 address with its four numbers.
-/

namespace Skew.Format

open Skew.Decimal (isDigit ofDigits natText)
open Skew.Text (hexValue? hexText ofHex)

inductive Address where
  | v4 (parts : List Nat)
  | v6 (groups : List Nat)
deriving DecidableEq, Repr

namespace Address

/-! ## Reading -/

/-- A decimal number below 256 at the start of the text. -/
def readByte? (s : List Char) : Option (Nat × List Char) :=
  let ds := s.takeWhile isDigit
  let n := ofDigits 0 ds
  if ds.isEmpty || 3 < ds.length || 255 < n || (ds.head? = some '0' && 1 < ds.length) then none
  else some (n, s.drop ds.length)

/-- Reads `count` more numbers, each behind a point. -/
def readBytes? : Nat → List Char → Option (List Nat × List Char)
  | 0, s => some ([], s)
  | count + 1, '.' :: s => do
    let (n, s) ← readByte? s
    let (ns, s) ← readBytes? count s
    some (n :: ns, s)
  | _ + 1, _ => none

def readV4? (s : List Char) : Option (List Nat × List Char) := do
  let (n, s) ← readByte? s
  let (ns, s) ← readBytes? 3 s
  some (n :: ns, s)

/-- A group of one to four hexadecimal digits. -/
def readGroup? (s : List Char) : Option (Nat × List Char) :=
  let ds := s.takeWhile fun c => (hexValue? c).isSome
  if ds.isEmpty || 4 < ds.length then none
  else some (ofHex ds, s.drop ds.length)

/-- The colon before every group but the first. -/
def readColon? (first : Bool) (s : List Char) : Option (List Char) :=
  if first then some s
  else match s with
    | ':' :: r => some r
    | _ => none

/-- Two groups made of the four numbers of a version 4 address. -/
def embedded : List Nat → List Nat
  | [a, b, c, d] => [256 * a + b, 256 * c + d]
  | ns => ns

/-- Up to `room` groups, the last two perhaps as a version 4 address; also tells
whether they were. -/
def readGroups : Nat → Bool → List Char → List Nat × Bool × List Char
  | 0, _, s => ([], false, s)
  | room + 1, first, s =>
    let dotted := if room = 0 then none else readColon? first s >>= readV4?
    match dotted with
    | some (ns, r) => (embedded ns, true, r)
    | none =>
      match readColon? first s >>= readGroup? with
      | some (n, r) =>
        let (ns, dotted, r) := readGroups room false r
        (n :: ns, dotted, r)
      | none => ([], false, s)

def readV6? (s : List Char) : Option (List Nat × List Char) :=
  let (head, dotted, r) := readGroups 8 true s
  if head.length = 8 then some (head, r)
  else if dotted then none
  else match r with
    | ':' :: ':' :: r =>
      let (tail, _, r) := readGroups (7 - head.length) true r
      some (head ++ List.replicate (8 - head.length - tail.length) 0 ++ tail, r)
    | _ => none

def read? (s : String) : Option Address :=
  match readV4? s.toList with
  | some (ns, []) => some (.v4 ns)
  | some _ => none
  | none =>
    match readV6? s.toList with
    | some (gs, []) => some (.v6 gs)
    | _ => none

/-! ## Writing -/

def v4Text (parts : List Nat) : String := ".".intercalate (parts.map natText)

def groupsText (gs : List Nat) : String := ":".intercalate (gs.map hexText)

/-- Length of the run of zeros at the start. -/
def zeroRun (gs : List Nat) : Nat := (gs.takeWhile (· = 0)).length

/-- Start and length of the first longest run of zeros. -/
def longestRun (gs : List Nat) : Nat × Nat :=
  (List.range gs.length).foldl
    (fun best i => if best.2 < zeroRun (gs.drop i) then (i, zeroRun (gs.drop i)) else best) (0, 0)

def v6Text (gs : List Nat) : String :=
  match gs with
  | [0, 0, 0, 0, 0, 0xffff, a, b] => "::ffff:" ++ v4Text [a / 256, a % 256, b / 256, b % 256]
  | _ =>
    let (start, len) := longestRun gs
    if 1 < len then groupsText (gs.take start) ++ "::" ++ groupsText (gs.drop (start + len))
    else groupsText gs

def text : Address → String
  | .v4 parts => v4Text parts
  | .v6 groups => v6Text groups

end Address

/-- The canonical text of the address that a text denotes. -/
def normalizeAddress? (s : String) : Option String := (Address.read? s).map Address.text

end Skew.Format

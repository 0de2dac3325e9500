import Skew.Decimal.Notation
import Skew.Decimal.Reading

/-!
# Versions

A version is `MAJOR.MINOR` or `MAJOR.MINOR.PATCH`, each part a 32-bit number. A
new patch never changes what a peer can read, so most questions are asked of the
release alone, the pair of major and minor number. The full rank counts a
missing patch as zero.
-/

namespace Skew

structure Version where
  major : UInt32
  minor : UInt32
  patch? : Option UInt32
deriving DecidableEq

namespace Version

def hasPatch (v : Version) : Bool := v.patch?.isSome

/-- The version without its patch. -/
def truncated (v : Version) : Version := ⟨v.major, v.minor, none⟩

/-- The release as one number: releases are ordered by major, then by minor number. -/
def release (v : Version) : Nat := v.major.toNat * 4294967296 + v.minor.toNat

/-- The place in the full order, patch included. -/
def rank (v : Version) : Nat := v.release * 4294967296 + (v.patch?.getD 0).toNat

/-- The same numbers, where a missing patch is the patch zero. -/
def isExactly (v w : Version) : Bool := v.rank = w.rank

/-- A node that knows `v` can take data written at `requested`: the major numbers
agree and `v` is no older. -/
def accepts (v requested : Version) : Bool :=
  v.major = requested.major ∧ requested.rank ≤ v.rank

/-! ## Text -/

def text (v : Version) : String :=
  Decimal.natText v.major.toNat ++ "." ++ Decimal.natText v.minor.toNat ++
    match v.patch? with
    | some p => "." ++ Decimal.natText p.toNat
    | none => ""

/-- The pieces between points. -/
def splitParts : List Char → List (List Char)
  | [] => [[]]
  | c :: s =>
    if c = '.' then [] :: splitParts s
    else match splitParts s with
      | p :: ps => (c :: p) :: ps
      | [] => [[c]]

/-- One part: digits without a leading zero, at most 2³² - 1. -/
def readPart? (ds : List Char) : Option UInt32 :=
  if ds.isEmpty ∨ ¬ ds.all Decimal.isDigit ∨ (1 < ds.length ∧ ds.head? = some '0') then none
  else
    let n := Decimal.ofDigits 0 ds
    if n < 4294967296 then some (UInt32.ofNat n) else none

/-- Exactly the texts that `text` writes are read. -/
def read? (s : String) : Option Version :=
  match splitParts s.toList with
  | [x, y] => do some ⟨← readPart? x, ← readPart? y, none⟩
  | [x, y, z] => do some ⟨← readPart? x, ← readPart? y, some (← readPart? z)⟩
  | _ => none

end Version

end Skew

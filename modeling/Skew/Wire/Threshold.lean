import Skew.Model

/-!
# Thresholds

A relationship table says at which version the child of a composed field
travels, depending on the version that the owner is sent at. Each row holds from
its owner version up to the next row's. Patches never matter.
-/

namespace Skew

/-- What becomes of a composed field. -/
inductive ChildRule where
  /-- the child did not exist yet -/
  | drop
  /-- the child is sent at this version -/
  | backport (version : Version)
  /-- the owner is past the last threshold: only newer children are adapted -/
  | upperBound (version : Version)
deriving DecidableEq

namespace Relationship

/-- Walks the rows that are left; `current` is the rule of those passed. -/
def walk (target : Version) (current : ChildRule) : List (Version × Version) → ChildRule
  | [] =>
    match current with
    | .backport v => .upperBound v
    | rule => rule
  | (owner, child) :: rows =>
    if target.release < owner.release then current
    else if target.release = owner.release then .backport child
    else walk target (.backport child) rows

/-- The rule for a target version; an empty table has none. -/
def rule? (table : List (Version × Version)) (target : Version) : Option ChildRule :=
  if table.isEmpty then none else some (walk target .drop table)

end Relationship

end Skew

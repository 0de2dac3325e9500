import Mathlib.Data.List.Basic
import Skew.Schema.Declaration
import Skew.Wire.Threshold

/-!
# What the thresholds say

The walk over a relationship table, told from the table as a whole: a child travels at
the version of the last row that the target has reached, and not at all where the target
is older than the first (`Relationship.rule?_eq`). Only a target past every row leaves
children alone that are no newer.
-/

namespace Skew

namespace Declaration

/-- Owner versions ascend not only from row to row. -/
theorem ascending_iff_pairwise {table : Relationship} :
    ascending table = true ↔ table.Pairwise fun r s => r.1.release < s.1.release := by
  induction table with
  | nil => simp [ascending]
  | cons r rows ih =>
      cases rows with
      | nil => simp [ascending]
      | cons s rows =>
          rw [ascending, Bool.and_eq_true, decide_eq_true_eq, ih, List.pairwise_cons (a := r)]
          constructor
          · rintro ⟨hrs, hrows⟩
            refine ⟨fun t ht => ?_, hrows⟩
            rcases List.mem_cons.mp ht with rfl | ht
            · exact hrs
            · exact Nat.lt_trans hrs ((List.pairwise_cons.mp hrows).1 t ht)
          · exact fun ⟨hr, hrows⟩ => ⟨hr s List.mem_cons_self, hrows⟩

end Declaration

namespace Relationship

/-- The child version of the last row whose owner version is not newer than the target. -/
def childAt? (table : Relationship) (target : Version) : Option Version :=
  (table.filter fun row => row.1.release ≤ target.release).getLast?.map (·.2)

/-- The target is newer than every owner version. -/
def isPast (table : Relationship) (target : Version) : Bool :=
  table.all fun row => row.1.release < target.release

theorem isPast_cons (row : Version × Version) (rows : Relationship) (target : Version) :
    isPast (row :: rows) target = (decide (row.1.release < target.release) && isPast rows target) :=
  rfl

/-- The target is older than the first owner version. -/
def startsAfter (table : Relationship) (target : Version) : Prop :=
  ∀ row ∈ table.head?, target.release < row.1.release

/-- The rule for a child version. -/
def ruleOf (past : Bool) : Option Version → ChildRule
  | none => .drop
  | some c => if past then .upperBound c else .backport c

theorem childAt?_eq_none_of_newer {table : Relationship} {target : Version}
    (h : ∀ row ∈ table, target.release < row.1.release) : table.childAt? target = none := by
  have hnil : table.filter (fun row => row.1.release ≤ target.release) = [] :=
    List.filter_eq_nil_iff.mpr fun row hrow => by
      have := h row hrow
      simpa using this
  rw [childAt?, hnil]
  rfl

/-- A row that the target has reached gives the version, unless a later one does. -/
theorem childAt?_cons (row : Version × Version) (rows : Relationship) {target : Version}
    (h : row.1.release ≤ target.release) :
    childAt? (row :: rows) target = some ((childAt? rows target).getD row.2) := by
  rw [childAt?, childAt?, List.filter_cons_of_pos (by simpa using h), List.getLast?_cons]
  cases (rows.filter fun row => row.1.release ≤ target.release).getLast? <;> rfl

/-- The walk from a rule that stands so far, by what the rows that are left say. -/
theorem walk_eq {rows : Relationship} (h : Declaration.ascending rows = true) (target : Version)
    (child? : Option Version) :
    walk target (ruleOf false child?) rows =
      ruleOf (isPast rows target) ((childAt? rows target).or child?) := by
  rw [Declaration.ascending_iff_pairwise] at h
  induction rows generalizing child? with
  | nil => cases child? <;> rfl
  | cons row rows ih =>
      obtain ⟨owner, child⟩ := row
      obtain ⟨hrow, hrows⟩ := List.pairwise_cons.mp h
      rw [walk]
      split
      · next hlt =>
          have hnone : childAt? ((owner, child) :: rows) target = none :=
            childAt?_eq_none_of_newer (List.forall_mem_cons.mpr
              ⟨hlt, fun r hr => Nat.lt_trans hlt (hrow r hr)⟩)
          have hpast : isPast ((owner, child) :: rows) target = false := by
            rw [isPast_cons, decide_eq_false (Nat.lt_asymm hlt), Bool.false_and]
          rw [hnone, hpast, Option.none_or]
      · split
        · next heq =>
            have hnone : childAt? rows target = none :=
              childAt?_eq_none_of_newer fun r hr =>
                Nat.lt_of_le_of_lt (Nat.le_of_eq heq) (hrow r hr)
            have hpast : isPast ((owner, child) :: rows) target = false := by
              rw [isPast_cons, decide_eq_false (Nat.not_lt.mpr (Nat.le_of_eq heq)), Bool.false_and]
            rw [childAt?_cons (owner, child) rows (Nat.le_of_eq heq.symm), hnone, hpast]
            rfl
        · next hnlt hne =>
            have hlt : owner.release < target.release := by omega
            have hpast : isPast ((owner, child) :: rows) target = isPast rows target := by
              rw [isPast_cons, decide_eq_true hlt, Bool.true_and]
            rw [childAt?_cons (owner, child) rows (Nat.le_of_lt hlt), hpast]
            refine (ih hrows (some child)).trans ?_
            cases childAt? rows target <;> rfl

/-- The rule of a table: no row reached, no child; otherwise the child version of the last
row reached, as a bound only where the target is past them all. -/
theorem rule?_eq {table : Relationship} (h : Declaration.ascending table = true)
    (hne : table ≠ []) (target : Version) :
    rule? table target = some (ruleOf (isPast table target) (childAt? table target)) := by
  have hempty : table.isEmpty = false := by simpa using hne
  have hwalk := walk_eq h target none
  rw [Option.or_none] at hwalk
  rw [rule?, hempty]
  exact congrArg some hwalk

/-- No row is reached exactly when the target is older than the first. -/
theorem childAt?_eq_none_iff {table : Relationship} (h : Declaration.ascending table = true)
    {target : Version} : table.childAt? target = none ↔ table.startsAfter target := by
  rw [Declaration.ascending_iff_pairwise] at h
  cases table with
  | nil => exact ⟨fun _ _ h => (nomatch h), fun _ => rfl⟩
  | cons row rows =>
      constructor
      · intro hnone r hr
        cases hr
        false_or_by_contra
        next hle => rw [childAt?_cons row rows (Nat.le_of_not_lt hle)] at hnone; cases hnone
      · intro hfirst
        have hlt := hfirst row rfl
        exact childAt?_eq_none_of_newer (List.forall_mem_cons.mpr
          ⟨hlt, fun r hr => Nat.lt_trans hlt ((List.pairwise_cons.mp h).1 r hr)⟩)

end Relationship

end Skew

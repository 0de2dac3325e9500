import Skew.Proofs.Invariants
import Skew.Proofs.Thresholds

/-!
# The row that a target has reached

The rules of a table told by rows: the row that counts is the last one whose owner version the
target has reached (`Relationship.LastReached`). There is at most one such row, newer targets are
never given an earlier one, and there is none exactly where the target is older than the first
owner version. The walk over a declared table finds that row (`Declaration.rule?_lookup`).

What the walk needs is only that owner versions ascend. That they do is checked when the schema
is built, so it holds of every table that can be asked (`Declaration.ascending_of_build`).
-/

namespace Skew

/-- Patches take no part in the release. -/
theorem Version.release_eq_of_truncated {v w : Version} (h : v.truncated = w.truncated) :
    v.release = w.release := by
  show v.truncated.release = w.truncated.release
  rw [h]

namespace Declaration

/-- Every table of a schema that could be built has ascending owner versions. -/
theorem ascending_of_build {d : Declaration} {s : Schema} (h : d.build = .ok s) {n : String}
    {table : Relationship} (htable : s.relationship? n = some table) : ascending table = true := by
  obtain ⟨version, -, h⟩ := Except.bind_eq_ok_iff.mp h
  obtain ⟨tables, htables, h⟩ := Except.bind_eq_ok_iff.mp h
  cases h
  exact tables_ascending htables (fun _ h => nomatch h) _ (Record.mem_of_get? htable)

end Declaration

namespace Relationship

/-- The row at an index is the last one whose owner version the target has reached. -/
structure LastReached (table : Relationship) (target : Version) (i : Nat)
    (row : Version × Version) : Prop where
  here : table[i]? = some row
  reached : row.1.release ≤ target.release
  later : ∀ j next, i < j → table[j]? = some next → target.release < next.1.release

/-! ## Which row it is -/

/-- A newer target has reached no earlier row. -/
theorem LastReached.mono {table : Relationship} {target target' : Version} {i j : Nat}
    {row next : Version × Version} (hle : target.release ≤ target'.release)
    (h : table.LastReached target i row) (h' : table.LastReached target' j next) : i ≤ j := by
  false_or_by_contra
  next hlt =>
    have hnewer := h'.later i row (Nat.lt_of_not_le hlt) h.here
    exact absurd (Nat.le_trans h.reached hle) (Nat.not_le_of_lt hnewer)

theorem LastReached.unique {table : Relationship} {target : Version} {i j : Nat}
    {row next : Version × Version} (h : table.LastReached target i row)
    (h' : table.LastReached target j next) : j = i ∧ next = row := by
  obtain rfl := Nat.le_antisymm (h.mono (Nat.le_refl _) h') (h'.mono (Nat.le_refl _) h)
  exact ⟨rfl, Option.some.inj (h'.here.symm.trans h.here)⟩

theorem LastReached.cons {table : Relationship} {target : Version} {i : Nat}
    {row : Version × Version} (h : table.LastReached target i row) (first : Version × Version) :
    LastReached (first :: table) target (i + 1) row where
  here := h.here
  reached := h.reached
  later j next hj hnext := by
    obtain ⟨k, rfl⟩ := Nat.exists_eq_add_one_of_ne_zero (Nat.ne_zero_of_lt hj)
    exact h.later k next (Nat.lt_of_succ_lt_succ hj) hnext

/-- Where some row is reached, one of them is the last. -/
theorem exists_lastReached {table : Relationship} {target : Version}
    (h : ∃ row ∈ table, row.1.release ≤ target.release) :
    ∃ i row, table.LastReached target i row := by
  induction table with
  | nil =>
      obtain ⟨row, hrow, -⟩ := h
      cases hrow
  | cons first rows ih =>
      by_cases hrows : ∃ row ∈ rows, row.1.release ≤ target.release
      · obtain ⟨i, row, hlast⟩ := ih hrows
        exact ⟨i + 1, row, hlast.cons first⟩
      · obtain ⟨row, hrow, hreached⟩ := h
        rcases List.mem_cons.mp hrow with rfl | hrow
        · refine ⟨0, row, rfl, hreached, fun j next hj hnext => ?_⟩
          obtain ⟨k, rfl⟩ := Nat.exists_eq_add_one_of_ne_zero (Nat.ne_zero_of_lt hj)
          have hmem : next ∈ rows := List.mem_of_getElem? hnext
          exact Nat.lt_of_not_le fun hle => hrows ⟨next, hmem, hle⟩
        · exact absurd ⟨row, hrow, hreached⟩ hrows

/-- A target that is not older than the first owner version has reached a row. -/
theorem exists_lastReached_of_not_startsAfter {table : Relationship} {target : Version}
    (h : ¬ table.startsAfter target) : ∃ i row, table.LastReached target i row := by
  obtain ⟨row, hrow, hle⟩ : ∃ row ∈ table.head?, ¬ target.release < row.1.release := by
    simpa [startsAfter] using h
  exact exists_lastReached ⟨row, List.mem_of_mem_head? hrow, Nat.le_of_not_lt hle⟩

/-! ## What the row gives -/

/-- The child version of the row reached last is the one that the table gives. -/
theorem LastReached.childAt?_eq {table : Relationship} {target : Version} {i : Nat}
    {row : Version × Version} (h : table.LastReached target i row) :
    table.childAt? target = some row.2 := by
  obtain ⟨hi, hrow⟩ := List.getElem?_eq_some_iff.mp h.here
  have hlater : (table.drop (i + 1)).filter (fun r => r.1.release ≤ target.release) = [] := by
    refine List.filter_eq_nil_iff.mpr fun next hnext => ?_
    obtain ⟨k, hk⟩ := List.mem_iff_getElem?.mp hnext
    rw [List.getElem?_drop] at hk
    have := h.later (i + 1 + k) next (by omega) hk
    simpa using this
  have hsplit : table = table.take i ++ row :: table.drop (i + 1) := by
    rw [← hrow, ← List.drop_eq_getElem_cons hi, List.take_append_drop]
  rw [childAt?, hsplit, List.filter_append, List.filter_cons_of_pos (by simpa using h.reached),
    hlater, List.getLast?_concat]
  rfl

/-- The target is past every row exactly when it is past the row reached last and no row
follows. -/
theorem LastReached.isPast_iff {table : Relationship} {target : Version} {i : Nat}
    {row : Version × Version} (h : table.LastReached target i row)
    (hasc : Declaration.ascending table = true) :
    table.isPast target = true ↔ i + 1 = table.length ∧ row.1.release < target.release := by
  obtain ⟨hi, hrow⟩ := List.getElem?_eq_some_iff.mp h.here
  simp only [isPast, List.all_eq_true, decide_eq_true_eq]
  constructor
  · intro hpast
    refine ⟨?_, hpast row (List.mem_of_getElem? h.here)⟩
    false_or_by_contra
    next hlength =>
      have hnext : table[i + 1]? = some table[i + 1] := List.getElem?_eq_getElem (by omega)
      have hnewer := h.later (i + 1) _ (Nat.lt_succ_self i) hnext
      exact Nat.lt_asymm hnewer (hpast _ (List.mem_of_getElem? hnext))
  · rintro ⟨hlength, hlt⟩ r hr
    obtain ⟨j, hj, rfl⟩ := List.mem_iff_getElem.mp hr
    rcases Nat.lt_or_ge j i with hji | hij
    · have hpairs := List.pairwise_iff_getElem.mp (Declaration.ascending_iff_pairwise.mp hasc)
      exact Nat.lt_trans (hrow ▸ hpairs j i hj hi hji) hlt
    · obtain rfl : j = i := by omega
      exact hrow ▸ hlt

/-- The rule of the row reached last. -/
theorem LastReached.rule?_eq {table : Relationship} {target : Version} {i : Nat}
    {row : Version × Version} (h : table.LastReached target i row)
    (hasc : Declaration.ascending table = true) :
    rule? table target = some (if i + 1 = table.length ∧ row.1.release < target.release
      then .upperBound row.2 else .backport row.2) := by
  have hne : table ≠ [] := by
    rintro rfl
    cases h.here
  rw [Relationship.rule?_eq hasc hne, h.childAt?_eq, ruleOf, if_congr (h.isPast_iff hasc) rfl rfl]

theorem rule?_eq_drop_iff {table : Relationship} (hasc : Declaration.ascending table = true)
    (hne : table ≠ []) (target : Version) :
    rule? table target = some .drop ↔ table.startsAfter target := by
  rw [Relationship.rule?_eq hasc hne, ← childAt?_eq_none_iff hasc]
  cases table.childAt? target with
  | none => simp [ruleOf]
  | some child => cases table.isPast target <;> simp [ruleOf]

/-! ## Patches -/

/-- Two tables say the same, patches of the owners aside. -/
def SameButPatches (table table' : Relationship) : Prop :=
  List.Forall₂ (fun r r' => r.1.truncated = r'.1.truncated ∧ r.2 = r'.2) table table'

theorem SameButPatches.walk_eq {table table' : Relationship} (h : SameButPatches table table')
    {target target' : Version} (htarget : target.truncated = target'.truncated)
    (current : ChildRule) : walk target current table = walk target' current table' := by
  have hrelease := Version.release_eq_of_truncated htarget
  induction h generalizing current with
  | nil => rfl
  | @cons r r' rows rows' hr _ ih =>
      obtain ⟨owner, child⟩ := r
      obtain ⟨owner', child'⟩ := r'
      obtain ⟨howner, rfl⟩ : owner.truncated = owner'.truncated ∧ child = child' := hr
      rw [walk, walk, Version.release_eq_of_truncated howner, hrelease, ih]

theorem SameButPatches.rule?_eq {table table' : Relationship} (h : SameButPatches table table')
    {target target' : Version} (htarget : target.truncated = target'.truncated) :
    rule? table target = rule? table' target' := by
  have hempty : table.isEmpty = table'.isEmpty := by cases h <;> rfl
  rw [rule?, rule?, h.walk_eq htarget, hempty]

/-! ## The rules of a table -/

/-- The rules of a table are those of the rows reached last. -/
structure IsLookup (table : Relationship) : Prop where
  /-- the field is dropped exactly before the first owner version -/
  drop : ∀ target, rule? table target = some .drop ↔ table.startsAfter target
  /-- from there on one row counts; only past the last one is its child version a mere bound -/
  row : ∀ target, ¬ table.startsAfter target → ∃ i row, table.LastReached target i row ∧
    (∀ j next, table.LastReached target j next → j = i ∧ next = row) ∧
    rule? table target = some (if i + 1 = table.length ∧ row.1.release < target.release
      then .upperBound row.2 else .backport row.2)
  /-- patches of the target and of the owners do not matter -/
  patches : ∀ target target' table', target.truncated = target'.truncated →
    SameButPatches table table' → rule? table target = rule? table' target'
  /-- for a newer target the row that counts is no earlier one -/
  ordered : ∀ target target' i j row next, target.release ≤ target'.release →
    table.LastReached target i row → table.LastReached target' j next → i ≤ j
  /-- what is kept for a target is kept for a newer one -/
  kept : ∀ target target', target.release ≤ target'.release →
    rule? table target ≠ some .drop → rule? table target' ≠ some .drop

end Relationship

/-- **The walk finds the row reached last.** In every table that a declaration can bring about, a
target older than the first owner version has the field dropped; any other has exactly one row
reached last, and the rule is its child version: as a bound where the target is past the last row,
and to be adapted to everywhere else. -/
theorem Declaration.rule?_lookup {d : Declaration} {s : Schema} (h : d.build = .ok s) {n : String}
    {table : Relationship} (htable : s.relationship? n = some table) (hne : table ≠ []) :
    Relationship.IsLookup table := by
  have hasc := ascending_of_build h htable
  have hdrop := Relationship.rule?_eq_drop_iff hasc hne
  refine ⟨hdrop, fun target hstarts => ?_, fun _ _ _ htarget hsame => hsame.rule?_eq htarget,
    fun _ _ _ _ _ _ hle hrow hnext => hrow.mono hle hnext, fun target target' hle hkept => ?_⟩
  · obtain ⟨i, row, hlast⟩ := Relationship.exists_lastReached_of_not_startsAfter hstarts
    exact ⟨i, row, hlast, fun _ _ hother => hlast.unique hother, hlast.rule?_eq hasc⟩
  · rw [ne_eq, hdrop] at hkept ⊢
    exact fun hstarts => hkept fun row hrow => Nat.lt_of_le_of_lt hle (hstarts row hrow)

/-! ## A fleet of depots

From 1.2 on a depot has a ramp, and from 1.4 on the ramp travels at 1.2. -/

namespace Ramp

def depot : Declaration :=
  ((Declaration.start "Depot" "1.5").field "ramp" ⟨.object "Ramp", false, none⟩).relationship "ramp"
    [("1.2", "1.0"), ("1.4", "1.2")]

def table : Relationship := [(⟨1, 2, none⟩, ⟨1, 0, none⟩), (⟨1, 4, none⟩, ⟨1, 2, none⟩)]

def schema : Schema :=
  ⟨"Depot", ⟨1, 5, none⟩, [("ramp", ⟨.object "Ramp", false, none⟩)], [("ramp", table)], [], none⟩

theorem depot_lookup : depot.build = .ok schema ∧ schema.relationship? "ramp" = some table ∧
    table ≠ [] ∧ table.IsLookup :=
  have hbuild : depot.build = .ok schema := rfl
  have htable : schema.relationship? "ramp" = some table := rfl
  ⟨hbuild, htable, by decide, Declaration.rule?_lookup hbuild htable (by decide)⟩

/-- Between the thresholds the earlier row counts, whatever the patch. -/
example : Relationship.rule? table ⟨1, 3, some 7⟩ = some (.backport ⟨1, 0, none⟩) := by decide

end Ramp

end Skew

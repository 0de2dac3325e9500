/-!
# Records and name sets

A record is a finite map from names, kept as a list of pairs in ascending name
order; a name set is a list of names in ascending order. Names are ordered by
code point, which is also the order of their encoded bytes. Everything that is
shown by key (wire objects, field values, method tables) is shown in this order.

The reading laws (`get?_insert`, `get?_erase`) hold for any list of pairs; the
order only matters where two records are compared as wholes.
-/

namespace Skew

abbrev Record (α : Type) := List (String × α)

namespace Record

variable {α : Type}

def get? : Record α → String → Option α
  | [], _ => none
  | (n, a) :: r, k => if n = k then some a else get? r k

def contains (r : Record α) (k : String) : Bool := (get? r k).isSome

/-- Adds an entry at its place, or replaces the value of the entry that is there. -/
def insert : Record α → String → α → Record α
  | [], k, v => [(k, v)]
  | (n, a) :: r, k, v =>
    if n = k then (k, v) :: r
    else if k < n then (k, v) :: (n, a) :: r
    else (n, a) :: insert r k v

def erase (r : Record α) (k : String) : Record α := r.filter fun e => e.1 ≠ k

def names (r : Record α) : List String := r.map (·.1)

/-- Later entries win. -/
def ofPairs (entries : List (String × α)) : Record α :=
  entries.foldl (fun r e => insert r e.1 e.2) []

/-- The entries of `s` over those of `r`. -/
def update (r s : Record α) : Record α := s.foldl (fun r e => insert r e.1 e.2) r

theorem get?_insert_self (r : Record α) (k : String) (v : α) :
    get? (insert r k v) k = some v := by
  induction r with
  | nil => simp [insert, get?]
  | cons e r ih =>
    obtain ⟨n, a⟩ := e
    simp only [insert]
    split
    · simp [get?]
    · split
      · simp [get?]
      · next hne _ => simp [get?, hne, ih]

theorem get?_insert_ne (r : Record α) {k j : String} (v : α) (h : k ≠ j) :
    get? (insert r k v) j = get? r j := by
  induction r with
  | nil => simp [insert, get?, h]
  | cons e r ih =>
    obtain ⟨n, a⟩ := e
    simp only [insert]
    split
    · next hn => subst hn; simp [get?, h]
    · split
      · simp [get?, h]
      · simp only [get?, ih]

/-- Reading after a write: the written name has the written value, the others keep theirs. -/
theorem get?_insert (r : Record α) (k j : String) (v : α) :
    get? (insert r k v) j = if k = j then some v else get? r j := by
  split
  · next h => subst h; exact get?_insert_self r k v
  · next h => exact get?_insert_ne r v h

theorem get?_erase (r : Record α) (k j : String) :
    get? (erase r k) j = if k = j then none else get? r j := by
  induction r with
  | nil => simp [erase, get?]
  | cons e r ih =>
    obtain ⟨n, a⟩ := e
    simp only [erase, List.filter_cons] at ih ⊢
    by_cases hn : n = k
    · subst hn
      simp only [ne_eq, not_true_eq_false, decide_false, Bool.false_eq_true, if_false, ih, get?]
      split <;> rfl
    · simp only [ne_eq, hn, not_false_eq_true, decide_true, if_true, get?, ih]
      by_cases hj : n = j
      · subst hj; simp [Ne.symm hn]
      · simp [hj]

end Record

/-- Names in ascending order, each once. -/
abbrev NameSet := List String

namespace NameSet

def insert : NameSet → String → NameSet
  | [], k => [k]
  | n :: s, k => if n = k then n :: s else if k < n then k :: n :: s else n :: insert s k

def ofList (names : List String) : NameSet := names.foldl insert []

theorem mem_insert {s : NameSet} {k j : String} : j ∈ insert s k ↔ j = k ∨ j ∈ s := by
  induction s with
  | nil => simp [insert]
  | cons n s ih =>
    simp only [insert]
    split
    · next h =>
      subst h
      exact ⟨Or.inr, fun h => h.elim (fun h => h ▸ List.mem_cons_self) id⟩
    · split
      · simp
      · simp only [List.mem_cons, ih]
        constructor
        · rintro (h | h | h) <;> simp [h]
        · rintro (h | h | h) <;> simp [h]

end NameSet

end Skew

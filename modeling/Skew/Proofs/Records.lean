import Skew.Entity.Changes

/-!
# Ascending records and name sets

Records and name sets are lists in ascending order of names. The order is what
makes two records with the same entries one record (`Record.ext`) and two name
sets with the same members one set (`NameSet.ext`); every operation keeps it.
-/

namespace Skew

theorem lt_of_ne_of_not_lt {a b : String} (hne : a ≠ b) (h : ¬ b < a) : a < b := by
  false_or_by_contra
  next hab => exact hne (String.le_antisymm (String.not_lt.mp h) (String.not_lt.mp hab))

namespace Record

variable {α β : Type}

/-- Names ascend, so each stands once. -/
def Ascending (r : Record α) : Prop := r.Pairwise fun e f => e.1 < f.1

instance (r : Record α) : Decidable (Ascending r) :=
  inferInstanceAs (Decidable (List.Pairwise (fun e f => e.1 < f.1) r))

theorem Ascending.nil : Ascending ([] : Record α) := List.Pairwise.nil

theorem Ascending.tail {e : String × α} {r : Record α} (h : Ascending (e :: r)) : Ascending r :=
  (List.pairwise_cons.mp h).2

/-! ## Lookup -/

theorem mem_of_get? {r : Record α} {k : String} {a : α} (h : get? r k = some a) : (k, a) ∈ r := by
  induction r with
  | nil => cases h
  | cons e r ih =>
      obtain ⟨n, b⟩ := e
      rw [get?] at h
      split at h
      · next hn =>
          cases h
          exact hn ▸ List.mem_cons_self
      · exact List.mem_cons_of_mem _ (ih h)

theorem get?_eq_none_iff {r : Record α} {k : String} : get? r k = none ↔ k ∉ r.map (·.1) := by
  induction r with
  | nil => simp [get?]
  | cons e r ih =>
      rw [get?, List.map_cons, List.mem_cons, not_or]
      split
      · next hn => simp [hn]
      · next hn => simp [ih, Ne.symm hn]

theorem contains_iff {r : Record α} {k : String} : contains r k = true ↔ ∃ a, get? r k = some a :=
  Option.isSome_iff_exists

theorem contains_iff_mem {r : Record α} {k : String} : contains r k = true ↔ k ∈ r.map (·.1) := by
  rw [contains, ← Decidable.not_iff_not, ← get?_eq_none_iff, Bool.not_eq_true,
    Option.isSome_eq_false_iff, Option.isNone_iff_eq_none]

/-- Where names are distinct, lookup finds every entry. -/
theorem get?_of_mem {r : Record α} (hr : (r.map (·.1)).Nodup) {k : String} {a : α}
    (h : (k, a) ∈ r) : get? r k = some a := by
  induction r with
  | nil => cases h
  | cons e r ih =>
      rw [List.map_cons, List.nodup_cons] at hr
      rcases List.mem_cons.mp h with rfl | hmem
      · simp [get?]
      · have hne : e.1 ≠ k := fun hek => hr.1 (hek ▸ List.mem_map_of_mem (f := (·.1)) hmem)
        rw [get?, if_neg hne, ih hr.2 hmem]

theorem Ascending.nodup {r : Record α} (h : Ascending r) : (r.map (·.1)).Nodup := by
  rw [List.nodup_iff_pairwise_ne, List.pairwise_map]
  refine List.Pairwise.imp (fun {e f} hlt heq => ?_) h
  rw [heq] at hlt
  exact String.lt_irrefl _ hlt

theorem get?_map (f : String → α → β) (r : Record α) (k : String) :
    get? (r.map fun e => (e.1, f e.1 e.2)) k = (get? r k).map (f k) := by
  induction r with
  | nil => rfl
  | cons e r ih =>
      obtain ⟨n, a⟩ := e
      rw [List.map_cons, get?, get?, ih]
      split
      · next hn => rw [hn]; rfl
      · rfl

theorem get?_append (r s : Record α) (k : String) :
    get? (r ++ s) k = (get? r k).or (get? s k) := by
  induction r with
  | nil => rfl
  | cons e r ih =>
      rw [List.cons_append, get?, get?, ih]
      split <;> rfl

/-! ## Order -/

/-- Two ascending records with the same entries are the same. -/
theorem ext {r s : Record α} (hr : Ascending r) (hs : Ascending s)
    (h : ∀ k, get? r k = get? s k) : r = s := by
  induction r generalizing s with
  | nil =>
      cases s with
      | nil => rfl
      | cons f s => have := h f.1; simp [get?] at this
  | cons e r ih =>
      cases s with
      | nil => have := h e.1; simp [get?] at this
      | cons f s =>
          obtain ⟨k, a⟩ := e
          obtain ⟨l, b⟩ := f
          have hrk := (List.pairwise_cons.mp hr).1
          have hsl := (List.pairwise_cons.mp hs).1
          have hkl : k = l := by
            false_or_by_contra
            next hne =>
              have h1 : (k, a) ∈ s := by
                have h1 := h k
                rw [get?, if_pos rfl, get?, if_neg (Ne.symm hne)] at h1
                exact mem_of_get? h1.symm
              have h2 : (l, b) ∈ r := by
                have h2 := h l
                rw [get?, if_neg hne, get?, if_pos rfl] at h2
                exact mem_of_get? h2
              exact String.lt_asymm (hrk _ h2) (hsl _ h1)
          subst hkl
          have hab : a = b := by simpa [get?] using h k
          subst hab
          refine congrArg _ (ih hr.tail hs.tail fun j => ?_)
          by_cases hj : k = j
          · subst hj
            have hnr : get? r k = none := get?_eq_none_iff.mpr (List.nodup_cons.mp hr.nodup).1
            have hns : get? s k = none := get?_eq_none_iff.mpr (List.nodup_cons.mp hs.nodup).1
            rw [hnr, hns]
          · simpa [get?, hj] using h j

theorem mem_insert {r : Record α} {k : String} {v : α} {e : String × α}
    (h : e ∈ insert r k v) : e = (k, v) ∨ e ∈ r := by
  induction r with
  | nil => simpa [insert] using h
  | cons f r ih =>
      rw [insert] at h
      split at h
      · rcases List.mem_cons.mp h with h | h
        · exact Or.inl h
        · exact Or.inr (List.mem_cons_of_mem _ h)
      · split at h
        · exact List.mem_cons.mp h
        · rcases List.mem_cons.mp h with rfl | h
          · exact Or.inr List.mem_cons_self
          · exact (ih h).imp_right (List.mem_cons_of_mem _)

theorem mem_insert_of_ne {r : Record α} {k : String} {v : α} {e : String × α} (h : e ∈ r)
    (hne : e.1 ≠ k) : e ∈ insert r k v := by
  induction r with
  | nil => cases h
  | cons f r ih =>
      rw [insert]
      split
      · next hf =>
          rcases List.mem_cons.mp h with rfl | h
          · exact absurd hf hne
          · exact List.mem_cons_of_mem _ h
      · split
        · exact List.mem_cons_of_mem _ h
        · rcases List.mem_cons.mp h with rfl | h
          · exact List.mem_cons_self
          · exact List.mem_cons_of_mem _ (ih h)

theorem map_insert (f : α → β) (r : Record α) (k : String) (v : α) :
    (insert r k v).map (fun e => (e.1, f e.2)) =
      insert (r.map fun e => (e.1, f e.2)) k (f v) := by
  induction r with
  | nil => rfl
  | cons e r ih =>
      rw [insert, List.map_cons, insert]
      split
      · rfl
      · split
        · rfl
        · rw [List.map_cons, ih]

theorem Ascending.insert {r : Record α} (h : Ascending r) (k : String) (v : α) :
    Ascending (insert r k v) := by
  induction r with
  | nil => exact List.pairwise_singleton _ _
  | cons e r ih =>
      obtain ⟨n, a⟩ := e
      obtain ⟨hn, hr⟩ := List.pairwise_cons.mp h
      rw [Record.insert]
      split
      · next heq => subst heq; exact List.pairwise_cons.mpr ⟨hn, hr⟩
      · next hne =>
          split
          · next hlt =>
              refine List.pairwise_cons.mpr ⟨fun f hf => ?_, h⟩
              rcases List.mem_cons.mp hf with rfl | hf
              · exact hlt
              · exact String.lt_trans hlt (hn f hf)
          · next hnlt =>
              refine List.pairwise_cons.mpr ⟨fun f hf => ?_, ih hr⟩
              rcases mem_insert hf with rfl | hf
              · exact lt_of_ne_of_not_lt hne hnlt
              · exact hn f hf

theorem Ascending.map {r : Record α} (h : Ascending r) (f : String → α → β) :
    Ascending (r.map fun e => (e.1, f e.1 e.2)) :=
  List.pairwise_map.mpr h

theorem Ascending.of_map {r : Record α} {f : String → α → β}
    (h : Ascending (r.map fun e => (e.1, f e.1 e.2))) : Ascending r := by
  rw [Ascending, List.pairwise_map] at h
  exact h

theorem Ascending.filter {r : Record α} (h : Ascending r) (p : String × α → Bool) :
    Ascending (r.filter p) :=
  List.Pairwise.filter p h

theorem Ascending.erase {r : Record α} (h : Ascending r) (k : String) : Ascending (erase r k) :=
  h.filter _

theorem get?_filter (r : Record α) (p : String → Bool) (k : String) :
    get? (r.filter fun e => p e.1) k = if p k then get? r k else none := by
  induction r with
  | nil => simp [get?]
  | cons e r ih =>
      obtain ⟨n, a⟩ := e
      rw [List.filter_cons]
      by_cases hn : n = k
      · subst hn
        cases hp : p n <;> simp [get?, ih, hp]
      · cases hp : p n <;> simp [get?, ih, hn]

/-- Entries of the second record win, as long as its names are distinct. -/
theorem get?_update {r s : Record α} (hs : (s.map (·.1)).Nodup) (k : String) :
    get? (update r s) k = (get? s k).or (get? r k) := by
  induction s generalizing r with
  | nil => rfl
  | cons e s ih =>
      obtain ⟨n, a⟩ := e
      obtain ⟨hn, hs⟩ := List.nodup_cons.mp hs
      refine (ih hs).trans ?_
      rw [get?_insert, get?]
      split
      · next hnk =>
          rw [get?_eq_none_iff.mpr (hnk ▸ hn)]
          rfl
      · rfl

/-- What is found in an updated record comes from the update or was there before. -/
theorem mem_or_get?_of_get?_update {r s : Record α} {k : String} {v : α}
    (h : get? (update r s) k = some v) : (k, v) ∈ s ∨ get? r k = some v := by
  induction s generalizing r with
  | nil => exact Or.inr h
  | cons q s ih =>
      rcases ih h with h | h
      · exact Or.inl (List.mem_cons_of_mem _ h)
      · rw [get?_insert] at h
        split at h
        · next hk =>
            cases h
            exact Or.inl (hk ▸ List.mem_cons_self)
        · exact Or.inr h

theorem get?_update_of_notMem {r s : Record α} {k : String} (hk : k ∉ s.map (·.1)) :
    get? (update r s) k = get? r k := by
  induction s generalizing r with
  | nil => rfl
  | cons q s ih =>
      rw [List.map_cons, List.mem_cons, not_or] at hk
      exact (ih hk.2).trans (get?_insert_ne _ _ (Ne.symm hk.1))

theorem Ascending.update {r : Record α} (h : Ascending r) (s : Record α) :
    Ascending (update r s) := by
  induction s generalizing r with
  | nil => exact h
  | cons e s ih => exact ih (h.insert e.1 e.2)

theorem contains_insert {r : Record α} {k j : String} {v : α} :
    contains (insert r k v) j = (decide (k = j) || contains r j) := by
  rw [contains, get?_insert]
  split <;> simp_all [contains]

end Record

namespace NameSet

/-- Names ascend, so each stands once. -/
def Ascending (s : NameSet) : Prop := s.Pairwise (· < ·)

instance (s : NameSet) : Decidable (Ascending s) :=
  inferInstanceAs (Decidable (List.Pairwise (· < ·) s))

theorem Ascending.nil : Ascending [] := List.Pairwise.nil

theorem Ascending.nodup {s : NameSet} (h : Ascending s) : s.Nodup := by
  refine List.Pairwise.imp (fun {a b} hlt heq => ?_) h
  rw [heq] at hlt
  exact String.lt_irrefl _ hlt

/-- Two ascending name sets with the same members are the same. -/
theorem ext {s t : NameSet} (hs : Ascending s) (ht : Ascending t) (h : ∀ n, n ∈ s ↔ n ∈ t) :
    s = t := by
  have hperm : s.Perm t := (List.perm_ext_iff_of_nodup hs.nodup ht.nodup).mpr h
  exact hperm.eq_of_pairwise (fun _ _ _ _ hab hba => (String.lt_asymm hab hba).elim) hs ht

theorem Ascending.insert {s : NameSet} (h : Ascending s) (k : String) :
    Ascending (insert s k) := by
  induction s with
  | nil => exact List.pairwise_singleton _ _
  | cons n s ih =>
      obtain ⟨hn, hs⟩ := List.pairwise_cons.mp h
      rw [NameSet.insert]
      split
      · exact h
      · next hne =>
          split
          · next hlt =>
              refine List.pairwise_cons.mpr ⟨fun m hm => ?_, h⟩
              rcases List.mem_cons.mp hm with rfl | hm
              · exact hlt
              · exact String.lt_trans hlt (hn m hm)
          · next hnlt =>
              refine List.pairwise_cons.mpr ⟨fun m hm => ?_, ih hs⟩
              rcases mem_insert.mp hm with rfl | hm
              · exact lt_of_ne_of_not_lt hne hnlt
              · exact hn m hm

theorem Ascending.union {s : NameSet} (h : Ascending s) (t : List String) :
    Ascending (union s t) := by
  induction t generalizing s with
  | nil => exact h
  | cons k t ih => exact ih (h.insert k)

theorem ascending_ofList (names : List String) : Ascending (ofList names) :=
  Ascending.nil.union names

theorem mem_ofList {names : List String} {n : String} : n ∈ ofList names ↔ n ∈ names := by
  have h : ofList names = union [] names := rfl
  rw [h, mem_union]
  simp

/-- The order in which names come does not matter. -/
theorem ofList_eq_ofList_iff {s t : List String} : ofList s = ofList t ↔ ∀ n, n ∈ s ↔ n ∈ t := by
  constructor
  · intro h n
    rw [← mem_ofList, h, mem_ofList]
  · intro h
    refine ext (ascending_ofList s) (ascending_ofList t) ?_
    intro n
    rw [mem_ofList, mem_ofList, h]

/-- An ascending list is its own name set. -/
theorem ofList_eq_self {s : NameSet} (h : Ascending s) : ofList s = s :=
  ext (ascending_ofList s) h fun _ => mem_ofList

/-- Names that are there already add nothing. -/
theorem union_eq_self {s : NameSet} (h : Ascending s) {t : List String} (ht : ∀ n ∈ t, n ∈ s) :
    union s t = s :=
  ext (h.union t) h fun n => by
    rw [mem_union]
    exact ⟨fun hn => hn.elim id (ht n), Or.inl⟩

end NameSet

end Skew

import Skew.Proofs.Invariants
import Skew.Proofs.VersionText
import Skew.Registry

/-!
# Invariants of registries

What registering guarantees of a registry: a schema stands under its own name, the
schemas of a type stand newest first, each version once, and each is well-formed.
So the newest schema is first (`Registry.WellFormed.rank_le_latest`), and the schema
that data is read by is one of the registered ones that can take the data
(`Registry.resolve_eq_ok`).
-/

namespace Skew

/-! ## Versions -/

namespace Version

theorem isExactly_iff {v w : Version} : v.isExactly w = true ↔ v.rank = w.rank :=
  decide_eq_true_iff

/-- The same version takes the data. -/
theorem accepts_of_isExactly {v w : Version} (h : v.isExactly w = true) :
    v.accepts w = true := by
  have hrelease := release_eq_of_isExactly h
  have hv := v.minor.toNat_lt
  have hw := w.minor.toNat_lt
  have hmajor : v.major = w.major := by
    rw [← UInt32.toNat_inj]
    simp only [release] at hrelease
    omega
  rw [accepts, decide_eq_true_eq]
  exact ⟨hmajor, Nat.le_of_eq (isExactly_iff.mp h).symm⟩

end Version

namespace Registry

/-! ## Schemas in place -/

theorem mem_place {s t : Schema} {ts : List Schema} (h : t ∈ place s ts) : t = s ∨ t ∈ ts := by
  induction ts with
  | nil => exact Or.inl (List.mem_singleton.mp h)
  | cons u us ih =>
      rw [place] at h
      split at h
      · rcases List.mem_cons.mp h with h | h
        · exact Or.inl h
        · exact Or.inr (List.mem_cons_of_mem _ h)
      · split at h
        · exact List.mem_cons.mp h
        · rcases List.mem_cons.mp h with h | h
          · exact Or.inr (h ▸ List.mem_cons_self)
          · exact (ih h).imp_right (List.mem_cons_of_mem _)

/-- Newest first, each version once. -/
def Descending (ts : List Schema) : Prop :=
  ts.Pairwise fun s t => t.version.rank < s.version.rank

theorem Descending.place {ts : List Schema} (h : Descending ts) (s : Schema) :
    Descending (place s ts) := by
  induction ts with
  | nil => exact List.pairwise_singleton _ _
  | cons t ts ih =>
      obtain ⟨hhead, htail⟩ := List.pairwise_cons.mp h
      rw [Registry.place]
      split
      · next hexact =>
          have hrank := Version.isExactly_iff.mp hexact
          exact List.pairwise_cons.mpr ⟨fun u hu => Nat.lt_of_lt_of_eq (hhead u hu) hrank, htail⟩
      · next hexact =>
          split
          · next hlt =>
              refine List.pairwise_cons.mpr ⟨?_, h⟩
              intro u hu
              rcases List.mem_cons.mp hu with rfl | hu
              · exact hlt
              · exact Nat.lt_trans (hhead u hu) hlt
          · next hlt =>
              have hne : t.version.rank ≠ s.version.rank := fun h =>
                hexact (Version.isExactly_iff.mpr h)
              refine List.pairwise_cons.mpr ⟨?_, ih htail⟩
              intro u hu
              rcases mem_place hu with rfl | hu
              · omega
              · exact hhead u hu

/-! ## Registering -/

structure WellFormed (r : Registry) : Prop where
  schemas : ∀ name, ∀ s ∈ r.schemas name, s.WellFormed
  named : ∀ name, ∀ s ∈ r.schemas name, s.name = name
  descending : ∀ name, Descending (r.schemas name)

theorem schemas_register (r : Registry) (s : Schema) (name : String) :
    (r.register s).schemas name = if s.name = name then place s (r.schemas name)
      else r.schemas name := by
  simp only [schemas, register, Record.get?_insert]
  split
  · next h => subst h; rfl
  · rfl

theorem wellFormed_empty : empty.WellFormed :=
  ⟨fun _ _ h => (nomatch h), fun _ _ h => (nomatch h), fun _ => List.Pairwise.nil⟩

theorem WellFormed.register {r : Registry} (h : r.WellFormed) {s : Schema} (hs : s.WellFormed) :
    (r.register s).WellFormed where
  schemas name t ht := by
    rw [schemas_register] at ht
    split at ht
    · rcases mem_place ht with rfl | ht
      · exact hs
      · exact h.schemas name t ht
    · exact h.schemas name t ht
  named name t ht := by
    rw [schemas_register] at ht
    split at ht
    · next hname =>
        rcases mem_place ht with rfl | ht
        · exact hname
        · exact h.named name t ht
    · exact h.named name t ht
  descending name := by
    rw [schemas_register]
    split
    · exact (h.descending name).place s
    · exact h.descending name

/-- Whatever well-formed schemas are registered, in whatever order. -/
theorem WellFormed.registerAll {r : Registry} (h : r.WellFormed) {ss : List Schema}
    (hss : ∀ s ∈ ss, s.WellFormed) : (r.registerAll ss).WellFormed := by
  induction ss generalizing r with
  | nil => exact h
  | cons s ss ih =>
      obtain ⟨hs, hss⟩ := List.forall_mem_cons.mp hss
      exact ih (h.register hs) hss

/-! ## Looking up -/

theorem latest_eq_ok_iff {r : Registry} {name : String} {s : Schema} :
    r.latest name = .ok s ↔ (r.schemas name).head? = some s := by
  unfold latest
  split
  · next t ts h => rw [h]; simp
  · next h => rw [h]; simp

/-- No registered version is newer than the newest. -/
theorem WellFormed.rank_le_latest {r : Registry} (h : r.WellFormed) {name : String} {s : Schema}
    (hs : r.latest name = .ok s) : ∀ v ∈ r.versions name, v.rank ≤ s.version.rank := by
  obtain ⟨ts, hts⟩ := List.head?_eq_some_iff.mp (latest_eq_ok_iff.mp hs)
  have hdescending := h.descending name
  rw [hts] at hdescending
  rw [versions, hts, List.forall_mem_map]
  refine List.forall_mem_cons.mpr ⟨Nat.le_refl _, ?_⟩
  intro t ht
  exact Nat.le_of_lt ((List.pairwise_cons.mp hdescending).1 t ht)

/-- The schema for data is registered, and can take the data. -/
theorem resolve_eq_ok {r : Registry} {name : String} {v : Version} {s : Schema}
    (h : r.resolve name v = .ok s) : s ∈ r.schemas name ∧ s.version.accepts v = true := by
  obtain ⟨newest, -, h⟩ := Except.bind_eq_ok_iff.mp h
  dsimp only at h
  cases hexact : (r.schemas name).find? (·.version.isExactly v) with
  | some t =>
      rw [hexact] at h
      cases h
      have ht : s.version.isExactly v = true := by simpa using List.find?_some hexact
      exact ⟨List.mem_of_find?_eq_some hexact, Version.accepts_of_isExactly ht⟩
  | none =>
      rw [hexact] at h
      cases haccepts : (r.schemas name).find? (·.version.accepts v) with
      | some t =>
          rw [haccepts] at h
          cases h
          exact ⟨List.mem_of_find?_eq_some haccepts, by simpa using List.find?_some haccepts⟩
      | none => rw [haccepts] at h; cases h

/-- Data is read by some schema exactly if a registered one can take it. -/
theorem exists_resolve_iff {r : Registry} {name : String} {v : Version} :
    (∃ s, r.resolve name v = .ok s) ↔ ∃ s ∈ r.schemas name, s.version.accepts v = true := by
  constructor
  · rintro ⟨s, hs⟩
    exact ⟨s, resolve_eq_ok hs⟩
  · rintro ⟨s, hs, haccepts⟩
    obtain ⟨newest, hnewest⟩ : ∃ newest, r.latest name = .ok newest := by
      rw [latest]
      cases hschemas : r.schemas name with
      | nil => rw [hschemas] at hs; cases hs
      | cons t ts => exact ⟨t, rfl⟩
    rw [resolve, hnewest, Except.ok_bind]
    dsimp only
    cases hexact : (r.schemas name).find? (·.version.isExactly v) with
    | some t => exact ⟨t, rfl⟩
    | none =>
        cases hfound : (r.schemas name).find? (·.version.accepts v) with
        | some t => exact ⟨t, rfl⟩
        | none => exact absurd haccepts (List.find?_eq_none.mp hfound s hs)

/-- Who can read data at a version can read data of the same major at any version that is no
newer, patch included. -/
theorem exists_resolve_of_rank_le {r : Registry} {name : String} {v w : Version}
    (h : ∃ s, r.resolve name v = .ok s) (hmajor : w.major = v.major) (hrank : w.rank ≤ v.rank) :
    ∃ s, r.resolve name w = .ok s := by
  obtain ⟨s, hs, haccepts⟩ := exists_resolve_iff.mp h
  rw [Version.accepts, decide_eq_true_eq] at haccepts
  refine exists_resolve_iff.mpr ⟨s, hs, ?_⟩
  rw [Version.accepts, decide_eq_true_eq]
  exact ⟨haccepts.1.trans hmajor.symm, Nat.le_trans hrank haccepts.2⟩

/-- The only schema of a type reads what it accepts. -/
theorem resolve_of_unique {r : Registry} {name : String} {v : Version} {s : Schema}
    (hs : s ∈ r.schemas name) (hunique : ∀ t ∈ r.schemas name, t = s)
    (haccepts : s.version.accepts v = true) : r.resolve name v = .ok s := by
  have hfind : (r.schemas name).find? (·.version.accepts v) = some s := by
    cases hfound : (r.schemas name).find? (·.version.accepts v) with
    | none => exact absurd haccepts (List.find?_eq_none.mp hfound s hs)
    | some t => rw [hunique t (List.mem_of_find?_eq_some hfound)]
  obtain ⟨newest, hnewest⟩ : ∃ newest, r.latest name = .ok newest := by
    rw [latest]
    cases hschemas : r.schemas name with
    | nil => rw [hschemas] at hs; cases hs
    | cons t ts => exact ⟨t, rfl⟩
  rw [resolve, hnewest, Except.ok_bind]
  dsimp only
  rw [hfind]
  cases hexact : (r.schemas name).find? (·.version.isExactly v) with
  | none => rfl
  | some t => rw [hunique t (List.mem_of_find?_eq_some hexact)]; rfl

/-- The newest schema reads the data of its own version. -/
theorem resolve_of_latest {r : Registry} {name : String} {v : Version} {s : Schema}
    (hlatest : r.latest name = .ok s) (h : s.version.isExactly v = true) :
    r.resolve name v = .ok s := by
  obtain ⟨ss, hss⟩ := List.head?_eq_some_iff.mp (latest_eq_ok_iff.mp hlatest)
  have hfind : (r.schemas name).find? (·.version.isExactly v) = some s := by
    rw [hss]
    exact List.find?_cons_of_pos h
  rw [resolve, hlatest, Except.ok_bind]
  dsimp only
  rw [hfind]
  rfl

end Registry

end Skew

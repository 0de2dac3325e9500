import Mathlib.Data.List.Induction
import Mathlib.Data.List.Pairwise
import Skew.Proofs.Registries

/-!
# Registries after any history

A registry is the outcome of its registrations, in order. Whatever they were, it holds for
each name the schema registered last at each version, newest first, and answers every
question from these (`Registry.registerAll_answers`).

The step lemma is `Registry.mem_place_iff`: a registration adds its schema and takes away the
one at exactly its version. So what is held is a matter of the history alone
(`Registry.mem_schemas_iff`), and all answers are read off the history, never off the list.
-/

namespace Skew

/-! ## The full order of versions -/

namespace Version

/-- The order in which versions are listed: by major, then by minor number, then by patch,
where a missing patch is the patch zero. -/
def Newer (v w : Version) : Prop :=
  w.major < v.major ∨ v.major = w.major ∧
    (w.minor < v.minor ∨ v.minor = w.minor ∧ w.patch?.getD 0 < v.patch?.getD 0)

theorem newer_iff {v w : Version} : v.Newer w ↔ w.rank < v.rank := by
  simp only [Newer, rank, release, UInt32.lt_iff_toNat_lt, ← UInt32.toNat_inj]
  have := v.minor.toNat_lt
  have := w.minor.toNat_lt
  have := (v.patch?.getD 0).toNat_lt
  have := (w.patch?.getD 0).toNat_lt
  omega

instance (v w : Version) : Decidable (v.Newer w) := decidable_of_iff _ newer_iff.symm

theorem isExactly_self (v : Version) : v.isExactly v = true := isExactly_iff.mpr rfl

theorem isExactly_comm (v w : Version) : v.isExactly w = w.isExactly v := by
  rw [isExactly, isExactly]
  exact decide_eq_decide.mpr eq_comm

theorem isExactly_eq_false_iff {v w : Version} : v.isExactly w = false ↔ v.rank ≠ w.rank := by
  rw [← Bool.not_eq_true, isExactly_iff]

theorem isExactly_congr {v w : Version} (h : v.rank = w.rank) (u : Version) :
    u.isExactly v = u.isExactly w := by
  rw [isExactly, isExactly, h]

theorem accepts_iff {v w : Version} :
    v.accepts w = true ↔ v.major = w.major ∧ ¬ w.Newer v := by
  rw [accepts, decide_eq_true_iff, newer_iff, Nat.not_lt]

end Version

/-! ## What a registry holds -/

namespace Registry

/-- The last schema of a history that has the name and exactly its version. -/
def LastAt (history : List Schema) (name : String) (s : Schema) : Prop :=
  (history.filter fun t => t.name = name ∧ t.version.isExactly s.version).getLast? = some s

theorem LastAt.mem {history : List Schema} {name : String} {s : Schema}
    (h : LastAt history name s) : s ∈ history ∧ s.name = name := by
  have hmem := List.mem_filter.mp (List.mem_of_getLast? h)
  exact ⟨hmem.1, (of_decide_eq_true hmem.2).1⟩

theorem LastAt.unique {history : List Schema} {name : String} {s t : Schema}
    (hs : LastAt history name s) (ht : LastAt history name t)
    (hversion : s.version.rank = t.version.rank) : s = t := by
  rw [LastAt] at hs ht
  simp only [Version.isExactly_congr hversion] at hs
  exact Option.some.inj (hs.symm.trans ht)

/-- Whatever was registered has a last registration at its version. -/
theorem exists_lastAt {history : List Schema} {t : Schema} (ht : t ∈ history) :
    ∃ s, LastAt history t.name s ∧ s.version.major = t.version.major ∧
      s.version.rank = t.version.rank := by
  have hmem : t ∈ history.filter fun u => u.name = t.name ∧ u.version.isExactly t.version :=
    List.mem_filter.mpr ⟨ht, decide_eq_true ⟨rfl, t.version.isExactly_self⟩⟩
  obtain ⟨s, hs⟩ := Option.isSome_iff_exists.mp
    (List.getLast?_isSome.mpr (List.ne_nil_of_mem hmem))
  have hexact : s.version.isExactly t.version = true :=
    (of_decide_eq_true (List.mem_filter.mp (List.mem_of_getLast? hs)).2).2
  have hrank := Version.isExactly_iff.mp hexact
  refine ⟨s, ?_, (Version.accepts_iff.mp (Version.accepts_of_isExactly hexact)).1, hrank⟩
  rw [LastAt]
  simp only [Version.isExactly_congr hrank]
  exact hs

theorem lastAt_append {history : List Schema} {name : String} {s t : Schema} :
    LastAt (history ++ [t]) name s ↔
      (s = t ∧ t.name = name) ∨
        (LastAt history name s ∧ ¬ (t.name = name ∧ t.version.isExactly s.version = true)) := by
  rw [LastAt, List.filter_append, List.getLast?_append, List.filter_singleton]
  by_cases ht : t.name = name ∧ t.version.isExactly s.version = true
  · rw [decide_eq_true ht, Bool.cond_true, List.getLast?_singleton, Option.some_or,
      Option.some.injEq]
    constructor
    · rintro rfl
      exact Or.inl ⟨rfl, ht.1⟩
    · rintro (⟨rfl, -⟩ | ⟨-, hne⟩)
      · rfl
      · exact absurd ht hne
  · rw [decide_eq_false ht, Bool.cond_false, List.getLast?_nil, Option.none_or]
    constructor
    · exact fun h => Or.inr ⟨h, ht⟩
    · rintro (⟨rfl, hname⟩ | ⟨h, -⟩)
      · exact absurd ⟨hname, s.version.isExactly_self⟩ ht
      · exact h

/-- A registration adds its schema, and takes away the one at exactly its version. -/
theorem mem_place_iff {s u : Schema} {ts : List Schema} (h : Descending ts) :
    u ∈ place s ts ↔ u = s ∨ (u ∈ ts ∧ s.version.isExactly u.version = false) := by
  induction ts with
  | nil => simp [place]
  | cons t ts ih =>
      obtain ⟨hhead, htail⟩ := List.pairwise_cons.mp h
      rw [place]
      split
      · next hexact =>
          -- The versions after the one replaced are older, so none of them is replaced.
          have hrank := Version.isExactly_iff.mp hexact
          have hrest (u : Schema) (hu : u ∈ ts) : s.version.isExactly u.version = false :=
            Version.isExactly_eq_false_iff.mpr (by have := hhead u hu; omega)
          have hself : s.version.isExactly t.version = true := Version.isExactly_comm _ _ ▸ hexact
          rw [List.mem_cons, List.mem_cons]
          constructor
          · rintro (rfl | hu)
            · exact Or.inl rfl
            · exact Or.inr ⟨Or.inr hu, hrest u hu⟩
          · rintro (rfl | ⟨rfl | hu, hne⟩)
            · exact Or.inl rfl
            · rw [hself] at hne
              cases hne
            · exact Or.inr hu
      · next hexact =>
          have hself : s.version.isExactly t.version = false :=
            Version.isExactly_comm _ _ ▸ Bool.not_eq_true _ ▸ hexact
          split
          · next hlt =>
              have hrest (u : Schema) (hu : u ∈ t :: ts) :
                  s.version.isExactly u.version = false := by
                rcases List.mem_cons.mp hu with rfl | hu
                · exact hself
                · exact Version.isExactly_eq_false_iff.mpr (by have := hhead u hu; omega)
              rw [List.mem_cons]
              exact or_congr_right ⟨fun hu => ⟨hu, hrest u hu⟩, And.left⟩
          · rw [List.mem_cons, ih htail, List.mem_cons]
            constructor
            · rintro (rfl | rfl | ⟨hu, hne⟩)
              · exact Or.inr ⟨Or.inl rfl, hself⟩
              · exact Or.inl rfl
              · exact Or.inr ⟨Or.inr hu, hne⟩
            · rintro (rfl | ⟨rfl | hu, hne⟩)
              · exact Or.inr (Or.inl rfl)
              · exact Or.inl rfl
              · exact Or.inr (Or.inr ⟨hu, hne⟩)

theorem registerAll_append (r : Registry) (history : List Schema) (t : Schema) :
    r.registerAll (history ++ [t]) = (r.registerAll history).register t := by
  rw [registerAll, List.foldl_append]
  rfl

theorem descending_registerAll (history : List Schema) (name : String) :
    Descending ((empty.registerAll history).schemas name) := by
  induction history using List.reverseRecOn with
  | nil => exact List.Pairwise.nil
  | append_singleton history t ih =>
      rw [registerAll_append, schemas_register]
      split
      · exact ih.place t
      · exact ih

/-- A registry holds what was registered last at each version. -/
theorem mem_schemas_iff {history : List Schema} {name : String} {s : Schema} :
    s ∈ (empty.registerAll history).schemas name ↔ LastAt history name s := by
  induction history using List.reverseRecOn with
  | nil => exact ⟨fun h => (nomatch h), fun h => (nomatch h)⟩
  | append_singleton history t ih =>
      rw [registerAll_append, schemas_register, lastAt_append]
      split
      · next hname =>
          rw [mem_place_iff (descending_registerAll history name), ih, Bool.eq_false_iff]
          simp only [hname, true_and, and_true, ne_eq]
      · next hname => simp [hname, ih]

/-! ## Answers -/

/-- What a history of registrations says about data of a type at a version. -/
inductive Resolution (history : List Schema) (name : String) (v : Version) :
    Outcome Schema → Prop
  /-- the last registration at exactly the version -/
  | exact {s : Schema} (hlast : LastAt history name s) (hversion : s.version.isExactly v = true) :
      Resolution history name v (.ok s)
  /-- the newest with the same major number, if it is no older than the data -/
  | newest {s : Schema}
      (hnone : ∀ t ∈ history, t.name = name → t.version.isExactly v = false)
      (hlast : LastAt history name s) (hmajor : s.version.major = v.major)
      (hnewest : ∀ t ∈ history, t.name = name → t.version.major = v.major →
        ¬ t.version.Newer s.version)
      (hold : ¬ v.Newer s.version) : Resolution history name v (.ok s)
  /-- all with the same major number are older; the newest of all is named -/
  | incompatible {s : Schema}
      (hold : ∀ t ∈ history, t.name = name → t.version.major = v.major → v.Newer t.version)
      (hlast : LastAt history name s)
      (hnewest : ∀ t ∈ history, t.name = name → ¬ t.version.Newer s.version) :
      Resolution history name v (.error (.incompatibleVersion name v s.version))
  | unknown (hnone : ∀ t ∈ history, t.name ≠ name) :
      Resolution history name v (.error (.unsupportedType name))

/-- A registry as its history describes it. -/
structure Reflects (r : Registry) (history : List Schema) : Prop where
  descending : ∀ name, (r.versions name).Pairwise Version.Newer
  held : ∀ name s, s ∈ r.schemas name ↔ LastAt history name s
  latest : ∀ name s, r.latest name = .ok s ↔
    LastAt history name s ∧ ∀ t ∈ history, t.name = name → ¬ t.version.Newer s.version
  unsupported : ∀ name, r.latest name = .error (.unsupportedType name) ↔
    ∀ t ∈ history, t.name ≠ name
  resolve : ∀ name v answer, r.resolve name v = answer ↔ Resolution history name v answer

section

variable {history : List Schema} {name : String}

theorem schemas_eq_nil_iff : (empty.registerAll history).schemas name = [] ↔
    ∀ t ∈ history, t.name ≠ name := by
  rw [List.eq_nil_iff_forall_not_mem]
  constructor
  · rintro h t ht rfl
    obtain ⟨s, hs, -⟩ := exists_lastAt ht
    exact h s (mem_schemas_iff.mpr hs)
  · intro h s hs
    obtain ⟨hmem, hname⟩ := (mem_schemas_iff.mp hs).mem
    exact h s hmem hname

/-- The first of the list is the newest registration. -/
theorem latest_registerAll {s : Schema} : (empty.registerAll history).latest name = .ok s ↔
    LastAt history name s ∧ ∀ t ∈ history, t.name = name → ¬ t.version.Newer s.version := by
  rw [latest_eq_ok_iff]
  have hdescending := descending_registerAll history name
  constructor
  · intro h
    obtain ⟨ts, hts⟩ := List.head?_eq_some_iff.mp h
    refine ⟨mem_schemas_iff.mp (hts ▸ List.mem_cons_self), ?_⟩
    rintro t ht rfl
    obtain ⟨u, hu, -, hrank⟩ := exists_lastAt ht
    have hmem := mem_schemas_iff.mpr hu
    rw [hts] at hdescending hmem
    rw [Version.newer_iff, Nat.not_lt, ← hrank]
    rcases List.mem_cons.mp hmem with rfl | hmem
    · exact Nat.le_refl _
    · exact Nat.le_of_lt ((List.pairwise_cons.mp hdescending).1 u hmem)
  · rintro ⟨hlast, hnewest⟩
    have hmem := mem_schemas_iff.mpr hlast
    cases hts : (empty.registerAll history).schemas name with
    | nil => rw [hts] at hmem; cases hmem
    | cons t ts =>
        rw [hts] at hmem hdescending
        rcases List.mem_cons.mp hmem with rfl | hmem
        · rfl
        · have ht : LastAt history name t := mem_schemas_iff.mp (hts ▸ List.mem_cons_self)
          refine absurd (Version.newer_iff.mpr ?_) (hnewest t ht.mem.1 ht.mem.2)
          exact (List.pairwise_cons.mp hdescending).1 s hmem

theorem latest_unsupported : (empty.registerAll history).latest name =
    .error (.unsupportedType name) ↔ ∀ t ∈ history, t.name ≠ name := by
  rw [← schemas_eq_nil_iff, latest]
  split
  · next hts => simp [hts]
  · next hts => simp [hts]

/-- The first schema that takes the data is the newest with the major number of the data. -/
theorem newest_of_find? {v : Version} {s : Schema}
    (h : ((empty.registerAll history).schemas name).find? (·.version.accepts v) = some s) :
    ∀ t ∈ history, t.name = name → t.version.major = v.major → ¬ t.version.Newer s.version := by
  obtain ⟨haccepts, before, after, hsplit, hbefore⟩ := List.find?_eq_some_iff_append.mp h
  have hdescending := descending_registerAll history name
  rw [hsplit] at hdescending
  have hafter := (List.pairwise_cons.mp (List.pairwise_append.mp hdescending).2.1).1
  rintro t ht rfl hmajor
  obtain ⟨u, hu, hmajors, hrank⟩ := exists_lastAt ht
  have hmem := mem_schemas_iff.mpr hu
  rw [Version.newer_iff, ← hrank, Nat.not_lt]
  rw [hsplit, List.mem_append, List.mem_cons] at hmem
  rcases hmem with hmem | rfl | hmem
  · -- What stands before does not take the data, so it is older than the data.
    have hrefuses := hbefore u hmem
    rw [Bool.not_eq_true', ← Bool.not_eq_true, Version.accepts_iff, Version.newer_iff] at hrefuses
    rw [Version.accepts_iff, Version.newer_iff] at haccepts
    have holder : u.version.rank < v.rank := by
      false_or_by_contra
      exact hrefuses ⟨hmajors.trans hmajor, by assumption⟩
    omega
  · exact Nat.le_refl _
  · exact Nat.le_of_lt (hafter u hmem)

theorem resolution_resolve (v : Version) :
    Resolution history name v ((empty.registerAll history).resolve name v) := by
  cases hlatest : (empty.registerAll history).latest name with
  | error err =>
      have hresolve : (empty.registerAll history).resolve name v = .error err := by
        rw [resolve, hlatest]
        rfl
      rw [latest] at hlatest
      split at hlatest
      · cases hlatest
      · next hnil =>
          cases hlatest
          rw [hresolve]
          exact .unknown (schemas_eq_nil_iff.mp hnil)
  | ok newest =>
      rw [resolve, hlatest, Except.ok_bind]
      dsimp only
      cases hexact : ((empty.registerAll history).schemas name).find?
          (·.version.isExactly v) with
      | some s =>
          exact .exact (mem_schemas_iff.mp (List.mem_of_find?_eq_some hexact))
            (by simpa using List.find?_some hexact)
      | none =>
          cases haccepts : ((empty.registerAll history).schemas name).find?
              (·.version.accepts v) with
          | some s =>
              obtain ⟨hmajor, hold⟩ := Version.accepts_iff.mp
                (show s.version.accepts v = true by simpa using List.find?_some haccepts)
              refine .newest ?_ (mem_schemas_iff.mp (List.mem_of_find?_eq_some haccepts)) hmajor
                (newest_of_find? haccepts) hold
              rintro t ht rfl
              obtain ⟨u, hu, -, hrank⟩ := exists_lastAt ht
              have hu := List.find?_eq_none.mp hexact u (mem_schemas_iff.mpr hu)
              rwa [Bool.not_eq_true, Version.isExactly_eq_false_iff, hrank,
                ← Version.isExactly_eq_false_iff] at hu
          | none =>
              obtain ⟨hlast, hnewest⟩ := latest_registerAll.mp hlatest
              refine .incompatible ?_ hlast hnewest
              rintro t ht rfl hmajor
              obtain ⟨u, hu, hmajors, hrank⟩ := exists_lastAt ht
              have hu := List.find?_eq_none.mp haccepts u (mem_schemas_iff.mpr hu)
              rw [Version.accepts_iff, not_and, not_not] at hu
              rw [Version.newer_iff, ← hrank, ← Version.newer_iff]
              exact hu (hmajors.trans hmajor)

end

namespace Resolution

variable {history : List Schema} {name : String} {v : Version}

/-- The answer takes the data. -/
theorem takes {s : Schema} (h : Resolution history name v (.ok s)) :
    LastAt history name s ∧ s.version.accepts v = true := by
  cases h with
  | exact hlast hversion => exact ⟨hlast, Version.accepts_of_isExactly hversion⟩
  | newest _ hlast hmajor _ hold => exact ⟨hlast, Version.accepts_iff.mpr ⟨hmajor, hold⟩⟩

/-- Where there is no answer, no registration takes the data. -/
theorem refuses {err : EntityError} (h : Resolution history name v (.error err)) :
    ∀ t ∈ history, t.name = name → t.version.accepts v = false := by
  rintro t ht hname
  rw [Bool.eq_false_iff, ne_eq, Version.accepts_iff]
  rintro ⟨hmajor, hnewer⟩
  cases h with
  | incompatible hold => exact hnewer (hold t ht hname hmajor)
  | unknown hnone => exact hnone t ht hname

/-- A history gives one answer. -/
theorem unique {answer answer' : Outcome Schema} (h : Resolution history name v answer)
    (h' : Resolution history name v answer') : answer = answer' := by
  have hok {s : Schema} {err : EntityError} (hs : Resolution history name v (.ok s))
      (herr : Resolution history name v (.error err)) : False := by
    obtain ⟨hlast, haccepts⟩ := hs.takes
    rw [herr.refuses s hlast.mem.1 hlast.mem.2] at haccepts
    cases haccepts
  -- Two of the newest are no newer than each other.
  have hnewest {s t : Schema} (hs : LastAt history name s) (ht : LastAt history name t)
      (hst : ¬ s.version.Newer t.version) (hts : ¬ t.version.Newer s.version) : s = t := by
    rw [Version.newer_iff] at hst hts
    exact hs.unique ht (by omega)
  cases answer with
  | ok s =>
      cases answer' with
      | error err => exact (hok h h').elim
      | ok t =>
          refine congrArg _ ?_
          cases h with
          | exact hs hversion =>
              cases h' with
              | exact ht hversion' =>
                  exact hs.unique ht ((Version.isExactly_iff.mp hversion).trans
                    (Version.isExactly_iff.mp hversion').symm)
              | newest hnone ht =>
                  rw [hnone s hs.mem.1 hs.mem.2] at hversion
                  cases hversion
          | newest hnone hs hmajor hfirst =>
              cases h' with
              | exact ht hversion =>
                  rw [hnone t ht.mem.1 ht.mem.2] at hversion
                  cases hversion
              | newest _ ht hmajor' hfirst' =>
                  exact hnewest hs ht (hfirst' s hs.mem.1 hs.mem.2 hmajor)
                    (hfirst t ht.mem.1 ht.mem.2 hmajor')
  | error err =>
      cases answer' with
      | ok t => exact (hok h' h).elim
      | error err' =>
          cases h with
          | @incompatible s _ hs hfirst =>
              cases h' with
              | @incompatible t _ ht hfirst' =>
                  rw [hnewest hs ht (hfirst' s hs.mem.1 hs.mem.2) (hfirst t ht.mem.1 ht.mem.2)]
              | unknown hnone => exact absurd hs.mem.2 (hnone s hs.mem.1)
          | unknown hnone =>
              cases h' with
              | @incompatible t _ ht => exact absurd ht.mem.2 (hnone t ht.mem.1)
              | unknown => rfl

end Resolution

/-! ## Order and growth -/

/-- The registrations are of different types or of different versions. -/
def Distinct (history : List Schema) : Prop :=
  history.Pairwise fun s t => s.name = t.name → s.version.isExactly t.version = false

section

variable {history : List Schema}

theorem apart_symm {s t : Schema} (h : s.name = t.name → s.version.isExactly t.version = false)
    (hname : t.name = s.name) : t.version.isExactly s.version = false :=
  Version.isExactly_comm _ _ ▸ h hname.symm

instance : Std.Symm fun s t : Schema =>
    s.name = t.name → s.version.isExactly t.version = false where
  symm _ _ := apart_symm

theorem Distinct.perm {history' : List Schema} (h : Distinct history)
    (hperm : history.Perm history') : Distinct history' :=
  (hperm.pairwise_iff apart_symm).mp h

/-- Of distinct registrations each is the last at its version. -/
theorem Distinct.lastAt_iff (h : Distinct history) {name : String} {s : Schema} :
    LastAt history name s ↔ s ∈ history ∧ s.name = name := by
  refine ⟨LastAt.mem, ?_⟩
  rintro ⟨hs, rfl⟩
  obtain ⟨t, ht, -, hrank⟩ := exists_lastAt hs
  suffices s = t by rwa [← this] at ht
  false_or_by_contra
  next hne =>
    have hexact := h.forall hs ht.mem.1 hne ht.mem.2.symm
    rw [Version.isExactly_eq_false_iff] at hexact
    exact hexact hrank.symm

theorem schemas_eq_of_perm {history' : List Schema} (hperm : history.Perm history')
    (h : Distinct history) (name : String) :
    (empty.registerAll history).schemas name = (empty.registerAll history').schemas name := by
  have h' := h.perm hperm
  have hnodup (history : List Schema) : ((empty.registerAll history).schemas name).Nodup :=
    (descending_registerAll history name).imp fun {s t} hlt heq => by
      rw [heq] at hlt
      exact Nat.lt_irrefl _ hlt
  refine List.Perm.eq_of_pairwise (fun s t _ _ hst hts => absurd hst (Nat.lt_asymm hts))
    (descending_registerAll history name) (descending_registerAll history' name) ?_
  rw [List.perm_ext_iff_of_nodup (hnodup history) (hnodup history')]
  intro s
  rw [mem_schemas_iff, mem_schemas_iff, h.lastAt_iff, h'.lastAt_iff, hperm.mem_iff]

theorem reflects_registerAll (history : List Schema) :
    (empty.registerAll history).Reflects history where
  descending name := List.pairwise_map.mpr
    ((descending_registerAll history name).imp Version.newer_iff.mpr)
  held _ _ := mem_schemas_iff
  latest _ _ := latest_registerAll
  unsupported _ := latest_unsupported
  resolve _ v _ := ⟨fun h => h ▸ resolution_resolve v, fun h => (resolution_resolve v).unique h⟩

/-- **Registries after any history.** A registry answers as its history says: what was
registered last at a version counts. Distinct registrations may come in any order, and a
further registration never takes an answer away. -/
theorem registerAll_answers (history : List Schema) :
    (empty.registerAll history).Reflects history ∧
    (∀ history', history.Perm history' → Distinct history → ∀ name v,
      (empty.registerAll history).versions name = (empty.registerAll history').versions name ∧
      (empty.registerAll history).latest name = (empty.registerAll history').latest name ∧
      (empty.registerAll history).resolve name v = (empty.registerAll history').resolve name v) ∧
    ∀ name v s t, (empty.registerAll history).resolve name v = .ok s →
      ∃ s', ((empty.registerAll history).register t).resolve name v = .ok s' := by
  refine ⟨reflects_registerAll history, ?_, ?_⟩
  · intro history' hperm hdistinct name v
    have hschemas := schemas_eq_of_perm hperm hdistinct name
    have hlatest : (empty.registerAll history).latest name =
        (empty.registerAll history').latest name := by rw [latest, latest, hschemas]
    refine ⟨by rw [versions, versions, hschemas], hlatest, ?_⟩
    rw [resolve, resolve, hlatest, hschemas]
  · intro name v s t h
    obtain ⟨hlast, haccepts⟩ := (h ▸ resolution_resolve v : Resolution history name v (.ok s)).takes
    have hlater : Resolution (history ++ [t]) name v _ := resolution_resolve v
    rw [registerAll_append] at hlater
    cases hresolve : ((empty.registerAll history).register t).resolve name v with
    | ok s' => exact ⟨s', rfl⟩
    | error err =>
        rw [hresolve] at hlater
        rw [hlater.refuses s (List.mem_append_left _ hlast.mem.1) hlast.mem.2] at haccepts
        cases haccepts

end

end Registry

/-! ## Example -/

namespace Archive

def card (version : Version) : Schema := ⟨"Card", version, [], [], [], none⟩

/-- Two major numbers, and a patch that comes last. -/
def history : List Schema := [card ⟨1, 0, none⟩, card ⟨2, 0, none⟩, card ⟨1, 1, some 1⟩]

theorem distinct_history : Registry.Distinct history := by
  refine .cons ?_ (.cons ?_ (List.pairwise_singleton _ _)) <;>
    simp only [List.forall_mem_cons, List.not_mem_nil, false_imp_iff, implies_true, and_true] <;>
    decide

theorem resolve_history :
    (Registry.empty.registerAll history).resolve "Card" ⟨1, 1, none⟩ =
      .ok (card ⟨1, 1, some 1⟩) := rfl

theorem history_answers :
    (history.Perm history.reverse ∧ Registry.Distinct history ∧
      (Registry.empty.registerAll history).resolve "Card" ⟨1, 1, none⟩ =
        .ok (card ⟨1, 1, some 1⟩)) ∧
    (Registry.empty.registerAll history).versions "Card" =
      (Registry.empty.registerAll history.reverse).versions "Card" ∧
    ∃ s, ((Registry.empty.registerAll history).register (card ⟨1, 1, none⟩)).resolve "Card"
      ⟨1, 1, none⟩ = .ok s := by
  obtain ⟨-, hreordered, hgrown⟩ := Registry.registerAll_answers history
  refine ⟨⟨(List.reverse_perm history).symm, distinct_history, resolve_history⟩, ?_, ?_⟩
  · exact (hreordered _ (List.reverse_perm history).symm distinct_history "Card" ⟨1, 1, none⟩).1
  · exact hgrown "Card" ⟨1, 1, none⟩ _ (card ⟨1, 1, none⟩) resolve_history

end Archive

end Skew

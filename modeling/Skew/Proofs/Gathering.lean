import Skew.Proofs.Outcomes
import Skew.Proofs.Records

/-!
# Records gathered field by field

An entity is written, read and compared by visiting the fields of its schema in
order and keeping, under the name of each, what comes of it. `Record.gather` is that
visit. It succeeds with a record exactly when every field succeeds with the entry of
its name (`Record.gather_eq_ok_iff`), so what is gathered does not depend on the
order in which the fields were declared.
-/

namespace Skew.Record

variable {α φ : Type}

section

variable {m : Type → Type} [Monad m]

/-- Visits the fields in order; a field for which there is no step is passed over. -/
def gather (fields : List (String × φ)) (step : String → φ → Option (m α)) (r : Record α) :
    m (Record α) :=
  fields.foldlM (fun r p => match step p.1 p.2 with
    | some act => do
      let a ← act
      pure (insert r p.1 a)
    | none => pure r) r

/-- The entries that a visit adds, where `slot` says what comes of each name. -/
def collect (names : List String) (slot : String → Option α) (r : Record α) : Record α :=
  names.foldl (fun r n => match slot n with
    | some a => insert r n a
    | none => r) r

theorem Ascending.collect {r : Record α} (h : Ascending r) (names : List String)
    (slot : String → Option α) : Ascending (collect names slot r) := by
  induction names generalizing r with
  | nil => exact h
  | cons n names ih =>
      rw [Record.collect, List.foldl_cons]
      refine ih ?_
      split
      · exact h.insert _ _
      · exact h

theorem get?_collect (names : List String) (slot : String → Option α) (r : Record α)
    (k : String) : get? (collect names slot r) k =
      if k ∈ names then (slot k).or (get? r k) else get? r k := by
  induction names generalizing r with
  | nil => rfl
  | cons n names ih =>
      rw [collect, List.foldl_cons]
      refine (ih _).trans ?_
      by_cases hkn : k = n
      · subst hkn
        cases hslot : slot k with
        | none => simp
        | some a => simp [get?_insert]
      · cases hslot : slot n with
        | none => simp [hkn]
        | some a => simp [hkn, get?_insert_ne _ _ (Ne.symm hkn)]

/-- A visit whose steps only answer adds what they answer. -/
theorem gather_eq_pure_collect [LawfulMonad m] {fields : List (String × φ)}
    {step : String → φ → Option (m α)} {slot : String → Option α}
    (h : ∀ p ∈ fields, step p.1 p.2 = (slot p.1).map pure) (r : Record α) :
    gather fields step r = pure (collect (fields.map (·.1)) slot r) := by
  induction fields generalizing r with
  | nil => rfl
  | cons p fields ih =>
      obtain ⟨hp, hfields⟩ := List.forall_mem_cons.mp h
      rw [gather, List.foldlM_cons, hp]
      cases hslot : slot p.1 with
      | none =>
          rw [Option.map_none, pure_bind, List.map_cons, collect, List.foldl_cons, hslot]
          exact ih hfields r
      | some a =>
          simp only [Option.map_some, pure_bind, List.map_cons, collect, List.foldl_cons, hslot]
          exact ih hfields _

/-- If every step only answers what a record has, and the record has nothing else, the
visit yields the record. -/
theorem gather_eq_pure [LawfulMonad m] {fields : List (String × φ)}
    {step : String → φ → Option (m α)} {data : Record α} (hdata : Ascending data)
    (hnames : ∀ n ∈ data.map (·.1), n ∈ fields.map (·.1))
    (h : ∀ p ∈ fields, step p.1 p.2 = (get? data p.1).map pure) :
    gather fields step [] = pure data := by
  rw [gather_eq_pure_collect h]
  refine congrArg _ (ext (Ascending.nil.collect _ _) hdata fun k => ?_)
  rw [get?_collect]
  split
  · cases get? data k <;> rfl
  · next hk => exact (get?_eq_none_iff.mpr fun hmem => hk (hnames k hmem)).symm

end

/-! ## Visits that may fail -/

variable {ε : Type}

theorem steps_ok_of_gather {fields : List (String × φ)} {step : String → φ → Option (Except ε α)}
    {r data : Record α} (h : gather fields step r = .ok data) :
    ∀ p ∈ fields, ∀ act, step p.1 p.2 = some act → ∃ a, act = .ok a := by
  induction fields generalizing r with
  | nil => exact fun _ hp => nomatch hp
  | cons p fields ih =>
      rw [gather, List.foldlM_cons] at h
      obtain ⟨s, hs, h⟩ := Except.bind_eq_ok_iff.mp h
      refine List.forall_mem_cons.mpr ⟨fun act hact => ?_, ih h⟩
      rw [hact] at hs
      obtain ⟨a, ha, -⟩ := Except.bind_eq_ok_iff.mp hs
      exact ⟨a, ha⟩

/-- A visit fails where a step fails. -/
theorem exists_error_of_gather {fields : List (String × φ)}
    {step : String → φ → Option (Except ε α)} {r : Record α} {err : ε}
    (h : gather fields step r = .error err) :
    ∃ p ∈ fields, step p.1 p.2 = some (.error err) := by
  induction fields generalizing r with
  | nil => cases h
  | cons p fields ih =>
      rw [gather, List.foldlM_cons] at h
      have htail {s : Record α} (h : gather fields step s = .error err) :
          ∃ q ∈ p :: fields, step q.1 q.2 = some (.error err) := by
        obtain ⟨q, hq, hstep⟩ := ih h
        exact ⟨q, List.mem_cons_of_mem _ hq, hstep⟩
      cases hstep : step p.1 p.2 with
      | none =>
          rw [hstep] at h
          exact htail h
      | some act =>
          rw [hstep] at h
          cases act with
          | error err' => cases h; exact ⟨p, List.mem_cons_self, hstep⟩
          | ok a => exact htail h

/-- A visit of distinct fields yields a record exactly when each field yields the entry
of its name, and the record has no other entries. -/
theorem gather_eq_ok_iff {fields : List (String × φ)} (hfields : (fields.map (·.1)).Nodup)
    {step : String → φ → Option (Except ε α)} {data : Record α} :
    gather fields step [] = .ok data ↔ Ascending data ∧
      (∀ n ∈ data.map (·.1), n ∈ fields.map (·.1)) ∧
      ∀ p ∈ fields, step p.1 p.2 = (get? data p.1).map .ok := by
  refine ⟨fun h => ?_, fun ⟨hdata, hnames, hstep⟩ => gather_eq_pure hdata hnames hstep⟩
  -- What came of a name: the answer of the one field that has it.
  let slot (n : String) : Option α := (get? fields n).bind fun f => (step n f).bind Except.toOption
  have hslot (p : String × φ) (hp : p ∈ fields) : step p.1 p.2 = (slot p.1).map .ok := by
    have hget : get? fields p.1 = some p.2 := get?_of_mem hfields hp
    simp only [slot, hget, Option.bind_some]
    cases hstep : step p.1 p.2 with
    | none => rfl
    | some act =>
        obtain ⟨a, rfl⟩ := steps_ok_of_gather h p hp act hstep
        rfl
  rw [gather_eq_pure_collect hslot] at h
  obtain rfl : collect (fields.map (·.1)) slot [] = data := Except.ok.inj h
  refine ⟨Ascending.nil.collect _ _, ?_, ?_⟩
  · intro n hn
    false_or_by_contra
    next hmem =>
      rw [← contains_iff_mem, contains, get?_collect, if_neg hmem] at hn
      cases hn
  · intro p hp
    rw [hslot p hp, get?_collect, if_pos (List.mem_map_of_mem hp)]
    cases slot p.1 <;> rfl

/-! ## Records side by side -/

variable {β : Type}

theorem names_eq_of_forall₂ {R : String × α → String × β → Prop} {r : Record α} {s : Record β}
    (h : List.Forall₂ (fun e f => e.1 = f.1 ∧ R e f) r s) : r.map (·.1) = s.map (·.1) :=
  List.map_eq_map_iff_forall₂.mpr (h.imp fun _ _ hef => hef.1)

theorem names_eq_of_mapEntriesM {ε : Type} {f : α → Except ε β} {r : Record α} {s : Record β}
    (h : mapEntriesM f r = .ok s) : r.map (·.1) = s.map (·.1) := by
  refine names_eq_of_forall₂ (R := fun e d => f e.2 = .ok d.2) ?_
  refine (List.mapM_eq_ok_iff.mp h).imp ?_
  intro e d hed
  obtain ⟨b, hb, rfl⟩ := Except.map_eq_ok_iff.mp hed
  exact ⟨rfl, hb⟩

theorem Ascending.of_names_eq {r : Record α} {s : Record β} (h : Ascending r)
    (hnames : r.map (·.1) = s.map (·.1)) : Ascending s := by
  have hpair : (r.map (·.1)).Pairwise (· < ·) := List.pairwise_map.mpr h
  rw [hnames] at hpair
  exact List.pairwise_map.mp hpair

/-- Records whose entries stand in a relation one by one agree on what they hold, up to
that relation. -/
theorem get?_of_forall₂ {R : String × α → String × β → Prop} {r : Record α} {s : Record β}
    (h : List.Forall₂ (fun e f => e.1 = f.1 ∧ R e f) r s) (k : String) :
    get? r k = none ∧ get? s k = none ∨
      ∃ a b, get? r k = some a ∧ get? s k = some b ∧ R (k, a) (k, b) := by
  induction h with
  | nil => exact Or.inl ⟨rfl, rfl⟩
  | @cons e f r s hef _ ih =>
      obtain ⟨n, a⟩ := e
      obtain ⟨m, b⟩ := f
      obtain ⟨hname, hR⟩ := hef
      obtain rfl : n = m := hname
      by_cases hk : n = k
      · subst hk
        exact Or.inr ⟨a, b, if_pos rfl, if_pos rfl, hR⟩
      · rw [get?, get?, if_neg hk, if_neg hk]
        exact ih

/-- Ascending records stand in a relation entry by entry if they have the same names, and the
relation holds name by name. -/
theorem forall₂_iff_get? {R : α → β → Prop} {r : Record α} {s : Record β} (hr : Ascending r)
    (hs : Ascending s) : List.Forall₂ (fun e f => e.1 = f.1 ∧ R e.2 f.2) r s ↔
      (∀ n, n ∈ r.map (·.1) ↔ n ∈ s.map (·.1)) ∧
      ∀ n a b, get? r n = some a → get? s n = some b → R a b := by
  constructor
  · intro h
    refine ⟨fun n => by rw [names_eq_of_forall₂ h], fun n a b ha hb => ?_⟩
    rcases get?_of_forall₂ h n with ⟨hnone, -⟩ | ⟨a', b', ha', hb', hR⟩
    · cases hnone.symm.trans ha
    · cases ha.symm.trans ha'
      cases hb.symm.trans hb'
      exact hR
  · rintro ⟨hnames, h⟩
    have heq : List.Forall₂ (fun e f => e.1 = f.1) r s := List.map_eq_map_iff_forall₂.mp
      (NameSet.ext (List.pairwise_map.mpr hr) (List.pairwise_map.mpr hs) hnames)
    refine List.forall₂_iff_zip.mpr ⟨heq.length_eq, fun {e f} hmem => ?_⟩
    have hname : e.1 = f.1 := List.forall₂_zip heq hmem
    obtain ⟨he, hf⟩ := List.of_mem_zip hmem
    exact ⟨hname, h e.1 e.2 f.2 (get?_of_mem hr.nodup he) (hname ▸ get?_of_mem hs.nodup hf)⟩

theorem forall₂_insert_at {R : String → α → β → Prop} {r : Record α} {s : Record β}
    (h : List.Forall₂ (fun e f => e.1 = f.1 ∧ R e.1 e.2 f.2) r s) {k : String} {a : α} {b : β}
    (hab : R k a b) :
    List.Forall₂ (fun e f => e.1 = f.1 ∧ R e.1 e.2 f.2) (insert r k a) (insert s k b) := by
  induction h with
  | nil => exact .cons ⟨rfl, hab⟩ .nil
  | @cons e f r s hef hrs ih =>
      obtain ⟨n, c⟩ := e
      obtain ⟨m, d⟩ := f
      obtain ⟨hname, hcd⟩ := hef
      obtain rfl : n = m := hname
      rw [insert, insert]
      split
      · exact .cons ⟨rfl, hab⟩ hrs
      · split
        · exact .cons ⟨rfl, hab⟩ (.cons ⟨rfl, hcd⟩ hrs)
        · exact .cons ⟨rfl, hcd⟩ ih

theorem forall₂_insert {R : α → β → Prop} {r : Record α} {s : Record β}
    (h : List.Forall₂ (fun e f => e.1 = f.1 ∧ R e.2 f.2) r s) (k : String) {a : α} {b : β}
    (hab : R a b) :
    List.Forall₂ (fun e f => e.1 = f.1 ∧ R e.2 f.2) (insert r k a) (insert s k b) :=
  forall₂_insert_at (R := fun _ => R) h hab

/-- A visit succeeds where another does, if each of its steps does, and the records stand side
by side. -/
theorem gather_of_gather {ε : Type} {R : String → α → β → Prop} {fields : List (String × φ)}
    {step : String → φ → Option (Except ε α)} {step' : String → φ → Option (Except ε β)}
    (h : ∀ p ∈ fields, Option.Rel (fun x y => ∀ a, x = .ok a → ∃ b, y = .ok b ∧ R p.1 a b)
      (step p.1 p.2) (step' p.1 p.2)) {r r' : Record α} {s : Record β}
    (hrs : List.Forall₂ (fun e f => e.1 = f.1 ∧ R e.1 e.2 f.2) r s)
    (hr : gather fields step r = .ok r') :
    ∃ s', gather fields step' s = .ok s' ∧
      List.Forall₂ (fun e f => e.1 = f.1 ∧ R e.1 e.2 f.2) r' s' := by
  induction fields generalizing r s with
  | nil =>
      cases hr
      exact ⟨s, rfl, hrs⟩
  | cons p fields ih =>
      obtain ⟨hp, hfields⟩ := List.forall_mem_cons.mp h
      rw [gather, List.foldlM_cons] at hr
      rw [gather, List.foldlM_cons]
      generalize step p.1 p.2 = act, step' p.1 p.2 = act' at hp hr
      cases hp with
      | none => exact ih hfields hrs hr
      | @some x y hxy =>
          obtain ⟨next, hnext, hr⟩ := Except.bind_eq_ok_iff.mp hr
          obtain ⟨a, ha, hinsert⟩ := Except.bind_eq_ok_iff.mp hnext
          cases hinsert
          obtain ⟨b, rfl, hab⟩ := hxy a ha
          exact ih hfields (forall₂_insert_at hrs hab) hr

/-- Visits whose steps match gather records side by side. -/
theorem gather_matching {ε : Type} {R : α → β → Prop} {fields : List (String × φ)}
    {step : String → φ → Option (Except ε α)} {step' : String → φ → Option (Except ε β)}
    (h : ∀ p ∈ fields, Option.Rel (Except.Matching R) (step p.1 p.2) (step' p.1 p.2))
    {r : Record α} {s : Record β} (hrs : List.Forall₂ (fun e f => e.1 = f.1 ∧ R e.2 f.2) r s) :
    (gather fields step r).Matching (List.Forall₂ fun e f => e.1 = f.1 ∧ R e.2 f.2)
      (gather fields step' s) := by
  induction fields generalizing r s with
  | nil => exact .ok hrs
  | cons p fields ih =>
      obtain ⟨hp, hfields⟩ := List.forall_mem_cons.mp h
      rw [gather, gather, List.foldlM_cons, List.foldlM_cons]
      generalize step p.1 p.2 = act, step' p.1 p.2 = act' at hp
      cases hp with
      | none => exact ih hfields hrs
      | some hact =>
          refine Except.Matching.bind (hact.bind fun a b hab => ?_) fun r s hrs => ih hfields hrs
          exact .ok (forall₂_insert hrs p.1 hab)

end Skew.Record

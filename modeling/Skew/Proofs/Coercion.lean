import Skew.Proofs.CanonicalText
import Skew.Proofs.Likeness
import Skew.Proofs.RoundTrip

/-!
# What coercion leaves

Reading alone would let nulls and odd shapes through inside containers. That a field stores
only what it stores unchanged rests on the coercion that follows: a coerced value is one that
its kind stores (`Kind.stores_of_coerced`), for every kind down the containers, and so is what
a field stores for a document, or what stands in for null (`Field.coerce_take`). Coercion
brings in no entities; only a default does, or a codec (`Field.origin_of_coerced`).
-/

namespace Skew

/-! ## Coercing again -/

namespace Value

theorem pairwise_dedup (vs : List Value) : (dedup vs).Pairwise fun a b => (a == b) = false := by
  refine List.foldlRecOn vs _
    (motive := fun kept : List Value => kept.Pairwise fun a b => (a == b) = false)
    List.Pairwise.nil ?_
  intro kept hkept v _
  split
  · exact hkept
  · next hany =>
      rw [Bool.not_eq_true, List.any_eq_false] at hany
      refine List.pairwise_append.mpr ⟨hkept, List.pairwise_singleton _ _, ?_⟩
      intro a ha b hb
      rw [List.mem_singleton.mp hb]
      simpa using hany a ha

/-- Distinct values are all kept. -/
theorem dedup_of_pairwise {vs : List Value} (h : vs.Pairwise fun a b => (a == b) = false) :
    dedup vs = vs := by
  have hstep (kept vs : List Value) (h : (kept ++ vs).Pairwise fun a b => (a == b) = false) :
      vs.foldl (fun kept v => if kept.any (· == v) then kept else kept ++ [v]) kept =
        kept ++ vs := by
    induction vs generalizing kept with
    | nil => rw [List.foldl_nil, List.append_nil]
    | cons v vs ih =>
        have hany : kept.any (· == v) = false := by
          rw [List.any_eq_false]
          intro a ha
          simpa using (List.pairwise_append.mp h).2.2 a ha v List.mem_cons_self
        rw [List.append_cons] at h
        rw [List.foldl_cons, hany, if_neg Bool.false_ne_true, ih _ h, ← List.append_cons]
  exact hstep [] vs h

theorem dedup_dedup (vs : List Value) : dedup (dedup vs) = dedup vs :=
  dedup_of_pairwise (pairwise_dedup vs)

end Value

/-- A codec that coerces once: coercing again changes nothing, and what is stored is not null. -/
structure Codec.Stable (c : Codec) : Prop where
  again : ∀ v w, c.coerce v = .ok w → c.coerce w = .ok w
  notNull : ∀ v w, c.coerce v = .ok w → w.isNull = false

/-- A codec that settles what it coerces: coercing again changes nothing, and what is
stored is not null and holds no entity. -/
structure Codec.Settles (c : Codec) : Prop where
  again : ∀ v w, c.coerce v = .ok w → c.coerce w = .ok w
  notNull : ∀ v w, c.coerce v = .ok w → w.isNull = false
  closed : ∀ v w, c.coerce v = .ok w → w.graph = []

theorem Codec.Settles.stable {c : Codec} (h : c.Settles) : c.Stable := ⟨h.again, h.notNull⟩

theorem Codecs.none_settles (name : String) : (Codecs.none.codec name).Settles :=
  ⟨nofun, nofun, nofun⟩

/-- The codecs that a kind names coerce once. -/
def Kind.Stable [Codecs] : Kind → Prop
  | .custom c => (Codecs.codec c).Stable
  | .list k | .set k | .dict k | .nullable k => k.Stable
  | _ => True

theorem Kind.stable_of_settles [Codecs] (hcodecs : ∀ name, (Codecs.codec name).Settles)
    (k : Kind) : k.Stable := by
  induction k with
  | list k ih | set k ih | dict k ih | nullable k ih => exact ih
  | custom c => exact (hcodecs c).stable
  | _ => trivial

theorem Kind.Stable.bare [Codecs] {k : Kind} (hk : k.Stable) : k.bare.Stable := by
  induction k with
  | nullable k ih => exact ih hk
  | _ => exact hk

theorem Kind.Plain.stable [Codecs] {k : Kind} (hk : k.Plain) : k.Stable := by
  induction k with
  | list k ih | set k ih | dict k ih | nullable k ih => exact ih hk
  | custom c => cases hk
  | _ => trivial

/-- An entity in what some codec stores. -/
def Codecs.Makes [Codecs] (d : Entity) : Prop :=
  ∃ name v w, (Codecs.codec name).coerce v = .ok w ∧ d ∈ w.graph

section

variable [Codecs]

/-- Whatever a kind makes of a value, it stores. -/
theorem Kind.stores_of_coerced {k : Kind} (hk : k.Stable) {v w : Value} (h : k.coerce v = .ok w) :
    k.Stores w := by
  induction k generalizing v w with
  | integer nonNegative =>
      obtain ⟨n, -, h⟩ := Except.bind_eq_ok_iff.mp h
      split at h
      · cases h
      · next hn => cases h; exact .integer hn
  | float nonNegative =>
      obtain ⟨x, -, h⟩ := Except.bind_eq_ok_iff.mp h
      split at h
      · cases h
      · next hx => cases h; exact .float hx
  | string =>
      obtain ⟨s, -, rfl⟩ := Except.map_eq_ok_iff.mp h
      exact .string
  | boolean => cases h; exact .boolean
  | datetime =>
      cases v <;> simp only [Kind.coerce, coerceDatetime] at h <;> try cases h
      next s =>
        split at h
        · cases h; exact .datetime
        · cases h
      next t => exact .datetime
  | uuid =>
      cases v <;> simp only [Kind.coerce, coerceUuid] at h <;> try cases h
      next s =>
        split at h
        · next hs => cases h; exact .uuid (Format.Uuid.normalize?_of_normalize? hs)
        · cases h
  | address =>
      cases v <;> simp only [Kind.coerce, coerceAddress] at h <;> try cases h
      next s =>
        split at h
        · next hs => cases h; exact .address (Format.normalizeAddress?_of_normalizeAddress? hs)
        · cases h
  | enum valid =>
      obtain ⟨s, -, h⟩ := Except.bind_eq_ok_iff.mp h
      split at h
      · next hs => cases h; exact .enum hs
      · cases h
  | list k ih =>
      rw [Kind.coerce] at h
      split at h
      · obtain ⟨ws, hws, rfl⟩ := Except.map_eq_ok_iff.mp h
        refine .list ?_
        intro w hw
        obtain ⟨v, -, hv⟩ := List.exists_of_mem_mapM hws hw
        exact ih hk hv
      · cases h
  | set k ih =>
      rw [Kind.coerce] at h
      split at h
      · obtain ⟨ws, hws, rfl⟩ := Except.map_eq_ok_iff.mp h
        refine .set ?_ (Value.dedup_dedup ws)
        intro w hw
        obtain ⟨v, -, hv⟩ := List.exists_of_mem_mapM hws ((Value.dedup_sublist ws).subset hw)
        exact ih hk hv
      · cases h
  | dict k ih =>
      rw [Kind.coerce] at h
      split at h
      · obtain ⟨ds, hds, rfl⟩ := Except.map_eq_ok_iff.mp h
        refine .dict ?_
        intro d hd
        obtain ⟨e, -, he⟩ := exists_of_mem_mapEntriesM hds hd
        exact ih hk he
      · cases h
  | nullable k ih =>
      rw [Kind.coerce] at h
      split at h
      · cases h; exact .null
      · exact .nullable (ih hk h)
  | object type =>
      obtain ⟨rfl, e, rfl, rfl⟩ := coerceObject_eq_ok_iff.mp h
      exact .object
  | listOfObjects type =>
      obtain ⟨vs, hvs⟩ : ∃ vs : List Value, (vs.mapM (coerceObject type)).map .list = .ok w := by
        cases v <;> simp only [Kind.coerce, coerceObjects] at h <;> first | exact ⟨_, h⟩ | cases h
      obtain ⟨ws, hws, rfl⟩ := Except.map_eq_ok_iff.mp hvs
      obtain ⟨rfl, htypes⟩ := mapM_coerceObject_eq_ok_iff.mp hws
      exact .listOfObjects htypes
  | custom c => exact .custom (hk.again v w (Except.mapError_eq_ok_iff.mp h))

/-- A kind makes null of nothing but null. -/
theorem Kind.isNull_of_coerced {k : Kind} (hk : k.Stable) {v w : Value} (h : k.coerce v = .ok w)
    (hv : v.isNull = false) : w.isNull = false := by
  induction k with
  | nullable k ih =>
      rw [Kind.coerce, hv] at h
      exact ih hk h
  | custom c => exact hk.notNull v w (Except.mapError_eq_ok_iff.mp h)
  | _ =>
      have hstores := Kind.stores_of_coerced hk h
      cases hstores
      rfl

/-- A kind without codecs does the same whatever the codecs are. -/
theorem Kind.Plain.coerce_eq {k : Kind} (hk : k.Plain) : k.coerce = @Kind.coerce Codecs.none k := by
  funext v
  induction k generalizing v with
  | list k ih | set k ih | dict k ih | nullable k ih =>
      simp only [Kind.coerce, funext (ih hk)]
  | custom c => cases hk
  | _ => rfl

theorem Kind.Plain.field_coerce_eq {f : Field} (hk : f.kind.Plain) :
    f.coerce = @Field.coerce Codecs.none f := by
  funext v
  simp only [Field.coerce, hk.coerce_eq]

/-- What a kind makes of a value holds entities of that value, and what codecs make. -/
theorem Kind.origin_of_coerced {k : Kind} {v w : Value} (h : k.coerce v = .ok w) :
    ∀ d ∈ w.graph, d ∈ v.graph ∨ Codecs.Makes d := by
  have hitems {v : Value} {vs : List Value} (hv : v.items? = some vs) :
      v.graph = vs.flatMap Value.graph := by
    cases v <;> cases hv <;> rw [Value.graph, Value.itemGraph_eq]
  intro d hd
  induction k generalizing v w with
  | list k ih =>
      rw [Kind.coerce] at h
      split at h
      · next vs hvs =>
          obtain ⟨ws, hws, rfl⟩ := Except.map_eq_ok_iff.mp h
          rw [Value.graph, Value.itemGraph_eq, List.mem_flatMap] at hd
          obtain ⟨w, hw, hd⟩ := hd
          obtain ⟨u, hu, huw⟩ := List.exists_of_mem_mapM hws hw
          rw [hitems hvs]
          exact (ih huw hd).imp_left fun hd => List.mem_flatMap.mpr ⟨u, hu, hd⟩
      · cases h
  | set k ih =>
      rw [Kind.coerce] at h
      split at h
      · next vs hvs =>
          obtain ⟨ws, hws, rfl⟩ := Except.map_eq_ok_iff.mp h
          rw [Value.setOf, Value.graph, Value.itemGraph_eq, List.mem_flatMap] at hd
          obtain ⟨w, hw, hd⟩ := hd
          obtain ⟨u, hu, huw⟩ := List.exists_of_mem_mapM hws ((Value.dedup_sublist ws).subset hw)
          rw [hitems hvs]
          exact (ih huw hd).imp_left fun hd => List.mem_flatMap.mpr ⟨u, hu, hd⟩
      · cases h
  | dict k ih =>
      cases v <;> simp only [Kind.coerce, Value.entries?] at h <;> try cases h
      next es =>
        obtain ⟨ds, hds, rfl⟩ := Except.map_eq_ok_iff.mp h
        rw [Value.graph, Value.entryGraph_eq, List.mem_flatMap] at hd ⊢
        obtain ⟨p, hp, hd⟩ := hd
        obtain ⟨q, hq, hqp⟩ := exists_of_mem_mapEntriesM hds hp
        exact (ih hqp hd).imp_left fun hd => ⟨q, hq, hd⟩
  | nullable k ih =>
      rw [Kind.coerce] at h
      split at h
      · cases h; cases hd
      · exact ih h hd
  | object type =>
      obtain ⟨rfl, -⟩ := coerceObject_eq_ok_iff.mp h
      exact Or.inl hd
  | listOfObjects type =>
      cases v <;> simp only [Kind.coerce, coerceObjects] at h <;> try cases h
      all_goals
        obtain ⟨ws, hws, rfl⟩ := Except.map_eq_ok_iff.mp h
        obtain ⟨rfl, -⟩ := mapM_coerceObject_eq_ok_iff.mp hws
        exact Or.inl hd
  | custom c => exact Or.inr ⟨c, v, w, Except.mapError_eq_ok_iff.mp h, hd⟩
  | _ =>
      have hstores := Kind.stores_of_coerced (by trivial) h
      cases hstores
      cases hd

theorem Codecs.not_makes (hcodecs : ∀ name, (Codecs.codec name).Settles) (d : Entity) :
    ¬ Codecs.Makes d := by
  rintro ⟨name, v, w, hw, hd⟩
  rw [(hcodecs name).closed v w hw] at hd
  cases hd

/-! ## Fields -/

/-- What is read as null is stored as null, or is what stands in for null. -/
theorem Field.coerce_read_null {f : Field} {name : String} {r : Reading}
    (h : f.read name r = .ok .null) : f.coerce .null = .ok .null := by
  obtain ⟨v, -, h⟩ := Except.bind_eq_ok_iff.mp h
  split at h
  · next hv =>
      cases v <;> cases hv.1
      exact inField_eq_ok_iff.mp h
  · next hv =>
      cases h
      have hnullable : f.isNullable = true := by simpa [Value.isNull] using hv
      rw [Field.coerce, hnullable]
      rfl

/-- What a field stores for a document, it stores unchanged. -/
theorem Field.coerce_take {f : Field} (hk : f.kind.Stable) {name : String} {r : Reading} {w : Value}
    (h : f.take name r = .ok w) : f.coerce w = .ok w := by
  obtain ⟨u, hread, h⟩ := Except.bind_eq_ok_iff.mp h
  replace h := inField_eq_ok_iff.mp h
  cases hnull : u.isNull with
  | true =>
      obtain rfl := Value.eq_null_of_isNull hnull
      have hself := Field.coerce_read_null hread
      rw [h] at hself
      cases hself
      exact h
  | false =>
      rw [f.coerce_of_not_null hnull] at h
      rw [f.coerce_of_not_null (Kind.isNull_of_coerced hk h hnull)]
      exact (Kind.stores_of_coerced hk h).coerce

/-- Null is stored as null by a nullable field, and as the default by others. -/
theorem Field.coerce_null_eq_ok_iff {f : Field} {w : Value} :
    f.coerce .null = .ok w ↔
      (f.isNullable = true ∧ w = .null) ∨ (f.isNullable = false ∧ f.default? = some w) := by
  rw [Field.coerce]
  cases f.isNullable <;> cases f.default? <;> simp [Value.isNull, eq_comm]

/-- A field whose default fits coerces once, if its codecs do. -/
theorem Field.coerce_again {f : Field} (hk : f.kind.Stable)
    (hdefault : ∀ x, f.default? = some x → f.coerce x = .ok x) {v w : Value}
    (h : f.coerce v = .ok w) : f.coerce w = .ok w := by
  by_cases hnull : v.isNull = true
  · obtain rfl := Value.eq_null_of_isNull hnull
    rcases Field.coerce_null_eq_ok_iff.mp h with ⟨hnullable, rfl⟩ | ⟨-, hdefault'⟩
    · exact h
    · exact hdefault w hdefault'
  · rw [Bool.not_eq_true] at hnull
    rw [f.coerce_of_not_null hnull] at h
    rw [f.coerce_of_not_null (Kind.isNull_of_coerced hk h hnull)]
    exact (Kind.stores_of_coerced hk h).coerce

/-- The entities in what a field stores come with the value, from the default or from codecs. -/
theorem Field.origin_of_coerced {f : Field} {v w : Value} (h : f.coerce v = .ok w) {d : Entity}
    (hd : d ∈ w.graph) :
    d ∈ v.graph ∨ (∃ x, f.default? = some x ∧ d ∈ x.graph) ∨ Codecs.Makes d := by
  cases hnull : v.isNull with
  | true =>
      obtain rfl := Value.eq_null_of_isNull hnull
      rcases Field.coerce_null_eq_ok_iff.mp h with ⟨-, rfl⟩ | ⟨-, hdefault⟩
      · cases hd
      · exact Or.inr (Or.inl ⟨w, hdefault, hd⟩)
  | false =>
      rw [f.coerce_of_not_null hnull] at h
      exact (Kind.origin_of_coerced h d hd).imp_right Or.inr

/-- What a field without codecs stores holds entities of the value or of the default. -/
theorem Field.origin_of_plain {f : Field} (hk : f.kind.Plain) {v w : Value}
    (h : f.coerce v = .ok w) {d : Entity} (hd : d ∈ w.graph) :
    d ∈ v.graph ∨ ∃ x, f.default? = some x ∧ d ∈ x.graph := by
  rw [hk.field_coerce_eq] at h
  rcases @Field.origin_of_coerced Codecs.none f v w h d hd with hd | hd | hd
  · exact Or.inl hd
  · exact Or.inr hd
  · exact absurd hd (@Codecs.not_makes Codecs.none Codecs.none_settles d)

/-- The entities in what a field stores for a document come with what its kind read, with the
default when that was null, or from codecs. -/
theorem Field.origin_of_take {f : Field} {name : String} {r : Reading} {w : Value}
    (h : f.take name r = .ok w) {d : Entity} (hd : d ∈ w.graph) :
    (∃ u, r.field name f.kind = .ok u ∧ f.kind.coerce u = .ok w) ∨
      (r.field name f.kind = .ok .null ∧ f.isNullable = false ∧
        ∃ x, f.default? = some x ∧ d ∈ x.graph) ∨ Codecs.Makes d := by
  obtain ⟨u, hread, h⟩ := Except.bind_eq_ok_iff.mp h
  replace h := inField_eq_ok_iff.mp h
  cases hnull : u.isNull with
  | true =>
      obtain rfl := Value.eq_null_of_isNull hnull
      have hself := Field.coerce_read_null hread
      rw [h] at hself
      cases hself
      cases hd
  | false =>
      rw [f.coerce_of_not_null hnull] at h
      obtain ⟨v, hfield, hread⟩ := Except.bind_eq_ok_iff.mp hread
      split at hread
      · next hv =>
          cases v <;> cases hv.1
          rcases Field.coerce_null_eq_ok_iff.mp (inField_eq_ok_iff.mp hread) with hu | hu
          · exact absurd hu.1 hv.2
          · exact Or.inr ((Kind.origin_of_coerced h d hd).imp_left
              fun hd => ⟨hfield, hu.1, u, hu.2, hd⟩)
      · cases hread
        exact Or.inl ⟨u, hfield, h⟩

end

end Skew

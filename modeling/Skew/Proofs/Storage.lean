import Skew.Proofs.Arrival
import Skew.Proofs.Outcomes

/-!
# What fields store

Coercion brings a value into the form its kind stores; the values it leaves as they
are, the ones that can stand in a field, are described from the inside by
`Kind.Stores`, one case per kind. `Kind.stores_iff` says that the description is
exact, so a proof about stored values goes by cases on it and never opens coercion.

Whether a kind stores a value depends on nothing that a trip changes
(`Kind.Stores.received`).
-/

namespace Skew

namespace Value

theorem dedup_sublist (vs : List Value) : (dedup vs).Sublist vs := by
  have hstep (kept seen : List Value) (h : kept.Sublist seen) :
      (vs.foldl (fun kept v => if kept.any (· == v) then kept else kept ++ [v]) kept).Sublist
        (seen ++ vs) := by
    induction vs generalizing kept seen with
    | nil => simpa using h
    | cons v vs ih =>
        rw [List.foldl_cons, List.append_cons seen]
        refine ih _ _ ?_
        split
        · exact h.trans (List.sublist_append_left _ _)
        · exact h.append (List.Sublist.refl _)
  exact hstep [] [] (List.Sublist.refl _)

/-- If deduplication keeps the number of elements, it keeps the elements. -/
theorem eq_of_dedup_of_length {vs ws : List Value} (h : dedup vs = ws)
    (hlen : vs.length = ws.length) : vs = ws := by
  have hsub : ws.Sublist vs := h ▸ dedup_sublist vs
  exact (hsub.eq_of_length hlen.symm).symm

end Value

theorem coerceObject_eq_ok_iff {type : String} {v w : Value} :
    coerceObject type v = .ok w ↔ v = w ∧ ∃ e : Entity, v = .entity e ∧ e.schema.name = type := by
  cases v with
  | entity e =>
      rw [coerceObject]
      split
      · next h => simp [h]
      · next h => simp [h]
  | _ => simp [coerceObject]

theorem mapM_coerceObject_eq_ok_iff {type : String} {vs ws : List Value} :
    vs.mapM (coerceObject type) = .ok ws ↔
      vs = ws ∧ ∀ v ∈ vs, ∃ e : Entity, v = .entity e ∧ e.schema.name = type := by
  constructor
  · intro h
    have hall := List.mapM_eq_ok_iff.mp h
    have heq : vs = ws :=
      List.forall₂_eq_eq_eq ▸ hall.imp fun _ _ h => (coerceObject_eq_ok_iff.mp h).1
    subst heq
    exact ⟨rfl, fun v hv => (coerceObject_eq_ok_iff.mp (List.mapM_eq_self_iff.mp h v hv)).2⟩
  · rintro ⟨rfl, h⟩
    exact List.mapM_eq_self_iff.mpr fun v hv => coerceObject_eq_ok_iff.mpr ⟨rfl, h v hv⟩

variable [Codecs]

/-- The values that a kind coerces to themselves. -/
inductive Kind.Stores : Kind → Value → Prop
  | null {k : Kind} : Stores (.nullable k) .null
  | nullable {k : Kind} {v : Value} (hv : Stores k v) : Stores (.nullable k) v
  | integer {nonNegative : Bool} {n : Int64} (hn : ¬ (nonNegative = true ∧ n < 0)) :
      Stores (.integer nonNegative) (.int n)
  | float {nonNegative : Bool} {x : Float} (hx : ¬ (nonNegative = true ∧ x < 0)) :
      Stores (.float nonNegative) (.float x)
  | string {s : String} : Stores .string (.str s)
  | boolean {b : Bool} : Stores .boolean (.bool b)
  | datetime {t : Calendar.Instant} : Stores .datetime (.datetime t)
  | uuid {s : String} (hs : Format.Uuid.normalize? s = some s) : Stores .uuid (.str s)
  | address {s : String} (hs : Format.normalizeAddress? s = some s) : Stores .address (.str s)
  | enum {valid : List String} {s : String} (hs : s ∈ valid) : Stores (.enum valid) (.str s)
  | list {k : Kind} {vs : List Value} (hvs : ∀ v ∈ vs, Stores k v) : Stores (.list k) (.list vs)
  | set {k : Kind} {vs : List Value} (hvs : ∀ v ∈ vs, Stores k v)
      (hdedup : Value.dedup vs = vs) : Stores (.set k) (.set vs)
  | dict {k : Kind} {es : List (String × Value)} (hes : ∀ e ∈ es, Stores k e.2) :
      Stores (.dict k) (.map es)
  | object {e : Entity} : Stores (.object e.schema.name) (.entity e)
  | listOfObjects {type : String} {vs : List Value}
      (hvs : ∀ v ∈ vs, ∃ e : Entity, v = .entity e ∧ e.schema.name = type) :
      Stores (.listOfObjects type) (.list vs)
  | custom {c : String} {v : Value} (hv : (Codecs.codec c).coerce v = .ok v) :
      Stores (.custom c) v

/-! ## Fixed points of coercion -/

namespace Kind

theorem Stores.coerce {k : Kind} {v : Value} (h : k.Stores v) : k.coerce v = .ok v := by
  induction h with
  | null => rfl
  | @nullable k v _ ih =>
      rw [Kind.coerce]
      split
      · next hnull => cases v <;> first | rfl | cases hnull
      · exact ih
  | integer hn => simp [Kind.coerce, coerceInteger, Value.toInteger, hn]
  | float hx => simp [Kind.coerce, coerceFloat, Value.toFloat, hx]
  | string => rfl
  | boolean => rfl
  | datetime => rfl
  | uuid hs => simp [Kind.coerce, coerceUuid, hs]
  | address hs => simp [Kind.coerce, coerceAddress, hs]
  | enum hs => simp [Kind.coerce, coerceEnum, coerceString, hs]
  | list _ ih => simp [Kind.coerce, Value.items?, List.mapM_eq_self_iff.mpr ih]
  | set _ hdedup ih =>
      simp [Kind.coerce, Value.items?, List.mapM_eq_self_iff.mpr ih, Value.setOf, hdedup]
  | dict _ ih => simp [Kind.coerce, Value.entries?, mapEntriesM_eq_self_iff.mpr ih]
  | object => exact coerceObject_eq_ok_iff.mpr ⟨rfl, _, rfl, rfl⟩
  | listOfObjects hvs =>
      simp [Kind.coerce, coerceObjects, mapM_coerceObject_eq_ok_iff.mpr ⟨rfl, hvs⟩]
  | custom hv => simp [Kind.coerce, hv]

theorem stores_of_coerce {k : Kind} {v : Value} (h : k.coerce v = .ok v) : k.Stores v := by
  induction k generalizing v with
  | integer nonNegative =>
      obtain ⟨n, -, h⟩ := Except.bind_eq_ok_iff.mp h
      split at h
      · cases h
      · next hn => cases h; exact .integer hn
  | float nonNegative =>
      obtain ⟨x, -, h⟩ := Except.bind_eq_ok_iff.mp h
      split at h
      · cases h
      · next hx => cases h; exact .float hx
  | string =>
      obtain ⟨s, -, rfl⟩ := Except.map_eq_ok_iff.mp h
      exact .string
  | boolean => exact Except.ok.inj h ▸ .boolean
  | datetime =>
      cases v <;> simp only [Kind.coerce, coerceDatetime] at h <;>
        first | exact .datetime | cases h | (split at h <;> cases h)
  | uuid =>
      cases v <;> simp only [Kind.coerce, coerceUuid] at h <;> try cases h
      next s =>
        split at h
        · next hs => cases h; exact .uuid hs
        · cases h
  | address =>
      cases v <;> simp only [Kind.coerce, coerceAddress] at h <;> try cases h
      next s =>
        split at h
        · next hs => cases h; exact .address hs
        · cases h
  | enum valid =>
      obtain ⟨s, -, h⟩ := Except.bind_eq_ok_iff.mp h
      split at h
      · next hs => cases h; exact .enum hs
      · cases h
  | list k ih =>
      rw [Kind.coerce] at h
      split at h
      · next vs hvs =>
          obtain ⟨ws, hws, rfl⟩ := Except.map_eq_ok_iff.mp h
          cases hvs
          exact .list fun w hw => ih (List.mapM_eq_self_iff.mp hws w hw)
      · cases h
  | set k ih =>
      rw [Kind.coerce] at h
      split at h
      · next vs hvs =>
          obtain ⟨us, hus, rfl⟩ := Except.map_eq_ok_iff.mp h
          cases hvs
          have hlen := (List.mapM_eq_ok_iff.mp hus).length_eq
          have heq : us = Value.dedup us := Value.eq_of_dedup_of_length rfl hlen.symm
          rw [← heq] at hus
          refine .set (fun w hw => ih (List.mapM_eq_self_iff.mp hus w (heq ▸ hw))) ?_
          rw [← heq, ← heq]
      · cases h
  | dict k ih =>
      rw [Kind.coerce] at h
      split at h
      · next es hes =>
          obtain ⟨ds, hds, rfl⟩ := Except.map_eq_ok_iff.mp h
          cases hes
          exact .dict fun e he => ih (mapEntriesM_eq_self_iff.mp hds e he)
      · cases h
  | nullable k ih =>
      rw [Kind.coerce] at h
      split at h
      · cases h; exact .null
      · exact .nullable (ih h)
  | object type =>
      obtain ⟨-, e, rfl, rfl⟩ := coerceObject_eq_ok_iff.mp h
      exact .object
  | listOfObjects type =>
      cases v with
      | list vs =>
          obtain ⟨ws, hws, h⟩ := Except.map_eq_ok_iff.mp h
          cases h
          exact .listOfObjects (mapM_coerceObject_eq_ok_iff.mp hws).2
      | tuple vs =>
          obtain ⟨ws, -, h⟩ := Except.map_eq_ok_iff.mp h
          cases h
      | _ => cases h
  | custom c => exact .custom (Except.mapError_eq_ok_iff.mp h)

/-- A kind stores the values that it coerces to themselves. -/
theorem stores_iff {k : Kind} {v : Value} : k.Stores v ↔ k.coerce v = .ok v :=
  ⟨Stores.coerce, stores_of_coerce⟩

/-! ## Kinds without nullable layers -/

omit [Codecs] in
@[simp] theorem bare_bare (k : Kind) : k.bare.bare = k.bare := by
  induction k with
  | nullable k ih => exact ih
  | _ => rfl

end Kind

omit [Codecs] in
/-- Values that are all entities. -/
theorem Value.exists_entities {vs : List Value} (h : ∀ v ∈ vs, ∃ e, v = .entity e) :
    ∃ es : List Entity, vs = es.map .entity := by
  obtain ⟨es, hes⟩ := List.exists_forall₂ h
  refine ⟨es, ?_⟩
  rw [← List.forall₂_eq_eq_eq, List.forall₂_map_right_iff]
  exact hes

/-! ## Codecs that lose nothing -/

/-- A codec that reads back what it writes, for each value that it stores. It writes
null for null alone, since null is never given to a codec to read, and the values that
it stores hold no entities, since an arriving entity is bound and a codec binds none. -/
structure Codec.Lossless (c : Codec) : Prop where
  inverts : ∀ v, c.coerce v = .ok v → v.isNull = false →
    ∃ j, j.isNull = false ∧ c.write v = .ok j ∧ c.read j = .ok v
  closed : ∀ v, c.coerce v = .ok v → v.graph = []

/-- No codec takes anything: what holds of schemas without custom kinds needs no other. -/
@[reducible] def Codecs.none : Codecs :=
  ⟨fun _ => ⟨fun _ => .error "no codec", fun _ => .error "no codec", fun _ => .error "no codec"⟩⟩

/-- The codecs that a kind names lose nothing. -/
def Kind.Lossless : Kind → Prop
  | .custom c => (Codecs.codec c).Lossless
  | .list k | .set k | .dict k | .nullable k => k.Lossless
  | _ => True

/-- A kind stores what arrives of the values that it stores. -/
theorem Kind.Stores.received {k : Kind} {v : Value} (h : k.Stores v) (hk : k.Lossless)
    (c? : Option Context) : k.Stores (v.received c?) := by
  induction h with
  | null => exact .null
  | nullable _ ih => exact .nullable (ih hk)
  | integer hn => exact .integer hn
  | float hx => exact .float hx
  | string => exact .string
  | boolean => exact .boolean
  | datetime => exact .datetime
  | uuid hs => exact .uuid hs
  | address hs => exact .address hs
  | enum hs => exact .enum hs
  | list _ ih =>
      rw [Value.received, Value.receivedItems_eq]
      refine .list ?_
      intro w hw
      obtain ⟨v, hv, rfl⟩ := List.mem_map.mp hw
      exact ih v hv hk
  | set _ hdedup ih =>
      rw [Value.received, Value.receivedItems_eq]
      refine .set (fun w hw => ?_) (by rw [Value.dedup_received, hdedup])
      obtain ⟨v, hv, rfl⟩ := List.mem_map.mp hw
      exact ih v hv hk
  | dict _ ih =>
      rw [Value.received, Value.receivedEntries_eq]
      refine .dict ?_
      intro w hw
      obtain ⟨e, he, rfl⟩ := List.mem_map.mp hw
      exact ih e he hk
  | @object e => exact e.received_schema c? ▸ .object
  | listOfObjects hvs =>
      rw [Value.received, Value.receivedItems_eq]
      refine .listOfObjects ?_
      intro w hw
      obtain ⟨v, hv, rfl⟩ := List.mem_map.mp hw
      obtain ⟨e, rfl, he⟩ := hvs v hv
      exact ⟨e.received c?, rfl, by rw [e.received_schema, he]⟩
  | custom hv => rw [Value.received_of_graph_nil c? (hk.closed _ hv)]; exact .custom hv

/-- What arrives shows whether the kind stored the value that was sent. -/
theorem Kind.Stores.of_received {k : Kind} {v : Value} {c? : Option Context}
    (h : k.Stores (v.received c?)) (hk : k.Lossless) : k.Stores v := by
  induction k generalizing v with
  | nullable k ih =>
      cases hnull : v.isNull with
      | true =>
          cases v with
          | null => exact .null
          | _ => cases hnull
      | false =>
          refine .nullable (ih ?_ hk)
          generalize hw : v.received c? = w at h
          cases h with
          | null =>
              rw [← v.isNull_received c?, hw] at hnull
              cases hnull
          | nullable h => exact h
  | list k ih =>
      cases v <;> simp only [Value.received, Value.receivedItems_eq] at h <;> cases h
      next vs hvs => exact .list fun v hv => ih (hvs _ (List.mem_map_of_mem hv)) hk
  | set k ih =>
      cases v <;> simp only [Value.received, Value.receivedItems_eq] at h <;> cases h
      next vs hdedup hvs =>
        refine .set (fun v hv => ih (hvs _ (List.mem_map_of_mem hv)) hk) ?_
        rw [Value.dedup_received] at hdedup
        have hlen := congrArg List.length hdedup
        rw [List.length_map, List.length_map] at hlen
        exact (Value.eq_of_dedup_of_length rfl hlen.symm).symm
  | dict k ih =>
      cases v <;> simp only [Value.received, Value.receivedEntries_eq] at h <;> cases h
      next es hes => exact .dict fun e he => ih (hes _ (List.mem_map_of_mem he)) hk
  | object type =>
      cases v <;> simp only [Value.received] at h <;> cases h
      next e => exact e.received_schema c? ▸ .object
  | listOfObjects type =>
      cases v <;> simp only [Value.received, Value.receivedItems_eq] at h <;> cases h
      next vs hvs =>
        refine .listOfObjects ?_
        intro v hv
        obtain ⟨e, he, htype⟩ := hvs _ (List.mem_map_of_mem hv)
        cases v <;> simp only [Value.received] at he <;> cases he
        next d => exact ⟨d, rfl, d.received_schema c? ▸ htype⟩
  | custom c =>
      have hgraph : (v.received c?).graph = [] :=
        hk.closed _ (Except.mapError_eq_ok_iff.mp h.coerce)
      rw [Value.graph_received, List.map_eq_nil_iff] at hgraph
      exact Value.received_of_graph_nil c? hgraph ▸ h
  | _ => cases v <;> simp only [Value.received] at h <;> first | exact h | cases h

theorem Kind.stores_received_iff {k : Kind} (hk : k.Lossless) {v : Value} {c? : Option Context} :
    k.Stores (v.received c?) ↔ k.Stores v :=
  ⟨fun h => h.of_received hk, fun h => h.received hk c?⟩

theorem Field.coerce_of_not_null (f : Field) {v : Value} (hv : v.isNull = false) :
    f.coerce v = f.kind.coerce v := by
  rw [Field.coerce, hv]
  rfl

/-- What a field stores is null, or stored by its kind. -/
theorem Field.null_or_stores {f : Field} {v : Value} (h : f.coerce v = .ok v) :
    v = .null ∨ v.isNull = false ∧ f.kind.Stores v := by
  cases hnull : v.isNull with
  | true => exact Or.inl (Value.eq_null_of_isNull hnull)
  | false => exact Or.inr ⟨rfl, Kind.stores_of_coerce (f.coerce_of_not_null hnull ▸ h)⟩

/-- A field stores what arrives exactly when it stores what was sent. -/
theorem Field.coerce_received_iff {f : Field} (hk : f.kind.Lossless) {v : Value}
    {c? : Option Context} :
    f.coerce (v.received c?) = .ok (v.received c?) ↔ f.coerce v = .ok v := by
  cases hnull : v.isNull with
  | true =>
      cases v with
      | null => rfl
      | _ => cases hnull
  | false =>
      rw [f.coerce_of_not_null hnull, f.coerce_of_not_null ((v.isNull_received c?).trans hnull),
        ← Kind.stores_iff, ← Kind.stores_iff, Kind.stores_received_iff hk]

end Skew

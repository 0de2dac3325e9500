import Skew.Proofs.Coercion

/-!
# The shape of what is stored

`Kind.Shapes` says what a kind makes of a value, as far as its form goes: a scalar of the
kind's own sort, or a container whose elements are those of the value, coerced one by one
and in order. A set keeps of its coerced elements the first of each class of equal ones.
That the code, which compares a new element only with the kept ones, arrives at this rests
on the equality of values being transitive. It need not be reflexive: an indeterminate
float equals nothing, and each one is kept.
-/

namespace Skew

/-! ## Equality is transitive -/

theorem Int.eq_of_compare_then {e f : Int} {m n : Nat}
    (h : (compare e f).then (compare m n) = .eq) : e = f ∧ m = n := by
  rw [Ordering.then_eq_eq] at h
  exact ⟨Std.LawfulEqCmp.eq_of_compare h.1, Std.LawfulEqCmp.eq_of_compare h.2⟩

open Float.Model in
/-- Numbers that compare as equal are the same, or zeros. -/
theorem Float.Model.UnpackedFloat.eq_or_zero_of_compare {a b : UnpackedFloat}
    (h : a.compare b = some .eq) : a = b ∨ ∃ s t, a = .zero s ∧ b = .zero t := by
  cases a with
  | notANumber => cases h
  | infinity s =>
      cases b with
      | infinity t => cases s <;> cases t <;> first | exact Or.inl rfl | cases h
      | _ => cases s <;> cases h
  | zero s =>
      cases b with
      | zero t => exact Or.inr ⟨s, t, rfl, rfl⟩
      | notANumber => cases h
      | infinity t | finite t => cases t <;> cases h
  | finite s m e =>
      cases b with
      | finite t n f =>
          cases s with
          | positive =>
              cases t with
              | positive =>
                  obtain ⟨rfl, rfl⟩ := Int.eq_of_compare_then (Option.some.inj h)
                  exact Or.inl rfl
              | negative => cases h
          | negative =>
              cases t with
              | positive => cases h
              | negative =>
                  obtain ⟨rfl, rfl⟩ :=
                    Int.eq_of_compare_then (Ordering.swap_eq_eq.mp (Option.some.inj h))
                  exact Or.inl rfl
      | notANumber => cases h
      | infinity t => cases t <;> cases h
      | zero => cases s <;> cases h

theorem Float.beq_iff_compare {x y : Float} :
    (x == y) = true ↔ x.toModel.unpack.compare y.toModel.unpack = some .eq := by
  show (x.toModel.unpack.compare y.toModel.unpack == some .eq) = true ↔ _
  exact beq_iff_eq

theorem Float.beq_trans {x y z : Float} (hxy : (x == y) = true) (hyz : (y == z) = true) :
    (x == z) = true := by
  rw [beq_iff_compare] at hxy hyz ⊢
  rcases Model.UnpackedFloat.eq_or_zero_of_compare hxy with hsame | ⟨s, t, hx, hy⟩
  · rwa [hsame]
  · rcases Model.UnpackedFloat.eq_or_zero_of_compare hyz with hsame | ⟨t, u, -, hz⟩
    · rwa [← hsame]
    · rw [hx, hz]
      rfl

namespace Value

theorem beqItems_trans {us vs ws : List Value}
    (h : ∀ u ∈ us, ∀ v w, beq u v = true → beq v w = true → beq u w = true)
    (huv : beqItems us vs = true) (hvw : beqItems vs ws = true) : beqItems us ws = true := by
  induction us generalizing vs ws with
  | nil => cases vs with
    | nil => exact hvw
    | cons v vs => cases huv
  | cons u us ih =>
      obtain ⟨hu, hus⟩ := List.forall_mem_cons.mp h
      cases vs with
      | nil => cases huv
      | cons v vs =>
          cases ws with
          | nil => cases hvw
          | cons w ws =>
              rw [beqItems, Bool.and_eq_true] at huv hvw ⊢
              exact ⟨hu v w huv.1 hvw.1, ih hus huv.2 hvw.2⟩

theorem beqEntries_trans {us vs ws : List (String × Value)}
    (h : ∀ u ∈ us, ∀ v w, beq u.2 v = true → beq v w = true → beq u.2 w = true)
    (huv : beqEntries us vs = true) (hvw : beqEntries vs ws = true) :
    beqEntries us ws = true := by
  induction us generalizing vs ws with
  | nil => cases vs with
    | nil => exact hvw
    | cons v vs => cases huv
  | cons u us ih =>
      obtain ⟨hu, hus⟩ := List.forall_mem_cons.mp h
      cases vs with
      | nil => cases huv
      | cons v vs =>
          cases ws with
          | nil => cases hvw
          | cons w ws =>
              simp only [beqEntries, Bool.and_eq_true, beq_iff_eq] at huv hvw ⊢
              obtain ⟨⟨hkl, huv⟩, husvs⟩ := huv
              obtain ⟨⟨hlm, hvw⟩, hvsws⟩ := hvw
              exact ⟨⟨hkl.trans hlm, hu _ _ huv hvw⟩, ih hus husvs hvsws⟩

theorem beq_trans {u v w : Value} (huv : beq u v = true) (hvw : beq v w = true) :
    beq u w = true := by
  induction u using Value.nested generalizing v w with
  | null | bool | int | str | datetime =>
      cases v <;> try cases huv
      all_goals
        cases w <;> try cases hvw
        simp_all [beq]
  | float x =>
      cases v <;> try cases huv
      next y =>
        cases w <;> try cases hvw
        next z => exact Float.beq_trans huv hvw
  | list us ih | tuple us ih | set us ih =>
      cases v <;> try cases huv
      next vs =>
        cases w <;> try cases hvw
        next ws => exact beqItems_trans (fun u hu v w => ih u hu) huv hvw
  | map us ih =>
      cases v <;> try cases huv
      next vs =>
        cases w <;> try cases hvw
        next ws => exact beqEntries_trans (fun u hu v w => ih u hu) huv hvw
  | entity e ih =>
      cases v <;> try cases huv
      next d =>
        cases w <;> try cases hvw
        next x =>
          obtain ⟨s, _, _, us, _⟩ := e
          obtain ⟨t, _, _, vs, _⟩ := d
          obtain ⟨r, _, _, ws, _⟩ := x
          simp only [beq, Entity.beq, Bool.and_eq_true, beq_iff_eq] at huv hvw ⊢
          exact ⟨huv.1.trans hvw.1, beqEntries_trans (fun u hu v w => ih u hu) huv.2 hvw.2⟩

/-! ## First occurrences -/

/-- The elements that none before them equals, be it an element that was left out itself. -/
def firsts : List Value → List Value → List Value
  | _, [] => []
  | earlier, v :: vs =>
    if earlier.any (· == v) then firsts (earlier ++ [v]) vs
    else v :: firsts (earlier ++ [v]) vs

/-- What equals an element left out equals the one that was kept for it. -/
theorem any_kept {kept earlier : List Value} (hkept : ∀ k ∈ kept, k ∈ earlier)
    (hcovered : ∀ e ∈ earlier, e ∈ kept ∨ ∃ k ∈ kept, (k == e) = true) (v : Value) :
    kept.any (· == v) = earlier.any (· == v) := by
  rw [Bool.eq_iff_iff, List.any_eq_true, List.any_eq_true]
  constructor
  · rintro ⟨k, hk, hkv⟩
    exact ⟨k, hkept k hk, hkv⟩
  · rintro ⟨e, he, hev⟩
    rcases hcovered e he with he | ⟨k, hk, hke⟩
    · exact ⟨e, he, hev⟩
    · exact ⟨k, hk, beq_trans hke hev⟩

theorem dedup_eq_firsts (vs : List Value) : dedup vs = firsts [] vs := by
  have hstep (kept earlier : List Value) (hkept : ∀ k ∈ kept, k ∈ earlier)
      (hcovered : ∀ e ∈ earlier, e ∈ kept ∨ ∃ k ∈ kept, (k == e) = true) :
      vs.foldl (fun kept v => if kept.any (· == v) then kept else kept ++ [v]) kept =
        kept ++ firsts earlier vs := by
    induction vs generalizing kept earlier with
    | nil => rw [List.foldl_nil, firsts, List.append_nil]
    | cons v vs ih =>
        rw [List.foldl_cons, firsts, any_kept hkept hcovered]
        split
        · next hany =>
            refine ih kept (earlier ++ [v]) (fun k hk => List.mem_append_left _ (hkept k hk)) ?_
            intro e he
            rcases List.mem_append.mp he with he | he
            · exact hcovered e he
            · obtain rfl := List.mem_singleton.mp he
              rw [← any_kept hkept hcovered] at hany
              exact Or.inr (List.any_eq_true.mp hany)
        · rw [ih (kept ++ [v]) (earlier ++ [v]), List.append_assoc, List.singleton_append]
          · intro k hk
            exact List.mem_append.mpr ((List.mem_append.mp hk).imp_left (hkept k))
          · intro e he
            rcases List.mem_append.mp he with he | he
            · rcases hcovered e he with he | ⟨k, hk, hke⟩
              · exact Or.inl (List.mem_append_left _ he)
              · exact Or.inr ⟨k, List.mem_append_left _ hk, hke⟩
            · exact Or.inl (List.mem_append_right _ he)
  exact hstep [] [] nofun nofun

end Value

/-! ## Shapes -/

/-- What a kind makes of a value, as far as its form goes. A codec decides for itself. -/
def Kind.Shapes [Codecs] : Kind → Value → Value → Prop
  | .integer nonNegative => fun _ c => ∃ n, c = .int n ∧ (nonNegative = true → 0 ≤ n)
  | .float nonNegative => fun _ c => ∃ x, c = .float x ∧ (nonNegative = true → ¬ x < 0)
  | .string => fun _ c => ∃ s, c = .str s
  | .boolean => fun _ c => ∃ b, c = .bool b
  | .datetime => fun _ c => ∃ t, c = .datetime t
  | .uuid => fun _ c => ∃ s, c = .str s ∧ Format.Uuid.normalize? s = some s
  | .address => fun _ c => ∃ s, c = .str s ∧ Format.normalizeAddress? s = some s
  | .enum valid => fun _ c => ∃ s, c = .str s ∧ s ∈ valid
  | .list k => fun v c => ∃ vs ws, v.items? = some vs ∧ c = .list ws ∧
      List.Forall₂ (fun v w => k.coerce v = .ok w ∧ k.Shapes v w) vs ws
  | .set k => fun v c => ∃ vs ws, v.items? = some vs ∧ c = .set (Value.firsts [] ws) ∧
      (Value.firsts [] ws).Pairwise (fun a b => (a == b) = false) ∧
      List.Forall₂ (fun v w => k.coerce v = .ok w ∧ k.Shapes v w) vs ws
  | .dict k => fun v c => ∃ es ds, v.entries? = some es ∧ c = .map ds ∧
      List.Forall₂ (fun e d => d.1 = e.1 ∧ k.coerce e.2 = .ok d.2 ∧ k.Shapes e.2 d.2) es ds
  | .nullable k => fun v c => if v.isNull then c = .null else k.coerce v = .ok c ∧ k.Shapes v c
  | .object type => fun v c => ∃ e : Entity, v = .entity e ∧ c = .entity e ∧ e.schema.name = type
  | .listOfObjects type => fun v c => ∃ es : List Entity,
      (v = .list (es.map .entity) ∨ v = .tuple (es.map .entity)) ∧ c = .list (es.map .entity) ∧
        ∀ e ∈ es, e.schema.name = type
  | .custom codec => fun v c => (Codecs.codec codec).coerce v = .ok c

section

variable [Codecs]

/-- Whatever a kind makes of a value has its shape. -/
theorem Kind.shapes_of_coerced {k : Kind} (hk : k.Stable) {v c : Value} (h : k.coerce v = .ok c) :
    k.Shapes v c := by
  induction k generalizing v c with
  | integer nonNegative =>
      cases stores_of_coerced hk h with
      | integer hn => exact ⟨_, rfl, fun hneg => Int64.not_lt.mp fun hlt => hn ⟨hneg, hlt⟩⟩
  | float nonNegative =>
      cases stores_of_coerced hk h with
      | float hx => exact ⟨_, rfl, fun hneg hlt => hx ⟨hneg, hlt⟩⟩
  | string => cases stores_of_coerced hk h with | string => exact ⟨_, rfl⟩
  | boolean => cases stores_of_coerced hk h with | boolean => exact ⟨_, rfl⟩
  | datetime => cases stores_of_coerced hk h with | datetime => exact ⟨_, rfl⟩
  | uuid => cases stores_of_coerced hk h with | uuid hs => exact ⟨_, rfl, hs⟩
  | address => cases stores_of_coerced hk h with | address hs => exact ⟨_, rfl, hs⟩
  | enum valid => cases stores_of_coerced hk h with | enum hs => exact ⟨_, rfl, hs⟩
  | list k ih =>
      rw [Kind.coerce] at h
      split at h
      · next vs hvs =>
          obtain ⟨ws, hws, rfl⟩ := Except.map_eq_ok_iff.mp h
          exact ⟨vs, ws, hvs, rfl, (List.mapM_eq_ok_iff.mp hws).imp fun _ _ hw => ⟨hw, ih hk hw⟩⟩
      · cases h
  | set k ih =>
      rw [Kind.coerce] at h
      split at h
      · next vs hvs =>
          obtain ⟨ws, hws, rfl⟩ := Except.map_eq_ok_iff.mp h
          refine ⟨vs, ws, hvs, congrArg _ (Value.dedup_eq_firsts ws), ?_,
            (List.mapM_eq_ok_iff.mp hws).imp fun _ _ hw => ⟨hw, ih hk hw⟩⟩
          rw [← Value.dedup_eq_firsts]
          exact Value.pairwise_dedup ws
      · cases h
  | dict k ih =>
      rw [Kind.coerce] at h
      split at h
      · next es hes =>
          obtain ⟨ds, hds, rfl⟩ := Except.map_eq_ok_iff.mp h
          refine ⟨es, ds, hes, rfl, (List.mapM_eq_ok_iff.mp hds).imp fun e d hd => ?_⟩
          obtain ⟨w, hw, rfl⟩ := Except.map_eq_ok_iff.mp hd
          exact ⟨rfl, hw, ih hk hw⟩
      · cases h
  | nullable k ih =>
      rw [Kind.coerce] at h
      show if v.isNull then c = .null else k.coerce v = .ok c ∧ k.Shapes v c
      split at h
      · next hv => rw [if_pos hv]; exact (Except.ok.inj h).symm
      · next hv => rw [if_neg hv]; exact ⟨h, ih hk h⟩
  | object type =>
      obtain ⟨rfl, e, rfl, htype⟩ := coerceObject_eq_ok_iff.mp h
      exact ⟨e, rfl, rfl, htype⟩
  | listOfObjects type =>
      obtain ⟨vs, hvs, hmap⟩ : ∃ vs, (v = .list vs ∨ v = .tuple vs) ∧
          (vs.mapM (coerceObject type)).map .list = .ok c := by
        cases v <;> simp only [Kind.coerce, coerceObjects] at h <;> try cases h
        next vs => exact ⟨vs, Or.inl rfl, h⟩
        next vs => exact ⟨vs, Or.inr rfl, h⟩
      obtain ⟨ws, hws, rfl⟩ := Except.map_eq_ok_iff.mp hmap
      obtain ⟨rfl, htypes⟩ := mapM_coerceObject_eq_ok_iff.mp hws
      obtain ⟨es, rfl⟩ := Value.exists_entities fun v hv => (htypes v hv).imp fun _ he => he.1
      refine ⟨es, hvs, rfl, fun e he => ?_⟩
      obtain ⟨d, hd, hdtype⟩ := htypes _ (List.mem_map_of_mem he)
      cases hd
      exact hdtype
  | custom codec => exact Except.mapError_eq_ok_iff.mp h

/-- Coercion by a kind without codecs is sound and idempotent: what it makes of a value has the
shape of the kind, and coercing that again gives it back as it is. -/
theorem Kind.coerce_sound_idempotent {k : Kind} (hk : k.Plain) {v c : Value}
    (h : k.coerce v = .ok c) : k.Shapes v c ∧ k.coerce c = .ok c :=
  ⟨shapes_of_coerced hk.stable h, (stores_of_coerced hk.stable h).coerce⟩

end

/-! ## Readings

Numbers, gaps and indeterminate floats, to be kept as a set: of the numbers each once, of the
indeterminate ones every one. -/

namespace Readings

attribute [local instance] Codecs.none

def kind : Kind := .dict (.set (.nullable (.float true)))

def nan : Float := 0.0 / 0.0

def taken : Value :=
  .map [("probe", .tuple [.float nan, .float 0.5, .null, .float nan, .float 0.5, .float 2.5])]

def stored : Value :=
  .map [("probe", .set [.float nan, .float 0.5, .null, .float nan, .float 2.5])]

theorem coerce_taken : kind.coerce taken = .ok stored := rfl

theorem kind_plain : kind.Plain := trivial

theorem stored_sound : kind.Plain ∧ kind.coerce taken = .ok stored ∧
    kind.Shapes taken stored ∧ kind.coerce stored = .ok stored :=
  ⟨kind_plain, coerce_taken, Kind.coerce_sound_idempotent kind_plain coerce_taken⟩

end Readings

end Skew

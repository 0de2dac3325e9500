import Skew.Proofs.Labels
import Skew.Proofs.Transfer
import Skew.Proofs.Twins

/-!
# The form of what is written

What a value is written as has the form that the value and its kind give it: a container makes an
array, a map an object with its keys, an entity its primitive, and a codec makes what it likes
(`Value.wireForm_of_write`). Where no codec is involved, the form can be read off the document
again.

Documents that are compared have to be equal to themselves. A scalar is not written as an
indeterminate number, so nothing else is if no codec does that (`Entity.write_determinate`).
-/

namespace Skew

/-- The kind by which a container writes its elements. -/
def Kind.element? : Kind → Option Kind
  | .list k | .set k => some k
  | .listOfObjects type => some (.object type)
  | _ => none

theorem Kind.Plain.ne_custom {k : Kind} (hk : k.Plain) (c : String) : k ≠ .custom c := by
  rintro rfl
  exact hk

theorem Kind.Plain.element {k k' : Kind} (hk : k.Plain) (h : k.element? = some k') :
    k'.Plain := by
  cases k <;> cases h <;> exact hk

/-- A container is not written as a scalar. -/
theorem Value.writeScalar?_of_items {v : Value} {vs : List Value} (hv : v.items? = some vs)
    (k : Kind) : v.writeScalar? k = none := by
  cases v <;> cases hv <;> rfl

section

variable [Codecs]

/-- What a value is written as by a kind that is not nullable. -/
inductive Value.WireForm (name : String) : Value → Kind → Json → Prop
  | null {k : Kind} : WireForm name .null k .null
  | custom {v : Value} {c : String} {j : Json} (h : (Codecs.codec c).write v = .ok j) :
      WireForm name v (.custom c) j
  | scalar {v : Value} {k : Kind} {j : Json} (h : v.writeScalar? k = some j) : WireForm name v k j
  | items {v : Value} {k k' : Kind} {vs : List Value} {js : List Json} (hk : k.element? = some k')
      (hv : v.items? = some vs) (h : List.Forall₂ (fun w i => w.write name k' = .ok i) vs js) :
      WireForm name v k (.arr js)
  | entries {es : List (String × Value)} {k : Kind} {ms : Members}
      (h : List.Forall₂ (fun e m => e.1 = m.1 ∧ e.2.write name k = .ok m.2) es ms) :
      WireForm name (.map es) (.dict k) (.obj ms)
  | entity {e : Entity} {type : String} {p : Primitive} (h : e.write = .ok p) :
      WireForm name (.entity e) (.object type) (.obj p.members)

theorem Value.wireForm_of_write {v : Value} {name : String} {k : Kind} {j : Json}
    (h : v.write name k = .ok j) : v.WireForm name k.bare j := by
  have hleaf {k : Kind} (h : v.writeLeaf name k = .ok j) : v.WireForm name k j := by
    unfold writeLeaf at h
    split at h
    · exact .custom (Except.mapError_eq_ok_iff.mp h)
    · split at h
      · next hscalar =>
          cases h
          exact .scalar hscalar
      · cases h
  induction k with
  | nullable k ih => exact ih (v.write_nullable name k ▸ h)
  | list k =>
      obtain ⟨rfl, rfl⟩ | ⟨vs, js, hitems, rfl, hwritten⟩ := written_items (Or.inl h)
      · exact .null
      · exact .items rfl hitems hwritten
  | set k =>
      obtain ⟨rfl, rfl⟩ | ⟨vs, js, hitems, rfl, hwritten⟩ := written_items (Or.inr h)
      · exact .null
      · exact .items rfl hitems hwritten
  | listOfObjects type =>
      obtain ⟨rfl, rfl⟩ | ⟨d, rfl, hd⟩ | ⟨ds, js, hitems, rfl, hds⟩ := written_of_isObject rfl h
      · exact .null
      · cases h
      · refine .items rfl hitems (List.forall₂_map_left_iff.mpr (hds.imp fun d i hdi => ?_))
        obtain ⟨p, hp, rfl⟩ := hdi
        exact Except.map_eq_ok_iff.mpr ⟨p, hp, rfl⟩
  | object type =>
      cases v with
      | null => cases h; exact .null
      | entity e =>
          obtain ⟨p, hp, rfl⟩ := Except.map_eq_ok_iff.mp h
          exact .entity hp
      | _ => cases h
  | dict k =>
      cases v with
      | null => cases h; exact .null
      | map es =>
          rw [write_dict] at h
          obtain ⟨ms, hms, rfl⟩ := Except.map_eq_ok_iff.mp h
          refine .entries ((List.mapM_eq_ok_iff.mp hms).imp fun e m hm => ?_)
          obtain ⟨i, hi, rfl⟩ := Except.map_eq_ok_iff.mp hm
          exact ⟨rfl, hi⟩
      | _ => cases h
  | _ =>
      cases v with
      | null => cases h; exact .null
      | _ => exact hleaf h

omit [Codecs] in
theorem Value.leaf_of_writeScalar? {v : Value} {k : Kind} {j : Json}
    (h : v.writeScalar? k = some j) : j.Leaf := by
  unfold writeScalar? at h
  split at h
  case h_2 | h_3 =>
    obtain ⟨-, rfl⟩ := Json.ofFloat?_eq_some_iff.mp h
    trivial
  case h_10 => cases h
  all_goals
    cases h
    trivial

/-! ## Reading the form off the document -/

namespace Value.WireForm

variable {v : Value} {name : String} {k : Kind} {j : Json}

theorem of_items (h : v.WireForm name k j) (hk : ∀ c, k ≠ .custom c) {vs : List Value}
    (hv : v.items? = some vs) :
    ∃ k' js, k.element? = some k' ∧ j = .arr js ∧
      List.Forall₂ (fun w i => w.write name k' = .ok i) vs js := by
  cases h with
  | custom => exact absurd rfl (hk _)
  | items hk hv' h =>
      cases hv.symm.trans hv'
      exact ⟨_, _, hk, rfl, h⟩
  | scalar h =>
      rw [writeScalar?_of_items hv] at h
      cases h
  | _ => cases hv

theorem exists_items {js : List Json} (h : v.WireForm name k (.arr js)) (hk : k.Plain) :
    ∃ vs, v.items? = some vs := by
  cases h with
  | custom => cases hk
  | items _ hv => exact ⟨_, hv⟩
  | scalar h => cases leaf_of_writeScalar? h

theorem of_map {es : List (String × Value)} (h : (Value.map es).WireForm name k j)
    (hk : ∀ c, k ≠ .custom c) :
    ∃ k' ms, k = .dict k' ∧ j = .obj ms ∧
      List.Forall₂ (fun e m => e.1 = m.1 ∧ e.2.write name k' = .ok m.2) es ms := by
  cases h with
  | custom => exact absurd rfl (hk _)
  | entries h => exact ⟨_, _, rfl, rfl, h⟩
  | scalar h => cases h
  | items _ hv => cases hv

theorem of_entity {e : Entity} (h : (Value.entity e).WireForm name k j) (hk : ∀ c, k ≠ .custom c) :
    ∃ type p, k = .object type ∧ j = p.toJson ∧ e.write = .ok p := by
  cases h with
  | custom => exact absurd rfl (hk _)
  | entity h => exact ⟨_, _, rfl, rfl, h⟩
  | scalar h => cases h
  | items _ hv => cases hv

theorem of_obj {ms : Members} (h : v.WireForm name k (.obj ms)) (hk : k.Plain) :
    (∃ es, v = .map es) ∨ ∃ e, v = .entity e := by
  cases h with
  | custom => cases hk
  | entries => exact Or.inl ⟨_, rfl⟩
  | entity => exact Or.inr ⟨_, rfl⟩
  | scalar h => cases leaf_of_writeScalar? h

theorem eq_null (h : v.WireForm name k .null) (hk : ∀ c, k ≠ .custom c) : v = .null := by
  cases h with
  | custom => exact absurd rfl (hk _)
  | null => rfl
  | scalar h => cases leaf_of_writeScalar? h

theorem of_leaf (h : v.WireForm name k j) (hk : k.Plain) (hj : j.Leaf) :
    v.writeScalar? k = some j := by
  cases h with
  | custom => cases hk
  | scalar h => exact h
  | _ => cases hj

theorem of_scalar (h : v.WireForm name k j) (hk : k.Plain) {i : Json}
    (hi : v.writeScalar? k = some i) : i = j := by
  cases h with
  | custom => cases hk
  | scalar h => exact Option.some.inj (hi.symm.trans h)
  | items _ hv =>
      rw [writeScalar?_of_items hv] at hi
      cases hi
  | _ => cases hi

/-- A kind that writes a text writes no object. -/
theorem not_obj {w : Value} {s : String} {ms : Members} (hv : v.WireForm name k (.str s))
    (hw : w.WireForm name k (.obj ms)) (hk : k.Plain) : False := by
  cases hv with
  | custom => cases hk
  | scalar hv =>
      cases hw with
      | custom => cases hk
      | scalar hw => cases leaf_of_writeScalar? hw
      | entries => cases v <;> cases hv
      | entity => cases v <;> cases hv

end Value.WireForm

/-! ## Documents equal to themselves -/

/-- A codec that writes no indeterminate number. -/
def Codec.Determinate (c : Codec) : Prop := ∀ v j, c.write v = .ok j → (j == j) = true

/-- The codecs that a kind names are determinate. -/
def Kind.Determinate : Kind → Prop
  | .custom c => (Codecs.codec c).Determinate
  | .list k | .set k | .dict k | .nullable k => k.Determinate
  | _ => True

theorem Kind.Determinate.bare {k : Kind} (h : k.Determinate) : k.bare.Determinate := by
  induction k with
  | nullable k ih => exact ih h
  | _ => exact h

theorem Kind.Determinate.element {k k' : Kind} (hk : k.Determinate) (h : k.element? = some k') :
    k'.Determinate := by
  cases k <;> cases h <;> exact hk

theorem Kind.Plain.determinate {k : Kind} (hk : k.Plain) : k.Determinate := by
  induction k with
  | list k ih | set k ih | dict k ih | nullable k ih => exact ih hk
  | custom c => cases hk
  | _ => trivial

/-- The codecs of the fields are determinate. -/
def Schema.Determinate (s : Schema) : Prop := ∀ p ∈ s.fields, p.2.kind.Determinate

section

variable {names : List String} (hnames : Primitive.changesKey ∈ names)
include hnames

/-- The primitive of an entity is equal to itself if its data is. -/
theorem Entity.write_determinate_of {e : Entity} (h : ∀ p ∈ e.values, ∀ f : Field,
      (p.1, f) ∈ e.schema.fields → ∀ j, p.2.write p.1 f.kind = .ok j →
        Json.EqualWithout names j j) {p : Primitive} (hp : e.write = .ok p) :
    Json.EqualWithout names p.toJson p.toJson := by
  have hself := write_twin hnames ⟨rfl, rfl⟩ (data_twin (e := e) (d := e) rfl
    (List.forall₂_same.mpr fun p hp => ⟨rfl, fun f hf => .of_self (h p hp f hf)⟩))
  rw [hp] at hself
  cases hself with
  | ok h => exact h

/-- What a value is written as is equal to itself. -/
theorem Value.WireForm.determinate {v : Value} (hkinds : ∀ d ∈ v.graph, d.schema.Determinate)
    {name : String} {k : Kind} (hk : k.Determinate) {j : Json} (h : v.WireForm name k j) :
    Json.EqualWithout names j j := by
  have hscalar {v : Value} {k : Kind} {j : Json} (h : v.writeScalar? k = some j) :
      Json.EqualWithout names j j := (alikeWithout_writeScalar h).equal
  induction v using Value.nested generalizing name k j with
  | null =>
      cases h with
      | null => exact .null
      | custom hwrite => exact .of_beq (hk _ j hwrite)
      | scalar h => exact hscalar h
      | items _ hv => cases hv
  | bool | int | float | str | datetime =>
      cases h with
      | custom hwrite => exact .of_beq (hk _ j hwrite)
      | scalar h => exact hscalar h
      | items _ hv => cases hv
  | list vs ih | tuple vs ih | set vs ih =>
      cases h with
      | custom hwrite => exact .of_beq (hk _ j hwrite)
      | scalar h => exact hscalar h
      | items hk' hv hwritten =>
          cases hv
          refine .arr (List.forall₂_same.mpr fun i hi => ?_)
          obtain ⟨w, hw, hwrite⟩ := List.exists_of_mem_forall₂ hwritten hi
          exact ih w hw (forall_graph_items hkinds w hw) (hk.element hk').bare
            (wireForm_of_write hwrite)
  | map es ih =>
      cases h with
      | custom hwrite => exact .of_beq (hk _ j hwrite)
      | scalar h => exact hscalar h
      | items _ hv => cases hv
      | @entries _ k ms hwritten =>
          have hvalues : k.Determinate := hk
          refine .obj (List.forall₂_same.mpr fun m hm => ⟨rfl, ?_⟩)
          obtain ⟨p, hp, -, hwrite⟩ := List.exists_of_mem_forall₂ hwritten hm
          exact ih p hp (forall_graph_entries hkinds p hp) hvalues.bare (wireForm_of_write hwrite)
  | entity e ih =>
      cases h with
      | custom hwrite => exact .of_beq (hk _ j hwrite)
      | scalar h => exact hscalar h
      | items _ hv => cases hv
      | entity hp =>
          refine Entity.write_determinate_of hnames (fun p hp f hf _ hwrite => ?_) hp
          have hfield : f.kind.Determinate := hkinds e e.self_mem_graph _ hf
          exact ih p hp (Entity.forall_graph_values hkinds p hp) hfield.bare
            (wireForm_of_write hwrite)

theorem Entity.write_determinate {e : Entity} (hkinds : ∀ d ∈ e.graph, d.schema.Determinate)
    {p : Primitive} (hp : e.write = .ok p) : Json.EqualWithout names p.toJson p.toJson := by
  have hform : (Value.entity e).WireForm "" (.object "") p.toJson := .entity hp
  exact Value.WireForm.determinate hnames (v := .entity e) (k := .object "") hkinds trivial hform

end

end

end Skew

import Skew.Proofs.Labels
import Skew.Proofs.Normalization

/-!
# What can be sent

A kind writes the values of its own form, whatever it would coerce them to: `Kind.Writes` says
which, and the code writes exactly these (`Value.exists_write_iff`). A value that a kind stores
has that form, so that only a float which is no number, or an entity in it, can keep it from
being written.

What a field stores was coerced, with one exception: for null it stores its default as that was
declared. `Field.Unsendable` lists both ways in which a field comes to hold what it cannot write,
and there is no third (`Field.writes_iff`). Entities are followed down their fields in the same
way (`Entity.exists_write_iff`).
-/

namespace Skew

/-! ## Atoms and entities of a value -/

namespace Value

theorem atoms_of_items {v : Value} {vs : List Value} (hv : v.items? = some vs) :
    v.atoms = vs.flatMap atoms := by
  rw [← itemAtoms_eq]
  cases v <;> cases hv <;> rfl

/-- The entities at every depth are those that stand in the value, and what these hold. -/
theorem forall_graph_iff {P : Entity → Prop} {v : Value} :
    (∀ d ∈ v.graph, P d) ↔ ∀ e, .entity e ∈ v.atoms → ∀ d ∈ e.graph, P d := by
  induction v using Value.nested with
  | null | bool | int | float | str | datetime => simp [graph, atoms]
  | list vs ih | tuple vs ih | set vs ih =>
      rw [graph, itemGraph_eq, List.forall_mem_flatMap, atoms, itemAtoms_eq]
      simp only [List.mem_flatMap]
      constructor
      · rintro h e ⟨w, hw, he⟩
        exact (ih w hw).mp (h w hw) e he
      · exact fun h w hw => (ih w hw).mpr fun e he => h e ⟨w, hw, he⟩
  | map es ih =>
      rw [graph, entryGraph_eq, List.forall_mem_flatMap, atoms, entryAtoms_eq]
      simp only [List.mem_flatMap]
      constructor
      · rintro h e ⟨p, hp, he⟩
        exact (ih p hp).mp (h p hp) e he
      · exact fun h p hp => (ih p hp).mpr fun e he => h e ⟨p, hp, he⟩
  | entity e _ => simp [graph, atoms]

end Value

section

variable [Codecs]

/-! ## Values that a kind writes -/

/-- The values that a kind writes, where `E` says which entities can be written. -/
inductive Kind.Writes (E : Entity → Prop) : Kind → Value → Prop
  | null {k : Kind} : Writes E k .null
  | integer {nonNegative : Bool} {n : Int64} : Writes E (.integer nonNegative) (.int n)
  | float {nonNegative : Bool} {v : Value} {x : Float} (hv : v.float? = some x)
      (hx : x.isFinite = true) : Writes E (.float nonNegative) v
  | string {s : String} : Writes E .string (.str s)
  | boolean {b : Bool} : Writes E .boolean (.bool b)
  | datetime {t : Calendar.Instant} : Writes E .datetime (.datetime t)
  | uuid {s : String} : Writes E .uuid (.str s)
  | address {s : String} : Writes E .address (.str s)
  | enum {valid : List String} {s : String} : Writes E (.enum valid) (.str s)
  | list {k : Kind} {v : Value} {vs : List Value} (hitems : v.items? = some vs)
      (hvs : ∀ w ∈ vs, Writes E k w) : Writes E (.list k) v
  | set {k : Kind} {v : Value} {vs : List Value} (hitems : v.items? = some vs)
      (hvs : ∀ w ∈ vs, Writes E k w) : Writes E (.set k) v
  | dict {k : Kind} {es : List (String × Value)} (hes : ∀ e ∈ es, Writes E k e.2) :
      Writes E (.dict k) (.map es)
  | nullable {k : Kind} {v : Value} (hv : Writes E k v) : Writes E (.nullable k) v
  | object {type : String} {e : Entity} (he : E e) : Writes E (.object type) (.entity e)
  | listOfObjects {type : String} {v : Value} {vs : List Value} (hitems : v.items? = some vs)
      (hvs : ∀ w ∈ vs, ∃ e, w = .entity e ∧ E e) : Writes E (.listOfObjects type) v
  | custom {c : String} {v : Value} {j : Json} (hv : v.isNull = false)
      (hj : (Codecs.codec c).write v = .ok j) : Writes E (.custom c) v

namespace Value

theorem exists_writeObject_iff {mismatch : EntityError} {w : Value} :
    (∃ j, writeObject mismatch w = .ok j) ↔ ∃ e, w = .entity e ∧ ∃ p, e.write = .ok p := by
  cases w with
  | entity e => simpa [writeObject] using Except.exists_map_eq_ok_iff
  | _ => simp [writeObject]

theorem exists_write_listOfObjects_iff {v : Value} {vs : List Value} (hv : v.items? = some vs)
    {name type : String} :
    (∃ j, v.write name (.listOfObjects type) = .ok j) ↔
      ∀ w ∈ vs, ∃ e, w = .entity e ∧ ∃ p, e.write = .ok p := by
  rw [write_listOfObjects hv, Except.exists_map_eq_ok_iff, List.exists_mapM_eq_ok_iff]
  exact forall₂_congr fun _ _ => exists_writeObject_iff

/-- What is written has the form that its kind writes. -/
theorem writes_of_written {v : Value} {name : String} {k : Kind} {j : Json}
    (h : v.write name k = .ok j) : k.Writes (fun e => ∃ p, e.write = .ok p) v := by
  induction k generalizing v j with
  | integer => cases v <;> first | exact .null | exact .integer | cases h
  | float =>
      cases v with
      | null => exact .null
      | int | float => exact .float rfl ((write_float rfl).mp h).1
      | _ => cases h
  | string => cases v <;> first | exact .null | exact .string | cases h
  | boolean => cases v <;> first | exact .null | exact .boolean | cases h
  | datetime => cases v <;> first | exact .null | exact .datetime | cases h
  | uuid => cases v <;> first | exact .null | exact .uuid | cases h
  | address => cases v <;> first | exact .null | exact .address | cases h
  | enum => cases v <;> first | exact .null | exact .enum | cases h
  | list k ih =>
      cases hv : v.items? with
      | some vs =>
          rw [write_list hv] at h
          have hvs := List.exists_mapM_eq_ok_iff.mp (Except.exists_map_eq_ok_iff.mp ⟨j, h⟩)
          exact .list hv fun w hw => (hvs w hw).elim fun _ => ih
      | none => cases v <;> cases hv <;> first | exact .null | cases h
  | set k ih =>
      cases hv : v.items? with
      | some vs =>
          rw [write_set hv] at h
          have hvs := List.exists_mapM_eq_ok_iff.mp (Except.exists_map_eq_ok_iff.mp ⟨j, h⟩)
          exact .set hv fun w hw => (hvs w hw).elim fun _ => ih
      | none => cases v <;> cases hv <;> first | exact .null | cases h
  | dict k ih =>
      cases v with
      | map es =>
          rw [write_dict] at h
          have hes := exists_mapEntriesM_eq_ok_iff.mp (Except.exists_map_eq_ok_iff.mp ⟨j, h⟩)
          exact .dict fun e he => (hes e he).elim fun _ => ih
      | null => exact .null
      | _ => cases h
  | nullable k ih => exact .nullable (ih (v.write_nullable name k ▸ h))
  | object type =>
      cases v with
      | entity e => exact .object (Except.exists_map_eq_ok_iff.mp ⟨j, h⟩)
      | null => exact .null
      | _ => cases h
  | listOfObjects type =>
      cases hv : v.items? with
      | some vs => exact .listOfObjects hv ((exists_write_listOfObjects_iff hv).mp ⟨j, h⟩)
      | none => cases v <;> cases hv <;> first | exact .null | cases h
  | custom c =>
      cases hv : v.isNull with
      | true => exact eq_null_of_isNull hv ▸ .null
      | false =>
          rw [write_custom hv] at h
          exact .custom hv (Except.mapError_eq_ok_iff.mp h)

theorem exists_write_of_writes {v : Value} {k : Kind}
    (h : k.Writes (fun e => ∃ p, e.write = .ok p) v) (name : String) :
    ∃ j, v.write name k = .ok j := by
  induction h with
  | null | integer | string | boolean | datetime | uuid | address | enum => exact ⟨_, rfl⟩
  | @float _ v x hv hx =>
      exact ⟨.float x, (write_float hv).mpr ⟨hx, rfl⟩⟩
  | list hitems _ ih =>
      rw [write_list hitems]
      exact Except.exists_map_eq_ok_iff.mpr (List.exists_mapM_eq_ok_iff.mpr ih)
  | set hitems _ ih =>
      rw [write_set hitems]
      exact Except.exists_map_eq_ok_iff.mpr (List.exists_mapM_eq_ok_iff.mpr ih)
  | dict _ ih =>
      rw [write_dict]
      exact Except.exists_map_eq_ok_iff.mpr (exists_mapEntriesM_eq_ok_iff.mpr ih)
  | nullable _ ih => rwa [write_nullable]
  | object he => exact Except.exists_map_eq_ok_iff.mpr he
  | listOfObjects hitems hvs => exact (exists_write_listOfObjects_iff hitems).mpr hvs
  | custom hv hj => exact ⟨_, by rw [write_custom hv, hj, Except.mapError_ok]⟩

/-- The code writes exactly the values of the form that the kind writes. -/
theorem exists_write_iff {v : Value} {name : String} {k : Kind} :
    (∃ j, v.write name k = .ok j) ↔ k.Writes (fun e => ∃ p, e.write = .ok p) v :=
  ⟨fun ⟨_, h⟩ => writes_of_written h, fun h => exists_write_of_writes h name⟩

end Value

/-! ## Stored values -/

namespace Kind

variable {E F : Entity → Prop} {k : Kind} {v : Value}

/-- A kind without codecs writes only numbers, and only entities that can be written. -/
theorem Writes.leaf (h : k.Writes E v) (hk : k.Plain) :
    ∀ a ∈ v.atoms, a.Leaf (fun x => x.isFinite = true) E := by
  induction h with
  | null | integer | string | boolean | datetime | uuid | address | enum =>
      simp [Value.atoms, Value.Leaf]
  | @float _ v x hv hx => cases v <;> cases hv <;> simp [Value.atoms, Value.Leaf, hx]
  | list hitems _ ih | set hitems _ ih =>
      rw [Value.atoms_of_items hitems, List.forall_mem_flatMap]
      exact fun w hw => ih w hw hk
  | dict _ ih =>
      rw [Value.atoms, Value.entryAtoms_eq, List.forall_mem_flatMap]
      exact fun e he => ih e he hk
  | nullable _ ih => exact ih hk
  | object he => simpa [Value.atoms, Value.Leaf] using he
  | listOfObjects hitems hvs =>
      rw [Value.atoms_of_items hitems, List.forall_mem_flatMap]
      intro w hw
      obtain ⟨e, rfl, he⟩ := hvs w hw
      simpa [Value.atoms, Value.Leaf] using he
  | custom => cases hk

/-- Which entities can be written matters only for those in the value. -/
theorem Writes.of_entities (h : k.Writes F v) (hk : k.Plain)
    (hE : ∀ e, .entity e ∈ v.atoms → E e) : k.Writes E v := by
  induction h with
  | null => exact .null
  | integer => exact .integer
  | float hv hx => exact .float hv hx
  | string => exact .string
  | boolean => exact .boolean
  | datetime => exact .datetime
  | uuid => exact .uuid
  | address => exact .address
  | enum => exact .enum
  | list hitems _ ih =>
      rw [Value.atoms_of_items hitems] at hE
      exact .list hitems fun w hw => ih w hw hk fun e he => hE e (List.mem_flatMap.mpr ⟨w, hw, he⟩)
  | set hitems _ ih =>
      rw [Value.atoms_of_items hitems] at hE
      exact .set hitems fun w hw => ih w hw hk fun e he => hE e (List.mem_flatMap.mpr ⟨w, hw, he⟩)
  | dict _ ih =>
      rw [Value.atoms, Value.entryAtoms_eq] at hE
      exact .dict fun p hp => ih p hp hk fun e he => hE e (List.mem_flatMap.mpr ⟨p, hp, he⟩)
  | nullable _ ih => exact .nullable (ih hk hE)
  | object => exact .object (hE _ List.mem_cons_self)
  | listOfObjects hitems hvs =>
      rw [Value.atoms_of_items hitems] at hE
      refine .listOfObjects hitems fun w hw => ?_
      obtain ⟨e, rfl, -⟩ := hvs w hw
      exact ⟨e, rfl, hE e (List.mem_flatMap.mpr ⟨_, hw, List.mem_cons_self⟩)⟩
  | custom => cases hk

/-- What a kind stores has the form that it writes. -/
theorem Stores.writes (h : k.Stores v) (hk : k.Plain)
    (hatoms : ∀ a ∈ v.atoms, a.Leaf (fun x => x.isFinite = true) E) : k.Writes E v := by
  induction h with
  | null => exact .null
  | nullable _ ih => exact .nullable (ih hk hatoms)
  | integer => exact .integer
  | @float _ x _ => exact .float rfl (hatoms (.float x) List.mem_cons_self)
  | string => exact .string
  | boolean => exact .boolean
  | datetime => exact .datetime
  | uuid => exact .uuid
  | address => exact .address
  | enum => exact .enum
  | list _ ih =>
      exact .list rfl fun w hw => ih w hw hk (Value.forall_atoms_items hatoms w hw)
  | set _ _ ih =>
      exact .set rfl fun w hw => ih w hw hk (Value.forall_atoms_items hatoms w hw)
  | dict _ ih => exact .dict fun e he => ih e he hk (Value.forall_atoms_entries hatoms e he)
  | @object e => exact .object (hatoms (.entity e) List.mem_cons_self)
  | listOfObjects hvs =>
      refine .listOfObjects rfl fun w hw => ?_
      obtain ⟨e, rfl, -⟩ := hvs w hw
      exact ⟨e, rfl, Value.forall_atoms_items hatoms _ hw (.entity e) List.mem_cons_self⟩
  | custom => cases hk

end Kind

namespace Field

/-- How a field comes to hold what its kind cannot write. -/
inductive Unsendable (f : Field) : Value → Prop
  /-- a float kind took a float that is no number -/
  | float {c : Value} {x : Float} (hx : .float x ∈ c.atoms) (hfinite : x.isFinite = false) :
      f.Unsendable c
  /-- for null the default was stored as it was declared: the kind would have coerced it to
  something else, or refused it -/
  | default {c : Value} (hnullable : f.isNullable = false) (hdefault : f.default? = some c)
      (hcoerce : f.kind.coerce c ≠ .ok c) (hwrites : ¬ f.kind.Writes (fun _ => True) c) :
      f.Unsendable c

/-- A field writes what it stores, if it can write the entities in it, except in the two ways. -/
theorem writes_iff {f : Field} (hk : f.kind.Plain) {v c : Value} (h : f.coerce v = .ok c)
    {E : Entity → Prop} :
    f.kind.Writes E c ↔ ¬ f.Unsendable c ∧ ∀ e, .entity e ∈ c.atoms → E e := by
  constructor
  · intro hwrites
    refine ⟨?_, (Value.forall_leaf_iff.mp (hwrites.leaf hk)).2⟩
    rintro (⟨hx, hfinite⟩ | ⟨-, -, -, hnot⟩)
    · have hx := (Value.forall_leaf_iff.mp (hwrites.leaf hk)).1 _ hx
      rw [hfinite] at hx
      cases hx
    · exact hnot (hwrites.of_entities hk fun _ _ => trivial)
  · rintro ⟨hsendable, hE⟩
    by_cases hstores : f.kind.Stores c
    · refine hstores.writes hk (Value.forall_leaf_iff.mpr ⟨fun x hx => ?_, hE⟩)
      by_contra hfinite
      exact hsendable (.float hx (Bool.not_eq_true _ ▸ hfinite))
    · -- Only the default is stored without being coerced.
      cases hnull : v.isNull with
      | false =>
          rw [f.coerce_of_not_null hnull] at h
          exact absurd (Kind.stores_of_coerced hk.stable h) hstores
      | true =>
          obtain rfl := Value.eq_null_of_isNull hnull
          rcases coerce_null_eq_ok_iff.mp h with ⟨-, rfl⟩ | ⟨hnullable, hdefault⟩
          · exact .null
          · by_contra hnot
            refine hsendable (.default hnullable hdefault (mt Kind.stores_iff.mpr hstores) ?_)
            exact fun hwrites => hnot (hwrites.of_entities hk hE)

end Field

/-! ## Entities -/

omit [Codecs] in
/-- No codec is involved in any field. -/
def Schema.Plain (s : Schema) : Prop := ∀ q ∈ s.fields, q.2.kind.Plain

namespace Entity

/-- A field holds what it cannot write. -/
def Stuck (e : Entity) : Prop :=
  ∃ n f c, e.schema.field? n = some f ∧ Record.get? e.values n = some c ∧ f.Unsendable c

/-- Each value is what its field makes of some value, and no codec is involved. -/
structure FieldsCoerced (e : Entity) : Prop extends e.WellFormed where
  plain : e.schema.Plain
  coerced : ∀ n f c, e.schema.field? n = some f → Record.get? e.values n = some c →
    ∃ v, f.coerce v = .ok c

/-- An entity is written if each set field is. -/
theorem exists_write_iff_fields {e : Entity} (h : e.schema.fieldNames.Nodup) :
    (∃ p, e.write = .ok p) ↔ ∀ n f c, e.schema.field? n = some f →
      Record.get? e.values n = some c → ∃ j, c.write n f.kind = .ok j := by
  rw [write_eq, Except.exists_map_eq_ok_iff, data_eq_gather]
  constructor
  · rintro ⟨data, hdata⟩ n f c hf hc
    refine Record.steps_ok_of_gather hdata (n, f) (Record.mem_of_get? hf) _ ?_
    rw [writeField, hc, Option.map_some]
  · intro hfields
    cases hdata : Record.gather e.schema.fields e.writeField [] with
    | ok data => exact ⟨data, rfl⟩
    | error err =>
        obtain ⟨⟨n, f⟩, hq, hstep⟩ := Record.exists_error_of_gather hdata
        obtain ⟨c, hc, hwrite⟩ := Option.map_eq_some_iff.mp hstep
        obtain ⟨j, hj⟩ := hfields n f c (Record.get?_of_mem h hq) hc
        cases hj.symm.trans hwrite

end Entity

/-- A field writes what it stores, if nothing in it is stuck. The entities in it are to be
followed down on their own. -/
theorem Field.exists_write_iff {f : Field} (hk : f.kind.Plain) {v c : Value}
    (h : f.coerce v = .ok c)
    (hentities : ∀ d ∈ c.graph, (∃ p, d.write = .ok p) ↔ ∀ x ∈ d.graph, ¬ x.Stuck)
    (name : String) :
    (∃ j, c.write name f.kind = .ok j) ↔ ¬ f.Unsendable c ∧ ∀ d ∈ c.graph, ¬ d.Stuck := by
  rw [Value.exists_write_iff, f.writes_iff hk h, Value.forall_graph_iff]
  refine and_congr_right fun _ => forall₂_congr fun e he => ?_
  exact Value.forall_graph_iff.mp hentities e he e e.self_mem_graph

/-- An entity is written unless it, or an entity nested in it, is stuck. -/
theorem Entity.exists_write_iff {e : Entity} (h : ∀ d ∈ e.graph, d.FieldsCoerced) :
    (∃ p, e.write = .ok p) ↔ ∀ d ∈ e.graph, ¬ d.Stuck := by
  induction e using Entity.nested with
  | h e ih =>
      have he := h e e.self_mem_graph
      have hfield {n : String} {f : Field} {c : Value} (hf : e.schema.field? n = some f)
          (hc : Record.get? e.values n = some c) :
          (∃ j, c.write n f.kind = .ok j) ↔ ¬ f.Unsendable c ∧ ∀ d ∈ c.graph, ¬ d.Stuck := by
        have hmem := Record.mem_of_get? hc
        obtain ⟨v, hv⟩ := he.coerced n f c hf hc
        refine f.exists_write_iff (he.plain _ (Record.mem_of_get? hf)) hv ?_ n
        intro d hd
        have hd' : d ∈ e.graph := forall_graph_values (fun _ h => h) _ hmem d hd
        exact ih _ hmem d hd fun x hx => h x (graph_trans hd' hx)
      rw [exists_write_iff_fields he.schema.fields, graph_eq, List.forall_mem_cons,
        List.forall_mem_flatMap]
      constructor
      · intro hwritten
        refine ⟨?_, ?_⟩
        · rintro ⟨n, f, c, hf, hc, hunsendable⟩
          exact ((hfield hf hc).mp (hwritten n f c hf hc)).1 hunsendable
        · rintro ⟨n, c⟩ hp
          have hc := Record.get?_of_mem he.values.nodup hp
          obtain ⟨f, hf⟩ := he.exists_field hp
          exact ((hfield hf hc).mp (hwritten n f c hf hc)).2
      · rintro ⟨hself, hheld⟩ n f c hf hc
        refine (hfield hf hc).mpr ⟨fun hunsendable => hself ⟨n, f, c, hf, hc, hunsendable⟩, ?_⟩
        exact hheld _ (Record.mem_of_get? hc)

end

end Skew

import Skew.Model

/-!
# Nested values

Values contain values: containers their elements, entities the values of their
fields. `Value.nested` is the induction that goes with it, one case per shape, with
the claim for everything directly inside.

`Value.atoms` lists what stands in a value without looking into entities,
`Value.graph` and `Entity.graph` the entities at every depth. "At every nesting
level" means for all members of the graph.
-/

namespace Skew

/-- Induction over nested values: each shape follows from what stands directly inside. -/
@[elab_as_elim]
theorem Value.nested {P : Value → Prop}
    (null : P .null) (bool : ∀ b, P (.bool b)) (int : ∀ n, P (.int n))
    (float : ∀ x, P (.float x)) (str : ∀ s, P (.str s)) (datetime : ∀ t, P (.datetime t))
    (list : ∀ vs, (∀ v ∈ vs, P v) → P (.list vs))
    (tuple : ∀ vs, (∀ v ∈ vs, P v) → P (.tuple vs))
    (set : ∀ vs, (∀ v ∈ vs, P v) → P (.set vs))
    (map : ∀ es : List (String × Value), (∀ e ∈ es, P e.2) → P (.map es))
    (entity : ∀ e : Entity, (∀ p ∈ e.values, P p.2) → P (.entity e)) (v : Value) : P v :=
  @Value.rec P (fun e => ∀ p ∈ e.values, P p.2) (fun _ => True) (fun _ => True)
    (fun vs => ∀ v ∈ vs, P v) (fun es => ∀ e ∈ es, P e.2) (fun _ => True) (fun _ => True)
    (fun p => P p.2) (fun _ => True)
    null bool int float str datetime list tuple set map entity
    (fun _ _ _ _ _ _ ih => ih) (fun _ _ _ _ => trivial) (fun _ _ _ _ _ _ _ => trivial)
    (by simp) (fun _ _ hv ih => List.forall_mem_cons.mpr ⟨hv, ih⟩)
    (by simp) (fun _ _ hv ih => List.forall_mem_cons.mpr ⟨hv, ih⟩)
    trivial (fun _ _ => trivial) trivial (fun _ _ _ _ => trivial)
    (fun _ _ ih => ih) (fun _ _ _ => trivial) v

theorem Value.eq_null_of_isNull {v : Value} (h : v.isNull = true) : v = .null := by
  cases v with
  | null => rfl
  | _ => cases h

/-! ## What stands in a value -/

mutual

/-- The scalars, nulls and entities in a value; entities are not opened. -/
def Value.atoms : Value → List Value
  | .list vs => Value.itemAtoms vs
  | .tuple vs => Value.itemAtoms vs
  | .set vs => Value.itemAtoms vs
  | .map es => Value.entryAtoms es
  | v => [v]

def Value.itemAtoms : List Value → List Value
  | [] => []
  | v :: vs => v.atoms ++ Value.itemAtoms vs

def Value.entryAtoms : List (String × Value) → List Value
  | [] => []
  | (_, v) :: es => v.atoms ++ Value.entryAtoms es

end

mutual

/-- The entities in a value, at every depth. -/
def Value.graph : Value → List Entity
  | .list vs => Value.itemGraph vs
  | .tuple vs => Value.itemGraph vs
  | .set vs => Value.itemGraph vs
  | .map es => Value.entryGraph es
  | .entity e => Entity.graph e
  | _ => []

def Value.itemGraph : List Value → List Entity
  | [] => []
  | v :: vs => v.graph ++ Value.itemGraph vs

def Value.entryGraph : List (String × Value) → List Entity
  | [] => []
  | (_, v) :: es => v.graph ++ Value.entryGraph es

/-- The entity and the entities nested in it, at every depth. -/
def Entity.graph : Entity → List Entity
  | ⟨schema, version, context?, values, changed⟩ =>
    ⟨schema, version, context?, values, changed⟩ :: Value.entryGraph values

end

theorem Value.itemAtoms_eq (vs : List Value) : Value.itemAtoms vs = vs.flatMap Value.atoms := by
  induction vs with
  | nil => rfl
  | cons v vs ih => rw [Value.itemAtoms, ih, List.flatMap_cons]

theorem Value.entryAtoms_eq (es : List (String × Value)) :
    Value.entryAtoms es = es.flatMap fun e => e.2.atoms := by
  induction es with
  | nil => rfl
  | cons e es ih => rw [Value.entryAtoms, ih, List.flatMap_cons]

theorem Value.itemGraph_eq (vs : List Value) : Value.itemGraph vs = vs.flatMap Value.graph := by
  induction vs with
  | nil => rfl
  | cons v vs ih => rw [Value.itemGraph, ih, List.flatMap_cons]

theorem Value.entryGraph_eq (es : List (String × Value)) :
    Value.entryGraph es = es.flatMap fun e => e.2.graph := by
  induction es with
  | nil => rfl
  | cons e es ih => rw [Value.entryGraph, ih, List.flatMap_cons]

theorem Value.entryGraph_eq_itemGraph (es : List (String × Value)) :
    Value.entryGraph es = Value.itemGraph (es.map (·.2)) := by
  rw [entryGraph_eq, itemGraph_eq, List.flatMap_map]

theorem Entity.graph_eq (e : Entity) : e.graph = e :: e.values.flatMap fun p => p.2.graph := by
  obtain ⟨schema, version, context?, values, changed⟩ := e
  rw [Entity.graph, Value.entryGraph_eq]

theorem Entity.self_mem_graph (e : Entity) : e ∈ e.graph := by
  rw [Entity.graph_eq]
  exact List.mem_cons_self

/-! ## Conditions on everything inside

What holds of all atoms, or of all entities of the graph, holds of those of each
part. -/

theorem Value.forall_atoms_items {P : Value → Prop} {vs : List Value}
    (h : ∀ a ∈ Value.itemAtoms vs, P a) : ∀ v ∈ vs, ∀ a ∈ v.atoms, P a :=
  fun v hv a ha => h a (by rw [Value.itemAtoms_eq]; exact List.mem_flatMap.mpr ⟨v, hv, ha⟩)

theorem Value.forall_atoms_entries {P : Value → Prop} {es : List (String × Value)}
    (h : ∀ a ∈ Value.entryAtoms es, P a) : ∀ e ∈ es, ∀ a ∈ e.2.atoms, P a :=
  fun e he a ha => h a (by rw [Value.entryAtoms_eq]; exact List.mem_flatMap.mpr ⟨e, he, ha⟩)

theorem Value.forall_graph_items {P : Entity → Prop} {vs : List Value}
    (h : ∀ d ∈ Value.itemGraph vs, P d) : ∀ v ∈ vs, ∀ d ∈ v.graph, P d :=
  fun v hv d hd => h d (by rw [Value.itemGraph_eq]; exact List.mem_flatMap.mpr ⟨v, hv, hd⟩)

theorem Value.forall_graph_entries {P : Entity → Prop} {es : List (String × Value)}
    (h : ∀ d ∈ Value.entryGraph es, P d) : ∀ e ∈ es, ∀ d ∈ e.2.graph, P d :=
  fun e he d hd => h d (by rw [Value.entryGraph_eq]; exact List.mem_flatMap.mpr ⟨e, he, hd⟩)

theorem Entity.forall_graph_values {P : Entity → Prop} {e : Entity} (h : ∀ d ∈ e.graph, P d) :
    ∀ p ∈ e.values, ∀ d ∈ p.2.graph, P d :=
  fun p hp d hd => h d (by
    rw [Entity.graph_eq]
    exact List.mem_cons_of_mem _ (List.mem_flatMap.mpr ⟨p, hp, hd⟩))

/-- What is nested in a nested entity is nested. -/
theorem Value.graph_trans {v : Value} {d x : Entity} (hd : d ∈ v.graph) (hx : x ∈ d.graph) :
    x ∈ v.graph := by
  induction v using Value.nested with
  | null | bool | int | float | str | datetime => cases hd
  | list vs ih | tuple vs ih | set vs ih =>
      rw [graph, itemGraph_eq, List.mem_flatMap] at hd ⊢
      obtain ⟨v, hv, hd⟩ := hd
      exact ⟨v, hv, ih v hv hd⟩
  | map es ih =>
      rw [graph, entryGraph_eq, List.mem_flatMap] at hd ⊢
      obtain ⟨p, hp, hd⟩ := hd
      exact ⟨p, hp, ih p hp hd⟩
  | entity e ih =>
      rw [graph, Entity.graph_eq] at hd ⊢
      rcases List.mem_cons.mp hd with rfl | hd
      · rwa [Entity.graph_eq] at hx
      · obtain ⟨p, hp, hd⟩ := List.mem_flatMap.mp hd
        exact List.mem_cons_of_mem _ (List.mem_flatMap.mpr ⟨p, hp, ih p hp hd⟩)

theorem Entity.graph_trans {e d x : Entity} (hd : d ∈ e.graph) (hx : x ∈ d.graph) : x ∈ e.graph :=
  Value.graph_trans (v := .entity e) hd hx

/-- Induction over nested entities: what holds of an entity as soon as it holds of all
that are nested in it holds of every entity. -/
theorem Entity.nested {P : Entity → Prop}
    (h : ∀ e : Entity, (∀ p ∈ e.values, ∀ d ∈ p.2.graph, P d) → P e) (e : Entity) : P e := by
  have hvalue (v : Value) : ∀ d ∈ v.graph, P d := by
    induction v using Value.nested with
    | null | bool | int | float | str | datetime => simp [Value.graph]
    | list vs ih | tuple vs ih | set vs ih =>
        simp only [Value.graph, Value.itemGraph_eq, List.mem_flatMap]
        rintro d ⟨v, hv, hd⟩
        exact ih v hv d hd
    | map es ih =>
        simp only [Value.graph, Value.entryGraph_eq, List.mem_flatMap]
        rintro d ⟨p, hp, hd⟩
        exact ih p hp d hd
    | entity e ih =>
        rw [Value.graph, Entity.graph_eq]
        intro d hd
        rcases List.mem_cons.mp hd with rfl | hd
        · exact h _ ih
        · obtain ⟨p, hp, hd⟩ := List.mem_flatMap.mp hd
          exact ih p hp d hd
  exact h e fun p _ => hvalue p.2

end Skew

import Skew.Proofs.Evolution
import Skew.Proofs.Reduction
import Skew.Proofs.Soundness

/-!
# Entities of the catalog

Entities that are made of the catalog's definitions and assigned to field by field
(`Built`). What later proofs need of them holds at every place of the graph (`Catalogued`): a
field holds something inert, which reaches any reader as it is, or composes children of a type
that is released like the owner (`Holding`). Such an entity can be written.
-/

namespace Skew

section

variable [Codecs]

/-! ## Flat values -/

/-- The value reaches any reader as it is: nothing in it can be an entity, there or on the wire,
and it has no floats. -/
structure Value.Inert (v : Value) (k : Kind) : Prop where
  graph : v.graph = []
  finite : ∀ x, .float x ∉ v.atoms
  bare : ∀ n j, v.write n k = .ok j → ∀ P, j.Carries P

theorem Value.Inert.null (k : Kind) : Value.Inert .null k where
  graph := rfl
  finite _ := by simp [atoms]
  bare := by
    rintro n _ ⟨⟩ P
    exact .leaf rfl rfl

theorem Kind.Flat.inert {k : Kind} (hk : k.Flat) {v : Value} (h : k.Stores v) : v.Inert k := by
  cases h with
  | integer | string | boolean | datetime | uuid | address | enum =>
      refine ⟨rfl, by simp [Value.atoms], ?_⟩
      rintro n _ ⟨⟩ P
      exact .leaf rfl rfl
  | @dict k es hes =>
      cases k with
      | integer nonNegative =>
          have hints : ∀ e ∈ es, ∃ i, e.2 = .int i := by
            rintro ⟨n, v⟩ he
            cases hes _ he
            exact ⟨_, rfl⟩
          refine ⟨?_, ?_, ?_⟩
          · rw [Value.graph, Value.entryGraph_eq, List.flatMap_eq_nil_iff]
            intro e he
            obtain ⟨i, hi⟩ := hints e he
            rw [hi]
            rfl
          · intro x hx
            rw [Value.atoms, Value.entryAtoms_eq] at hx
            obtain ⟨e, he, hx⟩ := List.mem_flatMap.mp hx
            obtain ⟨i, hi⟩ := hints e he
            simp [hi, Value.atoms] at hx
          · intro n j hwrite P
            obtain ⟨ms, hms, rfl⟩ := Except.map_eq_ok_iff.mp hwrite
            rw [Value.writeEntries_eq] at hms
            have hwritten : ∀ m ∈ ms, ∃ i, m.2 = .int i := by
              intro m hm
              obtain ⟨e, he, hwrite⟩ := exists_of_mem_mapEntriesM hms hm
              obtain ⟨i, hi⟩ := hints e he
              rw [hi] at hwrite
              exact ⟨_, (Except.ok.inj hwrite).symm⟩
            refine .obj ?_ ?_
            · intro m hm
              obtain ⟨i, hi⟩ := hwritten m hm
              rw [hi]
              exact .leaf rfl rfl
            · intro p hp
              obtain ⟨i, hi⟩ :=
                hwritten _ (Record.mem_of_get? (Primitive.get?_space_of_ofMembers hp))
              cases hi
      | _ => cases hk
  | _ => cases hk

omit [Codecs] in
/-- What holds at every place of a graph, holds at every place of a child's. -/
theorem Entity.forall_graph_child {P : Entity → Prop} {e : Entity} (h : ∀ d ∈ e.graph, P d)
    {n : String} {x : Value} (hx : Record.get? e.values n = some x) {d : Entity}
    (hd : d ∈ x.children) : ∀ y ∈ d.graph, P y := by
  intro y hy
  exact Entity.forall_graph_values h _ (Record.mem_of_get? hx) y
    (Value.graph_trans (Value.mem_graph_of_mem_children hd) hy)

namespace Catalog

/-! ## Entities of the catalog -/

/-- An entity of the catalog: made of a definition, assigned to field by field, with whatever
change markers it has in the end. -/
inductive Built (store : String) : Entity → Prop
  | new {name : String} {v : Version} {s : Schema} (hs : Defines store name v s) :
      Built store (.ofSchema s)
  | set {e e' : Entity} {n : String} {v : Value} (he : Built store e)
      (hv : ∀ d ∈ v.graph, Built store d) (hset : e.set n v = .ok e') : Built store e'
  | mark {e : Entity} (he : Built store e) (names : List String) :
      Built store (e.replaceChanges names)
  | place {e : Entity} (he : Built store e) (c? : Option Context) : Built store (e.withContext? c?)

/-- What later proofs need of such an entity. -/
structure Catalogued (store : String) (e : Entity) : Prop where
  defined : Defines store e.schema.name e.version e.schema
  wellFormed : e.WellFormed
  stored : ∀ n v, Record.get? e.values n = some v →
    ∃ f, e.schema.field? n = some f ∧ f.coerce v = .ok v

variable {store : String}

theorem Built.catalogued {e : Entity} (h : Built store e) : ∀ d ∈ e.graph, Catalogued store d := by
  induction h with
  | @new name v s hs =>
      have hversion : Defines store s.name s.version s := by
        rw [hs.name, hs.version]
        exact hs
      rintro d (_ | ⟨_, hd⟩)
      · exact ⟨hversion, .ofSchema hs.wellFormed, nofun⟩
      · cases hd
  | @set e e' n v he hv hset ih ihv =>
      obtain ⟨hdefined, hwellFormed, hstored⟩ := ih e e.self_mem_graph
      obtain ⟨f, w, hf, hw, rfl⟩ := Entity.set_eq_ok_iff.mp hset
      have hoffered := hdefined.offered hf
      intro d hd
      rcases Entity.mem_graph_iff.mp hd with rfl | ⟨p, hp, hd⟩
      · refine ⟨hdefined, hwellFormed.set hset, ?_⟩
        intro m x hx
        rw [Entity.assigned, Entity.storeCoerced, Record.get?_insert] at hx
        split at hx
        · next hnm =>
            cases hx
            exact ⟨f, hnm ▸ hf, Field.coerce_again hoffered.plain.stable
              (fun x hx => (hoffered.default x hx).1) hw⟩
        · exact hstored m x hx
      · rcases Record.mem_insert hp with rfl | hp
        · rcases Field.origin_of_plain hoffered.plain hw hd with hd | ⟨x, hx, hd⟩
          · exact ihv d hd d d.self_mem_graph
          · rw [(hoffered.default x hx).2] at hd
            cases hd
        · exact ih d (Entity.mem_graph_iff.mpr (Or.inr ⟨p, hp, hd⟩))
  | @mark e he names ih =>
      obtain ⟨hdefined, hwellFormed, hstored⟩ := ih e e.self_mem_graph
      intro d hd
      rcases Entity.mem_graph_iff.mp hd with rfl | hd
      · exact ⟨hdefined, hwellFormed.replaceChanges names, hstored⟩
      · exact ih d (Entity.mem_graph_iff.mpr (Or.inr hd))
  | @place e he c? ih =>
      obtain ⟨hdefined, hwellFormed, hstored⟩ := ih e e.self_mem_graph
      intro d hd
      rcases Entity.mem_graph_iff.mp hd with rfl | hd
      · exact ⟨hdefined, ⟨⟨hwellFormed.schema, hwellFormed.values, hwellFormed.declared,
          hwellFormed.marked⟩, hwellFormed.changed⟩, hstored⟩
      · exact ih d (Entity.mem_graph_iff.mpr (Or.inr hd))

/-! ## What fields hold -/

/-- The value of a field: an inert one, or what composes children that are released like the
owner. -/
inductive Holding (name : String) : Field → Value → Prop
  | inert {f : Field} {v : Value} (hkind : f.kind.Flat) (hv : v.Inert f.kind) : Holding name f v
  | null {f : Field} (hkind : f.kind.isObject = true) (hnullable : f.isNullable = true)
      (howner : releases name = [release 1 0, release 1 1]) : Holding name f .null
  | one {f : Field} {d : Entity} (hkind : f.kind = .object d.schema.name)
      (howner : releases name = [release 1 0, release 1 1])
      (hchild : releases d.schema.name = [release 1 0, release 1 1]) : Holding name f (.entity d)
  | many {f : Field} {type : String} {vs : List Value} (hkind : f.kind = .listOfObjects type)
      (hvs : ∀ v ∈ vs, ∃ d : Entity, v = .entity d ∧ d.schema.name = type)
      (howner : releases name = [release 1 0, release 1 1])
      (hchild : releases type = [release 1 0, release 1 1]) : Holding name f (.list vs)

theorem Offered.holding {name : String} {f : Field} (h : Offered name f) {v : Value}
    (hv : f.coerce v = .ok v) : Holding name f v := by
  rcases Field.null_or_stores hv with rfl | ⟨-, hstores⟩
  · rcases Field.coerce_null_eq_ok_iff.mp hv with ⟨hnullable, -⟩ | ⟨-, hdefault⟩
    · cases h with
      | required hk | nullable hk => exact .inert hk (.null _)
      | one howner => exact .null rfl rfl howner
      | flag | many => cases hnullable
    · cases h <;> cases hdefault
  · cases h with
    | required hk | nullable hk => exact .inert hk (hk.inert hstores)
    | flag =>
        have hflat : Kind.boolean.Flat := trivial
        exact .inert hflat (hflat.inert hstores)
    | one howner hchild =>
        cases hstores
        exact .one rfl howner hchild
    | many howner hchild =>
        cases hstores with
        | listOfObjects hvs => exact .many rfl hvs howner hchild

/-- Where there are children, they are released like the owner. -/
theorem Holding.releases {name : String} {f : Field} {v : Value} (h : Holding name f v)
    (hkind : f.kind.isObject = true) : releases name = [release 1 0, release 1 1] ∧
      ∀ d ∈ v.children, releases d.schema.name = [release 1 0, release 1 1] := by
  cases h with
  | inert hflat =>
      rw [hflat.isObject] at hkind
      cases hkind
  | null _ _ howner => exact ⟨howner, nofun⟩
  | one _ howner hchild => exact ⟨howner, List.forall_mem_singleton.mpr hchild⟩
  | many _ hvs howner hchild =>
      refine ⟨howner, ?_⟩
      intro d hd
      obtain ⟨v, hv, hvd⟩ := List.mem_filterMap.mp hd
      obtain ⟨d', rfl, htype⟩ := hvs v hv
      cases hvd
      rw [htype]
      exact hchild

/-- What a field holds reaches a reader exactly if the instants in it do. -/
theorem Holding.exact {name : String} {f : Field} {v : Value} (h : Holding name f v)
    (htimes : ∀ t, .datetime t ∈ v.atoms → t.Exact) : ∀ a ∈ v.atoms, a.Exact := by
  intro a ha
  cases a with
  | datetime t => exact htimes t ha
  | float x =>
      exfalso
      cases h with
      | inert _ hv => exact hv.finite x ha
      | null => cases List.mem_singleton.mp ha
      | one => cases List.mem_singleton.mp ha
      | many _ hvs =>
          rw [Value.atoms, Value.itemAtoms_eq] at ha
          obtain ⟨v, hv, ha⟩ := List.mem_flatMap.mp ha
          obtain ⟨d, rfl, -⟩ := hvs v hv
          cases List.mem_singleton.mp ha
  | _ => trivial

/-! ## Owners and children -/

/-- Children are no newer than the table of their owner gives for the version of the owner. -/
def InStep (o : Entity) : Prop :=
  ∀ n v, o.composed? n = some v → ∀ d ∈ v.children, ∃ table goal,
    o.schema.relationship? n = some table ∧ table.childAt? o.version = some goal ∧
      d.version.release ≤ goal.release

omit [Codecs] in
/-- It is enough to look at the values. -/
theorem InStep.of_values {o : Entity} (h : ∀ p ∈ o.values, ∀ d ∈ p.2.children, ∃ table goal,
    o.schema.relationship? p.1 = some table ∧ table.childAt? o.version = some goal ∧
      d.version.release ≤ goal.release) : InStep o := by
  intro n v hv
  rw [Entity.composed?, Option.bind_eq_some_iff] at hv
  obtain ⟨f, -, hv⟩ := hv
  split at hv
  · exact h _ (Record.mem_of_get? hv)
  · cases hv

section

variable {store : String} {e : Entity} (he : Catalogued store e)
include he

theorem Catalogued.holding {n : String} {f : Field} {x : Value} (hf : e.schema.field? n = some f)
    (hx : Record.get? e.values n = some x) : f.coerce x = .ok x ∧ Holding e.schema.name f x := by
  obtain ⟨f', hf', hstored⟩ := he.stored n x hx
  rw [hf] at hf'
  cases hf'
  exact ⟨hstored, (he.defined.offered hf).holding hstored⟩

/-- Children are released like the owner. -/
theorem Catalogued.child_released {n : String} {f : Field} {x : Value}
    (hf : e.schema.field? n = some f) (hx : Record.get? e.values n = some x)
    (hkind : f.kind.isObject = true) {d : Entity} (hd : d ∈ x.children) {w : Version}
    (hw : w ∈ releases e.schema.name) : w ∈ releases d.schema.name := by
  obtain ⟨howner, hchildren⟩ := (he.holding hf hx).2.releases hkind
  rw [hchildren d hd, ← howner]
  exact hw

theorem Catalogued.composed {n : String} {x : Value} (hx : e.composed? n = some x) :
    ∃ f, e.schema.field? n = some f ∧ f.kind.isObject = true ∧ Record.get? e.values n = some x ∧
      f.coerce x = .ok x := by
  rw [Entity.composed?, Option.bind_eq_some_iff] at hx
  obtain ⟨f, hf, hx⟩ := hx
  split at hx
  · next hkind => exact ⟨f, hf, hkind, hx, (he.holding hf hx).1⟩
  · cases hx

/-- Children are no newer than their owner. -/
theorem Catalogued.child_le (hstep : InStep e) {n : String} {x : Value}
    (hx : e.composed? n = some x) {d : Entity} (hd : d ∈ x.children) :
    d.version.release ≤ e.version.release := by
  obtain ⟨f, hf, hkind, -⟩ := he.composed hx
  obtain ⟨table, goal, htable, hgoal, hle⟩ := hstep n x hx d hd
  obtain ⟨table', htable', -, hrows⟩ := he.defined.table hf hkind
  rw [htable] at htable'
  cases htable'
  rw [(hrows e.version he.defined.1 (Nat.le_refl _)).1] at hgoal
  cases hgoal
  exact hle

/-! ## Writing -/

/-- The instants that the entity has are whole seconds of years with four digits. -/
def Timed (e : Entity) : Prop :=
  ∀ p ∈ e.values, ∀ t, .datetime t ∈ p.2.atoms → t.Exact

theorem Catalogued.writable (htimes : Timed e) :
    e.Writable (Registry.empty.registerAll (definitions store)) where
  coherent := he.wellFormed.toCoherent
  known := he.defined.resolve
  stored p hp f hf :=
    (he.holding hf (Record.get?_of_mem he.wellFormed.values.nodup hp)).1
  lossless p hp :=
    (he.defined.offered (Record.get?_of_mem he.wellFormed.schema.fields hp)).lossless
  exact p hp := by
    obtain ⟨f, hf, hstored⟩ := he.stored p.1 p.2 (Record.get?_of_mem he.wellFormed.values.nodup hp)
    exact ((he.defined.offered hf).holding hstored).exact (htimes p hp)

theorem Catalogued.inForm : e.InForm where
  wellFormed := he.wellFormed
  stored _ hp _ hf :=
    Or.inr (he.holding hf (Record.get?_of_mem he.wellFormed.values.nodup hp)).1

end

end Catalog

end

end Skew

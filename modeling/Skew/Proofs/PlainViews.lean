import Skew.Proofs.NestedDocuments
import Skew.Proofs.ListGrowth

/-!
# Plain views

A plain document is made from the values, the wire document next to it from the same values, and
where both look at an entity the first has its plain document and the second its primitive.
`Value.unwrap` turns one into the other: it goes down the value and the wire document together
and puts, for each entity, its plain document in place of what stands there.

The code opens a value only if it is an entity, or a list with an entity in it; any other value
it writes as the wire does. So a plain document has the unwrapped wire document of every field
that hides nothing, and the wire document itself of a field that holds entities in other
containers (`Value.Hides`, `Entity.plain_of_write`). Where nothing hides anything, no primitive
is left (`Entity.plain_entityFree`).
-/

namespace Skew

section

variable [Codecs]

/-! ## Unwrapping -/

mutual

/-- The wire document of a value, with the plain documents of the entities in their places. -/
def Value.unwrap : Value → Json → Outcome Json
  | .entity e, _ => e.plain
  | .list vs, .arr js => (Value.unwrapItems vs js).map .arr
  | .tuple vs, .arr js => (Value.unwrapItems vs js).map .arr
  | .set vs, .arr js => (Value.unwrapItems vs js).map .arr
  | .map es, .obj ms => (Value.unwrapEntries es ms).map .obj
  | _, j => .ok j

def Value.unwrapItems : List Value → List Json → Outcome (List Json)
  | v :: vs, j :: js => do
    let i ← v.unwrap j
    let is ← Value.unwrapItems vs js
    .ok (i :: is)
  | _, js => .ok js

def Value.unwrapEntries : List (String × Value) → Members → Outcome Members
  | (_, v) :: es, (n, j) :: ms => do
    let i ← v.unwrap j
    let is ← Value.unwrapEntries es ms
    .ok ((n, i) :: is)
  | _, ms => .ok ms

end

omit [Codecs] in
/-- The value holds an entity other than as itself or as an element of its list. -/
def Value.Hides (v : Value) : Prop := ∃ d, .entity d ∈ v.atoms ∧ d ∉ v.children

omit [Codecs] in
/-- There is no entity in the value. -/
def Value.Bare (v : Value) : Prop := ∀ d, .entity d ∉ v.atoms

omit [Codecs] in
theorem Value.Bare.graph_eq_nil {v : Value} (h : v.Bare) : v.graph = [] :=
  List.eq_nil_iff_forall_not_mem.mpr
    (Value.forall_graph_iff.mpr fun d hd => (h d hd).elim)

omit [Codecs] in
theorem Value.Bare.of_items {v : Value} (h : v.Bare) {vs : List Value} (hvs : v.items? = some vs) :
    ∀ w ∈ vs, w.Bare := by
  intro w hw d hd
  refine h d ?_
  rw [Value.atoms_of_items hvs]
  exact List.mem_flatMap.mpr ⟨w, hw, hd⟩

omit [Codecs] in
theorem Value.Bare.of_entries {es : List (String × Value)} (h : (Value.map es).Bare) :
    ∀ e ∈ es, e.2.Bare := by
  intro e he d hd
  refine h d ?_
  rw [Value.atoms, Value.entryAtoms_eq]
  exact List.mem_flatMap.mpr ⟨e, he, hd⟩

theorem Value.unwrapItems_eq_self {vs : List Value} (h : ∀ v ∈ vs, ∀ j, v.unwrap j = .ok j)
    (js : List Json) : Value.unwrapItems vs js = .ok js := by
  induction vs generalizing js with
  | nil => rfl
  | cons v vs ih =>
      obtain ⟨hv, hvs⟩ := List.forall_mem_cons.mp h
      cases js with
      | nil => rfl
      | cons j js => rw [unwrapItems, hv, ih hvs, Except.ok_bind, Except.ok_bind]

theorem Value.unwrapEntries_eq_self {es : List (String × Value)}
    (h : ∀ e ∈ es, ∀ j, e.2.unwrap j = .ok j) (ms : Members) :
    Value.unwrapEntries es ms = .ok ms := by
  induction es generalizing ms with
  | nil => rfl
  | cons e es ih =>
      obtain ⟨he, hes⟩ := List.forall_mem_cons.mp h
      cases ms with
      | nil => rfl
      | cons m ms => rw [unwrapEntries, he, ih hes, Except.ok_bind, Except.ok_bind]

/-- Where there is no entity, there is nothing to unwrap. -/
theorem Value.Bare.unwrap {v : Value} (h : v.Bare) (j : Json) : v.unwrap j = .ok j := by
  induction v using Value.nested generalizing j with
  | null | bool | int | float | str | datetime => rfl
  | list vs ih | tuple vs ih | set vs ih =>
      have hitems := unwrapItems_eq_self fun v hv => ih v hv (h.of_items rfl v hv)
      cases j with
      | arr js => rw [Value.unwrap, hitems, Except.ok_map]
      | _ => rfl
  | map es ih =>
      have hentries := unwrapEntries_eq_self fun e he => ih e he (h.of_entries e he)
      cases j with
      | obj ms => rw [Value.unwrap, hentries, Except.ok_map]
      | _ => rfl
  | entity e => exact (h e List.mem_cons_self).elim

/-- Item by item, unwrapping is any pass that does the same. -/
theorem Value.unwrapItems_eq_mapM {f : Value → Outcome Json} {vs : List Value} {js : List Json}
    (h : List.Forall₂ (fun v j => v.unwrap j = f v) vs js) :
    Value.unwrapItems vs js = vs.mapM f := by
  induction h with
  | nil => rfl
  | cons hv _ ih =>
      rw [unwrapItems, hv, ih, List.mapM_cons]
      rfl

/-! ## Values -/

theorem Value.plainItems_eq (vs : List Value) (name : String) (field? : Option Field) :
    Value.plainItems vs name field? = vs.mapM fun v => v.plain name field? := by
  induction vs with
  | nil =>
      rw [Value.plainItems]
      rfl
  | cons v vs ih =>
      rw [Value.plainItems, ih, List.mapM_cons]
      rfl

omit [Codecs] in
theorem Value.mem_children_list {vs : List Value} {d : Entity} :
    d ∈ (Value.list vs).children ↔ .entity d ∈ vs := by
  rw [children, List.mem_filterMap]
  constructor
  · rintro ⟨v, hv, hd⟩
    cases v <;> cases hd
    exact hv
  · exact fun hd => ⟨_, hd, rfl⟩

omit [Codecs] in
theorem Value.any_isEntity_iff {vs : List Value} :
    vs.any Value.isEntity = true ↔ ∃ d, .entity d ∈ vs := by
  rw [List.any_eq_true]
  constructor
  · rintro ⟨v, hv, hentity⟩
    cases v <;> cases hentity
    exact ⟨_, hv⟩
  · exact fun ⟨d, hd⟩ => ⟨_, hd, rfl⟩

/-- A value without children is written as the wire does. -/
theorem Value.plain_of_children {v : Value} (h : v.children = []) (name : String)
    (field? : Option Field) : v.plain name field? = v.plainLeaf name field? := by
  cases v with
  | list vs =>
      rw [Value.plain, if_neg]
      intro hany
      obtain ⟨d, hd⟩ := any_isEntity_iff.mp hany
      have hchild := mem_children_list.mpr hd
      rw [h] at hchild
      cases hchild
  | entity e => cases h
  | _ => rw [Value.plain] <;> nofun

omit [Codecs] in
theorem Value.bare_of_children {v : Value} (h : v.children = []) (hhides : ¬ v.Hides) : v.Bare :=
  fun d hd => hhides ⟨d, hd, h ▸ List.not_mem_nil⟩

/-- Next to an entity, a kind without codecs writes only entities and nulls. -/
theorem Kind.Writes.null_or_entity {E : Entity → Prop} {k : Kind} (hk : k.Plain) {e : Entity}
    (h : k.Writes E (.entity e)) {v : Value} (hv : k.Writes E v) :
    v = .null ∨ ∃ d, v = .entity d := by
  generalize hw : Value.entity e = w at h
  induction h with
  | object =>
      cases hv with
      | null => exact Or.inl rfl
      | object => exact Or.inr ⟨_, rfl⟩
  | nullable _ ih =>
      cases hv with
      | null => exact Or.inl rfl
      | nullable hv => exact ih hk hv hw
  | custom => cases hk
  | float hshape | list hshape | set hshape | listOfObjects hshape =>
      rw [← hw] at hshape
      cases hshape
  | _ => cases hw

/-- A list with a child is written item by item, and its items are entities and nulls. -/
theorem Value.written_of_children {vs : List Value} {name : String} {k : Kind} {j : Json}
    (hk : k.Plain) (hwrite : (Value.list vs).write name k = .ok j) {d : Entity}
    (hd : .entity d ∈ vs) : ∃ js, j = .arr js ∧
      List.Forall₂ (fun w i => w = .null ∧ i = .null ∨ ∃ x, w = .entity x) vs js := by
  have hitems {k : Kind} (hk : k.Plain)
      (h : (Value.list vs).write name (.list k) = .ok j ∨
        (Value.list vs).write name (.set k) = .ok j) : ∃ js, j = .arr js ∧
      List.Forall₂ (fun w i => w = .null ∧ i = .null ∨ ∃ x, w = .entity x) vs js := by
    obtain ⟨hnull, -⟩ | ⟨_, js, hvs, rfl, hwritten⟩ := written_items h
    · cases hnull
    · cases hvs
      obtain ⟨i, hi⟩ := hwritten.exists_mem_zip hd
      have hentity := writes_of_written (List.forall₂_zip hwritten hi)
      refine ⟨js, rfl, hwritten.imp fun w i hwi => ?_⟩
      obtain rfl | hw := hentity.null_or_entity hk (writes_of_written hwi)
      · exact Or.inl ⟨rfl, (Except.ok.inj hwi).symm⟩
      · exact Or.inr hw
  induction k with
  | nullable k ih => exact ih hk ((Value.list vs).write_nullable name k ▸ hwrite)
  | list k => exact hitems (k := k) hk (Or.inl hwrite)
  | set k => exact hitems (k := k) hk (Or.inr hwrite)
  | listOfObjects type =>
      obtain ⟨hnull, -⟩ | ⟨d, hd, -⟩ | ⟨ds, js, hvs, rfl, hds⟩ := written_of_isObject rfl hwrite
      · cases hnull
      · cases hd
      · cases hvs
        refine ⟨js, rfl, List.forall₂_map_left_iff.mpr (hds.imp fun x _ _ => Or.inr ⟨x, rfl⟩)⟩
  | custom c => cases hk
  | _ => cases hwrite

omit [Codecs] in
theorem Value.entity_mem_atoms {v : Value} {d : Entity} (h : d ∈ v.children) :
    .entity d ∈ v.atoms := by
  cases v with
  | entity e =>
      cases List.mem_singleton.mp h
      exact List.mem_cons_self
  | list vs =>
      rw [atoms_of_items rfl]
      exact List.mem_flatMap.mpr ⟨_, mem_children_list.mp h, List.mem_cons_self⟩
  | _ => cases h

/-- An entity in a value that is written can be written itself. -/
theorem Value.exists_write_of_child {v : Value} {name : String} {k : Kind} {i : Json}
    (hk : k.Plain ∨ v.Bare) (hwrite : v.write name k = .ok i) {d : Entity} (hd : d ∈ v.children) :
    ∃ p, d.write = .ok p := by
  have hatom := entity_mem_atoms hd
  rcases hk with hk | hbare
  · exact (forall_leaf_iff.mp ((writes_of_written hwrite).leaf hk)).2 d hatom
  · exact absurd hatom (hbare d)

/-- What the plain document of a field is, next to the wire document. -/
structure Value.Viewed (v : Value) (i j : Json) : Prop where
  shown : ¬ v.Hides → v.unwrap i = .ok j
  hidden : v.Hides → j = i

/-- A list of entities is viewed item by item. -/
theorem Value.viewed_of_write_list {vs : List Value} {name : String} {f : Field} {i : Json}
    (hkind : f.kind.Plain) (hwrite : (Value.list vs).write name f.kind = .ok i) {d : Entity}
    (hmem : .entity d ∈ vs) (hplain : ∀ d, .entity d ∈ vs → ∃ j, d.plain = .ok j) :
    ∃ j, (Value.list vs).plain name (some f) = .ok j ∧ (Value.list vs).Viewed i j := by
  obtain ⟨is, rfl, his⟩ := written_of_children hkind hwrite hmem
  have hsame : unwrapItems vs is = vs.mapM fun w => w.plain name (some f) := by
    refine unwrapItems_eq_mapM (his.imp fun w i hwi => ?_)
    obtain ⟨rfl, rfl⟩ | ⟨x, rfl⟩ := hwi
    · rfl
    · rfl
  have hitems : ∀ w ∈ vs, w = .null ∨ ∃ x, w = .entity x := by
    intro w hw
    obtain ⟨i, hi⟩ := his.exists_mem_zip hw
    exact (List.forall₂_zip his hi).imp_left And.left
  obtain ⟨js, hjs⟩ : ∃ js, vs.mapM (fun w => w.plain name (some f)) = .ok js := by
    refine List.exists_mapM_eq_ok_iff.mpr fun w hw => ?_
    obtain rfl | ⟨x, rfl⟩ := hitems w hw
    · exact ⟨.null, rfl⟩
    · exact hplain x hw
  refine ⟨.arr js, ?_, fun _ => ?_, ?_⟩
  · rw [Value.plain, if_pos (any_isEntity_iff.mpr ⟨d, hmem⟩), plainItems_eq, hjs]
    rfl
  · rw [unwrap, hsame, hjs]
    rfl
  · rintro ⟨x, hx, hhidden⟩
    rw [atoms_of_items rfl] at hx
    obtain ⟨w, hw, hx⟩ := List.mem_flatMap.mp hx
    obtain rfl | ⟨y, rfl⟩ := hitems w hw
    · cases List.mem_singleton.mp hx
    · cases List.mem_singleton.mp hx
      exact absurd (mem_children_list.mpr hw) hhidden

/-- A value that is written has a plain document, if its children have. -/
theorem Value.viewed_of_write {v : Value} {name : String} {f : Field} {i : Json}
    (hk : f.kind.Plain ∨ v.Bare) (hwrite : v.write name f.kind = .ok i)
    (hplain : ∀ d ∈ v.children, ∃ j, d.plain = .ok j) :
    ∃ j, v.plain name (some f) = .ok j ∧ v.Viewed i j := by
  by_cases hchildren : v.children = []
  · rw [plain_of_children hchildren]
    exact ⟨i, hwrite, fun hshown => (bare_of_children hchildren hshown).unwrap i, fun _ => rfl⟩
  · cases v with
    | entity e =>
        obtain ⟨j, hj⟩ := hplain e List.mem_cons_self
        refine ⟨j, hj, fun _ => hj, ?_⟩
        rintro ⟨d, hd, hhidden⟩
        cases List.mem_singleton.mp hd
        exact absurd List.mem_cons_self hhidden
    | list vs =>
        obtain ⟨d, hd⟩ := List.exists_mem_of_ne_nil _ hchildren
        have hkind : f.kind.Plain :=
          hk.resolve_right fun hbare => hbare d (entity_mem_atoms hd)
        exact viewed_of_write_list hkind hwrite (mem_children_list.mp hd)
          fun x hx => hplain x (mem_children_list.mpr hx)
    | _ => exact absurd rfl hchildren

/-! ## Entities -/

namespace Entity

omit [Codecs] in
/-- Each field holds one value, and one without entities if a codec is involved. -/
structure Viewable (d : Entity) : Prop where
  values : (d.values.map (·.1)).Nodup
  fields : ∀ q ∈ d.schema.fields, ∀ v, Record.get? d.values q.1 = some v →
    q.2.kind.Plain ∨ v.Bare

/-- In the plain document of an entity, what stands for a set field next to its wire document. -/
def FieldViewed (e : Entity) (n : String) (i j : Json) : Prop :=
  ∃ f v, (n, f) ∈ e.schema.fields ∧ Record.get? e.values n = some v ∧
    v.write n f.kind = .ok i ∧ v.Viewed i j

/-- What the plain document of an entity is, next to the data that is written: an object of the
same fields, or for a list type an array of the items, and nothing where there is no list. -/
inductive ViewedAs (e : Entity) (data : Members) : Json → Prop
  | object {ms : Members} (hlist : e.schema.isList = false)
      (h : List.Forall₂ (fun m n => m.1 = n.1 ∧ e.FieldViewed m.1 m.2 n.2) data ms) :
      ViewedAs e data (.obj ms)
  | array {vs : List Value} {is js : List Json} (hlist : e.schema.isList = true)
      (hvs : Record.get? e.values Schema.itemsField = some (.list vs))
      (hdata : data = [(Schema.itemsField, .arr is)])
      (h : (Value.list vs).unwrap (.arr is) = .ok (.arr js)) : ViewedAs e data (.arr js)
  | empty (hlist : e.schema.isList = true)
      (hvs : ∀ vs, Record.get? e.values Schema.itemsField ≠ some (.list vs)) :
      ViewedAs e data (.arr [])

/-- What stands in a plain document for a set field. -/
def viewField (e : Entity) (name : String) (f : Field) : Option (Outcome Json) :=
  (Record.get? e.values name).map fun v => v.plain name (some f)

theorem plainWriters_eq (es : List (String × Value)) :
    plainWriters es = es.map fun e => (e.1, e.2.plain e.1) := by
  induction es with
  | nil => rw [plainWriters, List.map_nil]
  | cons e es ih => rw [plainWriters, ih, List.map_cons]

theorem plain_eq_gather {e : Entity} (h : e.schema.isList = false) :
    e.plain = (Record.gather e.schema.fields e.viewField []).map .obj := by
  have hplain : e.plain = (e.schema.plainMembers (plainWriters e.values)).map .obj := by
    cases e
    rw [plain, if_neg (Bool.eq_false_iff.mp h)]
  rw [hplain, Schema.plainMembers, Record.gather]
  refine congrArg (fun step => Except.map Json.obj (e.schema.fields.foldlM step []))
    (funext fun ms => funext fun q => ?_)
  have hget : Record.get? (plainWriters e.values) q.1 =
      (Record.get? e.values q.1).map fun v => v.plain q.1 := by
    rw [plainWriters_eq, ← Record.get?_map fun n v => Value.plain v n]
  obtain ⟨name, f⟩ := q
  simp only [hget, viewField]
  cases Record.get? e.values name with
  | none => rfl
  | some v =>
      simp only [Option.map_some]
      cases v.plain name (some f) <;> rfl

theorem plainList_cons {n : String} {v : Value} (h : n ≠ Schema.itemsField ∨ ∀ vs, v ≠ .list vs)
    (field? : Option Field) (es : List (String × Value)) :
    plainList field? ((n, v) :: es) = plainList field? es := by
  cases v with
  | list vs => rw [plainList, if_neg (h.resolve_right fun hv => hv vs rfl)]
  | _ =>
      rw [plainList]
      intro m vs hv
      cases hv

/-- The items of a list type, where its field holds a list. -/
theorem plainList_of_list {es : List (String × Value)} {vs : List Value}
    (h : Record.get? es Schema.itemsField = some (.list vs)) (field? : Option Field) :
    plainList field? es = Value.plainItems vs Schema.itemsField field? := by
  induction es with
  | nil => cases h
  | cons e es ih =>
      obtain ⟨n, v⟩ := e
      rw [Record.get?] at h
      split at h
      · next hname =>
          cases h
          rw [plainList, if_pos hname, hname]
      · next hname => rw [plainList_cons (Or.inl hname), ih h]

theorem plainList_of_no_list {es : List (String × Value)}
    (h : ∀ vs, (Schema.itemsField, Value.list vs) ∉ es) (field? : Option Field) :
    plainList field? es = .ok [] := by
  induction es with
  | nil => rw [plainList]
  | cons e es ih =>
      obtain ⟨n, v⟩ := e
      have hhead : n ≠ Schema.itemsField ∨ ∀ vs, v ≠ .list vs := by
        rw [or_iff_not_imp_left, not_not]
        rintro rfl vs rfl
        exact h vs List.mem_cons_self
      rw [plainList_cons hhead, ih fun vs hvs => h vs (List.mem_cons_of_mem _ hvs)]

theorem plain_of_isList {e : Entity} (h : e.schema.isList = true) :
    e.plain = (plainList (e.schema.field? Schema.itemsField) e.values).map .arr := by
  cases e
  rw [plain, if_pos h]

/-- The data of an entity that is no list type shows in its plain document, if that of the values
does. -/
theorem viewedAs_of_data {e : Entity} (hlist : e.schema.isList = false) {data : Members}
    (hdata : e.data = .ok data)
    (hfield : ∀ q ∈ e.schema.fields, ∀ v, Record.get? e.values q.1 = some v →
      ∀ i, v.write q.1 q.2.kind = .ok i → ∃ j, v.plain q.1 (some q.2) = .ok j ∧ v.Viewed i j) :
    ∃ j, e.plain = .ok j ∧ e.ViewedAs data j := by
  have hstep (q : String × Field) (hq : q ∈ e.schema.fields) :
      Option.Rel (fun x y => ∀ i, x = .ok i → ∃ j, y = .ok j ∧ e.FieldViewed q.1 i j)
        (e.writeField q.1 q.2) (e.viewField q.1 q.2) := by
    rw [writeField, viewField]
    cases hv : Record.get? e.values q.1 with
    | none => exact .none
    | some v =>
        refine .some fun i hi => ?_
        obtain ⟨j, hj, hviewed⟩ := hfield q hq v hv i hi
        exact ⟨j, hj, q.2, v, hq, hv, hi, hviewed⟩
  rw [data_eq_gather] at hdata
  obtain ⟨ms, hms, hbeside⟩ := Record.gather_of_gather hstep .nil hdata
  exact ⟨.obj ms, by rw [plain_eq_gather hlist, hms, Except.ok_map], .object hlist hbeside⟩

/-- The data of a list type shows in its plain document as the array of its items, if they have
plain documents. -/
theorem viewedAs_of_items {e : Entity} (hlist : e.schema.isList = true) {vs : List Value}
    (hvs : Record.get? e.values Schema.itemsField = some (.list vs)) {data : Members}
    (hdata : e.data = .ok data)
    (hplain : ∀ d, .entity d ∈ vs → (∃ p, d.write = .ok p) → ∃ j, d.plain = .ok j) :
    ∃ j, e.plain = .ok j ∧ e.ViewedAs data j := by
  obtain ⟨type, isNullable, default?, hfields⟩ := Schema.exists_itemsField hlist
  rw [data_of_single hfields hvs] at hdata
  obtain ⟨i, hi, rfl⟩ := Except.map_eq_ok_iff.mp hdata
  obtain ⟨hnull, -⟩ | ⟨d, hd, -⟩ | ⟨ds, is, hitems, rfl, hds⟩ := Value.written_of_isObject rfl hi
  · cases hnull
  · cases hd
  · cases hitems
    have hsame : Value.unwrapItems (ds.map .entity) is = (ds.map Value.entity).mapM fun w =>
        w.plain Schema.itemsField (e.schema.field? Schema.itemsField) :=
      Value.unwrapItems_eq_mapM (List.forall₂_map_left_iff.mpr (hds.imp fun d _ _ => rfl))
    obtain ⟨js, hjs⟩ : ∃ js, Value.unwrapItems (ds.map .entity) is = .ok js := by
      rw [hsame]
      refine List.exists_mapM_eq_ok_iff.mpr fun w hw => ?_
      obtain ⟨d, hd, rfl⟩ := List.mem_map.mp hw
      obtain ⟨i, hi⟩ := hds.exists_mem_zip hd
      obtain ⟨p, hp, -⟩ := List.forall₂_zip hds hi
      exact hplain d hw ⟨p, hp⟩
    refine ⟨.arr js, ?_, .array hlist hvs rfl ?_⟩
    · rw [plain_of_isList hlist, plainList_of_list hvs, Value.plainItems_eq, ← hsame, hjs,
        Except.ok_map]
    · rw [Value.unwrap, hjs, Except.ok_map]

/-- What is written has a plain document, if the children have. -/
theorem viewedAs_of_write {e : Entity} (he : e.Viewable) {p : Primitive} (h : e.write = .ok p)
    (hplain : ∀ q ∈ e.values, ∀ d ∈ q.2.children, (∃ p, d.write = .ok p) → ∃ j, d.plain = .ok j) :
    ∃ j, e.plain = .ok j ∧ e.ViewedAs p.data j := by
  obtain ⟨data, hdata, rfl⟩ := Except.map_eq_ok_iff.mp (e.write_eq ▸ h)
  cases hlist : e.schema.isList with
  | false =>
      refine viewedAs_of_data hlist hdata fun q hq v hv i hi => ?_
      have hkind := he.fields q hq v hv
      exact Value.viewed_of_write hkind hi fun d hd =>
        hplain _ (Record.mem_of_get? hv) d hd (Value.exists_write_of_child hkind hi hd)
  | true =>
      by_cases hvs : ∃ vs, Record.get? e.values Schema.itemsField = some (.list vs)
      · obtain ⟨vs, hvs⟩ := hvs
        exact viewedAs_of_items hlist hvs hdata fun d hd =>
          hplain _ (Record.mem_of_get? hvs) d (Value.mem_children_list.mpr hd)
      · have hnone (vs : List Value) : (Schema.itemsField, Value.list vs) ∉ e.values :=
          fun hmem => hvs ⟨vs, Record.get?_of_mem he.values hmem⟩
        rw [plain_of_isList hlist, plainList_of_no_list hnone]
        exact ⟨.arr [], rfl, .empty hlist fun vs h => hvs ⟨vs, h⟩⟩

/-- Every entity of which the graph is viewable has a plain document, if it is written. -/
theorem exists_viewedAs {e : Entity} (hgraph : ∀ d ∈ e.graph, d.Viewable) {p : Primitive}
    (h : e.write = .ok p) : ∃ j, e.plain = .ok j ∧ e.ViewedAs p.data j := by
  induction e using Entity.nested generalizing p with
  | h e ih =>
      refine viewedAs_of_write (hgraph e e.self_mem_graph) h ?_
      rintro q hq d hd ⟨r, hr⟩
      have hmem := Value.mem_graph_of_mem_children hd
      obtain ⟨j, hj, -⟩ := ih q hq d hmem
        (fun x hx => forall_graph_values hgraph q hq x (Value.graph_trans hmem hx)) hr
      exact ⟨j, hj⟩

/-! ## Primitives left in plain documents -/

/-- The entity hides no other one, and nothing in its fields passes for an entity. -/
structure Clear (d : Entity) : Prop extends d.Viewable where
  shown : ∀ q ∈ d.values, ¬ q.2.Hides
  names : Primitive.nameKey ∉ d.schema.fieldNames
  keys : ∀ q ∈ d.values, Primitive.nameKey ∉ q.2.keys
  codecs : ∀ q ∈ d.schema.fields, ∀ v i, Record.get? d.values q.1 = some v → ¬ q.2.kind.Plain →
    v.write q.1 q.2.kind = .ok i → i.EntityFree

end Entity

/-- In the document of a value without entities nothing passes for one. -/
theorem Value.Bare.entityFree {v : Value} (h : v.Bare) {name : String} {k : Kind} {i : Json}
    (hk : k.Plain) (hwrite : v.write name k = .ok i) (hkeys : Primitive.nameKey ∉ v.keys) :
    i.EntityFree := by
  intro doc hdoc
  by_contra hprimitive
  obtain ⟨d, inner, hplace, -⟩ :=
    Kind.exists_places_of_isPrimitive hk hwrite hkeys hdoc (Bool.not_eq_false _ ▸ hprimitive)
  have hmem := hplace.mem_graph
  rw [h.graph_eq_nil] at hmem
  cases hmem

omit [Codecs] in
theorem Json.EntityFree.arr {js : List Json} (h : ∀ j ∈ js, j.EntityFree) :
    (Json.arr js).EntityFree := by
  intro i hi
  by_contra hprimitive
  obtain ⟨j, hj, hi⟩ := exists_item_of_isPrimitive hi (Bool.not_eq_false _ ▸ hprimitive)
  exact hprimitive (h j hj i hi)

omit [Codecs] in
theorem Json.EntityFree.obj {ms : Members} (h : ∀ m ∈ ms, m.2.EntityFree)
    (hname : Record.contains ms Primitive.nameKey = false) : (Json.obj ms).EntityFree := by
  intro i hi
  by_contra hprimitive
  obtain ⟨m, hm, hi⟩ := exists_member_of_isPrimitive hi (Bool.not_eq_false _ ▸ hprimitive) hname
  exact hprimitive (h m hm i hi)

/-- The unwrapped document of a value that hides nothing has no primitive in it, if the plain
documents of its children have none. -/
theorem Value.unwrap_entityFree {v : Value} (hshown : ¬ v.Hides) {name : String} {k : Kind}
    {i j : Json} (hk : k.Plain ∨ v.Bare) (hwrite : v.write name k = .ok i)
    (hbare : v.Bare → i.EntityFree)
    (hplain : ∀ d ∈ v.children, ∀ j, d.plain = .ok j → j.EntityFree)
    (h : v.unwrap i = .ok j) : j.EntityFree := by
  by_cases hentities : v.Bare
  · rw [hentities.unwrap] at h
    cases h
    exact hbare hentities
  · have hkind := hk.resolve_right hentities
    obtain ⟨d, hd⟩ : ∃ d, d ∈ v.children := by
      by_contra hnone
      refine hentities (bare_of_children (List.eq_nil_iff_forall_not_mem.mpr ?_) hshown)
      exact fun d hd => hnone ⟨d, hd⟩
    cases v with
    | entity e => exact hplain e List.mem_cons_self j h
    | list vs =>
        obtain ⟨is, rfl, his⟩ := written_of_children hkind hwrite (mem_children_list.mp hd)
        have hsame : unwrapItems vs is = vs.mapM fun w => w.plain name none := by
          refine unwrapItems_eq_mapM (his.imp fun w i hwi => ?_)
          obtain ⟨rfl, rfl⟩ | ⟨x, rfl⟩ := hwi
          · rfl
          · rfl
        rw [Value.unwrap, hsame] at h
        obtain ⟨js, hjs, rfl⟩ := Except.map_eq_ok_iff.mp h
        refine .arr fun j hj => ?_
        obtain ⟨w, hw, hwj⟩ := List.exists_of_mem_mapM hjs hj
        obtain ⟨i, hi⟩ := his.exists_mem_zip hw
        obtain ⟨rfl, -⟩ | ⟨x, rfl⟩ := List.forall₂_zip his hi
        · cases hwj
          intro doc hdoc
          rw [List.mem_singleton.mp hdoc]
          rfl
        · exact hplain x (mem_children_list.mpr hw) j hwj
    | _ => cases hd

namespace Entity

/-- Where nothing is hidden, no primitive is left. -/
theorem plain_entityFree {e : Entity} (hgraph : ∀ d ∈ e.graph, d.Clear) {p : Primitive}
    (h : e.write = .ok p) {j : Json} (hj : e.plain = .ok j) : j.EntityFree := by
  induction e using Entity.nested generalizing p j with
  | h e ih =>
      have he := hgraph e e.self_mem_graph
      have hchild (v : Value) (n : String) (f : Field) (i : Json) (hf : (n, f) ∈ e.schema.fields)
          (hv : Record.get? e.values n = some v) (hi : v.write n f.kind = .ok i) :
          ∀ j, v.unwrap i = .ok j → j.EntityFree := by
        intro j hj
        have hmem := Record.mem_of_get? hv
        have hkind := he.fields (n, f) hf v hv
        refine v.unwrap_entityFree (he.shown _ hmem) hkind hi (fun hbare => ?_) ?_ hj
        · by_cases hk : f.kind.Plain
          · exact hbare.entityFree hk hi (he.keys _ hmem)
          · exact he.codecs (n, f) hf v i hv hk hi
        · intro d hd j hj
          obtain ⟨q, hq⟩ := Value.exists_write_of_child hkind hi hd
          have hbelow := Value.mem_graph_of_mem_children hd
          exact ih _ hmem d hbelow
            (fun x hx => forall_graph_values hgraph _ hmem x (Value.graph_trans hbelow hx)) hq hj
      obtain ⟨j', hj', hview⟩ := exists_viewedAs (fun d hd => (hgraph d hd).toViewable) h
      cases hj.symm.trans hj'
      cases hview with
      | object hlist hbeside =>
          refine .obj (fun m hm => ?_) ?_
          · obtain ⟨_, _, -, f, v, hf, hv, hi, hviewed⟩ := List.exists_of_mem_forall₂ hbeside hm
            exact hchild v _ f _ hf hv hi _ (hviewed.shown (he.shown _ (Record.mem_of_get? hv)))
          · refine Bool.eq_false_iff.mpr fun hname => ?_
            obtain ⟨m, hm, hkey⟩ := List.mem_map.mp (Record.contains_iff_mem.mp hname)
            obtain ⟨n, -, hn, f, v, hf, -⟩ := List.exists_of_mem_forall₂ hbeside hm
            exact he.names (hkey ▸ hn ▸ List.mem_map_of_mem (f := (·.1)) hf)
      | @array vs is js hlist hvs hdata hunwrap =>
          obtain ⟨type, isNullable, default?, hfields⟩ := Schema.exists_itemsField hlist
          obtain ⟨data, hwritten, rfl⟩ := Except.map_eq_ok_iff.mp (e.write_eq ▸ h)
          rw [data_of_single hfields hvs] at hwritten
          obtain ⟨i, hi, rfl⟩ := Except.map_eq_ok_iff.mp hwritten
          cases hdata
          exact hchild _ _ _ _ (hfields ▸ List.mem_singleton_self _) hvs hi _ hunwrap
      | empty hlist hvs => exact .arr nofun

/-- **Plain documents.** Whatever can be written has a plain document: for each set field the
unwrapped wire document, or the wire document itself where the field hides entities; an array
of unwrapped items for a list type. If no entity of the graph hides another one, and nothing
else in it passes for an entity, there is no primitive anywhere in the plain document. -/
theorem plain_of_write {e : Entity} (hgraph : ∀ d ∈ e.graph, d.Viewable) {p : Primitive}
    (h : e.write = .ok p) : ∃ j, e.plain = .ok j ∧ e.ViewedAs p.data j ∧
      ((∀ d ∈ e.graph, d.Clear) → j.EntityFree) := by
  obtain ⟨j, hj, hview⟩ := exists_viewedAs hgraph h
  exact ⟨j, hj, hview, fun hclear => plain_entityFree hclear h hj⟩

end Entity

end

/-! ## A gallery

It has a painting at the entrance and a row of paintings, and more of them in rooms by name. The
rooms are a map, and hide what they hold. -/

namespace Gallery

attribute [local instance] Codecs.none

def paintingSchema : Schema :=
  ⟨"Painting", ⟨1, 0, none⟩, [("title", ⟨.string, false, none⟩)], [], [], none⟩

def painting (title : String) : Entity :=
  ⟨paintingSchema, ⟨1, 0, none⟩, none, [("title", .str title)], []⟩

def schema : Schema :=
  ⟨"Gallery", ⟨1, 0, none⟩,
    [("entrance", ⟨.object "Painting", true, none⟩), ("rooms", ⟨.dict (.object "Painting"), true,
      none⟩), ("row", ⟨.list (.nullable (.object "Painting")), true, none⟩)], [], [], none⟩

def gallery : Entity :=
  ⟨schema, ⟨1, 0, none⟩, none, [("entrance", .entity (painting "dunes")),
    ("row", .list [.null, .entity (painting "harbour")])], []⟩

def annex : Entity :=
  ⟨schema, ⟨1, 0, none⟩, none, [("rooms", .map [("north", .entity (painting "dunes"))])], []⟩

theorem painting_clear (title : String) : (painting title).Clear where
  values := by
    show ["title"].Nodup
    decide
  fields := List.forall_mem_singleton.mpr fun _ _ => Or.inl trivial
  shown := List.forall_mem_singleton.mpr fun ⟨_, hd, _⟩ => nomatch List.mem_singleton.mp hd
  names := by
    show Primitive.nameKey ∉ ["title"]
    decide
  keys := List.forall_mem_singleton.mpr List.not_mem_nil
  codecs := List.forall_mem_singleton.mpr fun _ _ _ hk => (hk trivial).elim

theorem gallery_clear : ∀ d ∈ gallery.graph, d.Clear := by
  refine List.forall_mem_cons.mpr ⟨?_, List.forall_mem_cons.mpr ⟨painting_clear "dunes",
    List.forall_mem_cons.mpr ⟨painting_clear "harbour", nofun⟩⟩⟩
  refine ⟨⟨by decide, ?_⟩, ?_, by decide, ?_, ?_⟩
  · simp [schema, Kind.Plain]
  · simp [Value.Hides, Value.atoms, Value.itemAtoms, Value.children, Value.entity?]
  · simp [Value.keys, Value.itemKeys]
  · simp [schema, Kind.Plain]

theorem gallery_plain : ∃ p, gallery.write = .ok p ∧ (∀ d ∈ gallery.graph, d.Clear) ∧
    ∃ j, gallery.plain = .ok j ∧ gallery.ViewedAs p.data j ∧ j.EntityFree := by
  refine ⟨_, rfl, gallery_clear, ?_⟩
  obtain ⟨j, hj, hview, hfree⟩ :=
    Entity.plain_of_write (fun d hd => (gallery_clear d hd).toViewable) rfl
  exact ⟨j, hj, hview, hfree gallery_clear⟩

/-- The painting in a room stands in the plain document as its primitive. -/
theorem painting_left_as_primitive : ∃ p q j, annex.write = .ok p ∧
    (painting "dunes").write = .ok q ∧ annex.plain = .ok j ∧ q.toJson ∈ j.documents ∧
    Primitive.isPrimitive q.toJson = true := by
  refine ⟨_, _, _, rfl, rfl, rfl, ?_, rfl⟩
  exact List.mem_cons_of_mem _ (List.mem_cons_of_mem _ List.mem_cons_self)

end Gallery

end Skew

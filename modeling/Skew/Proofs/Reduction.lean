import Skew.Proofs.Admission
import Skew.Proofs.RoundTrip

/-!
# What an older reader makes of an entity

A reader with an older definition gets the primitive of an entity with some of its data left
out. What it reads is a reduction of the entity (`Entity.Reduces`): at every depth, the set
fields that the reader's definition declares, with equal values, and the changes as far as they
name such fields. `Entity.read_reduced` says so for one entity, given it for the fields.
-/

namespace Skew

/-! ## Primitives in a document -/

/-- Every primitive in the document is as said. -/
def Json.Carries (P : Primitive → Prop) (j : Json) : Prop :=
  ∀ i ∈ j.documents, ∀ p, Primitive.ofJson i = .ok p → P p

namespace Json.Carries

variable {P : Primitive → Prop}

theorem leaf {j : Json} (hdocuments : j.documents = [j])
    (hj : Primitive.ofJson j = .error (.malformed .notObject)) : j.Carries P := by
  intro i hi p hp
  rw [hdocuments, List.mem_singleton] at hi
  rw [hi, hj] at hp
  cases hp

theorem arr {js : List Json} (h : ∀ j ∈ js, j.Carries P) : (Json.arr js).Carries P := by
  intro i hi p hp
  rw [documents, itemDocuments_eq, List.mem_cons, List.mem_flatMap] at hi
  rcases hi with rfl | ⟨j, hj, hi⟩
  · cases hp
  · exact h j hj i hi p hp

theorem obj {ms : Members} (h : ∀ m ∈ ms, m.2.Carries P)
    (hself : ∀ p, Primitive.ofMembers ms = .ok p → P p) : (Json.obj ms).Carries P := by
  intro i hi p hp
  rw [documents, memberDocuments_eq, List.mem_cons, List.mem_flatMap] at hi
  rcases hi with rfl | ⟨m, hm, hi⟩
  · exact hself p hp
  · exact h m hm i hi p hp

end Json.Carries

namespace Primitive

/-- The members that make an object a primitive have a name for the namespace. -/
theorem get?_space_of_ofMembers {ms : Members} {p : Primitive} (h : ofMembers ms = .ok p) :
    Record.get? ms spaceKey = some (.str p.space) :=
  (ofMembers_eq_ok_iff.mp h).space

/-- The documents of a primitive: one without changes may have an empty list of them. -/
inductive Document (p : Primitive) : Json → Prop
  | full : Document p p.toJson
  | emptied (hchanges : p.changes = []) : Document p (.obj ((changesKey, .arr []) :: p.members))

/-- An adapted document is one of the primitive with the adapted data. -/
theorem adapted_document (p : Primitive) (goal : Version) (data : Members) :
    Document ⟨p.space, p.name, goal.text, data, p.changes.filter (Record.contains data)⟩
      (p.adapted goal data) := by
  obtain ⟨space, name, version, old, changes⟩ := p
  cases changes with
  | nil => exact .full
  | cons n names =>
      have hadapted : adapted ⟨space, name, version, old, n :: names⟩ goal data =
          .obj ((changesKey, .arr (((n :: names).filter (Record.contains data)).map .str)) ::
            [(dataKey, .obj data), (nameKey, .str name), (spaceKey, .str space),
              (versionKey, .str goal.text)]) := rfl
      rw [hadapted]
      cases hkept : (n :: names).filter (Record.contains data) with
      | nil => exact .emptied rfl
      | cons m kept => exact .full

namespace Document

variable {p : Primitive} {j : Json}

theorem ofJson (h : Document p j) : Primitive.ofJson j = .ok p := by
  cases h with
  | full => exact ofMembers_members p
  | emptied hchanges =>
      obtain ⟨space, name, version, data, changes⟩ := p
      cases hchanges
      rfl

/-- The primitives in the document are this one and those in its data. -/
theorem carries {P : Primitive → Prop} (h : Document p j) (hp : P p)
    (hdata : ∀ m ∈ p.data, m.2.Carries P) (hspace : Record.get? p.data spaceKey = none) :
    j.Carries P := by
  have hobj : (Json.obj p.data).Carries P := by
    refine .obj hdata ?_
    intro q hq
    rw [get?_space_of_ofMembers hq] at hspace
    cases hspace
  have hstr (s : String) : (Json.str s).Carries P := .leaf rfl rfl
  have hmembers : ∀ m ∈ p.members, m.2.Carries P := by
    unfold members
    rw [List.forall_mem_append]
    constructor
    · split
      · exact List.forall_mem_nil _
      · rw [List.forall_mem_singleton]
        refine .arr ?_
        rw [List.forall_mem_map]
        exact fun n _ => hstr n
    · simp only [List.forall_mem_cons]
      exact ⟨hobj, hstr _, hstr _, hstr _, List.forall_mem_nil _⟩
  have hself : ∀ q, Primitive.ofJson j = .ok q → P q := by
    intro q hq
    rw [h.ofJson] at hq
    cases hq
    exact hp
  cases h with
  | full => exact .obj hmembers hself
  | emptied =>
      exact .obj (List.forall_mem_cons.mpr ⟨.arr (List.forall_mem_nil _), hmembers⟩) hself

end Document

end Primitive

/-! ## Composed fields -/

section

variable [Codecs] {registry : Registry} {c? : Option Context}

/-- Written data has what is set, each value written by its field. -/
theorem Entity.written {e : Entity} (he : e.WellFormed) {raw : Members} (hraw : e.data = .ok raw) :
    (∀ n, Record.contains raw n = e.isSet n) ∧
      ∀ n f x j, e.schema.field? n = some f → Record.get? e.values n = some x →
        Record.get? raw n = some j → x.write n f.kind = .ok j := by
  obtain ⟨-, hnames, hwritten⟩ := (Entity.data_eq_ok_iff he.schema.fields).mp hraw
  have hentry (n : String) (f : Field) (hf : e.schema.field? n = some f) :
      (Record.get? e.values n).map (fun v => v.write n f.kind) =
        (Record.get? raw n).map .ok := hwritten _ (Record.mem_of_get? hf)
  constructor
  · intro n
    by_cases hn : n ∈ e.schema.fieldNames
    · obtain ⟨f, hf⟩ := Record.contains_iff.mp (Record.contains_iff_mem.mpr hn)
      have hsome := congrArg Option.isSome (hentry n f hf)
      rw [Option.isSome_map, Option.isSome_map] at hsome
      exact hsome.symm
    · rw [Bool.eq_iff_iff]
      constructor
      · intro hcontains
        exact absurd (hnames n (Record.contains_iff_mem.mp hcontains)) hn
      · intro hset
        exact absurd (he.declared n hset) hn
  · intro n f x j hf hx hj
    have hwrite := hentry n f hf
    rw [hx, hj] at hwrite
    exact Option.some.inj hwrite

/-- The entity that is read from a document. -/
def Json.Reads (registry : Registry) (c? : Option Context) (j : Json) (e : Entity) : Prop :=
  (j.reading registry c?).entity () = .ok e

/-- A field takes the entity that is read from its document. -/
theorem Json.Reads.take {j : Json} {e : Entity} (h : j.Reads registry c? e) {f : Field}
    (hkind : f.kind = .object e.schema.name) (name : String) :
    f.take name (j.reading registry c?) = .ok (.entity e) := by
  have hcoerce : (Kind.object e.schema.name).coerce (.entity e) = .ok (.entity e) :=
    Kind.Stores.object.coerce
  have hread : (j.reading registry c?).field name f.kind = .ok (.entity e) := by
    rw [hkind]
    cases j with
    | obj ms =>
        have hfield : ((Json.obj ms).reading registry c?).field name (.object e.schema.name) =
            ((Json.obj ms).reading registry c?).entity () >>= fun e' =>
              (Kind.object e.schema.name).accept name (.entity e') := rfl
        rw [hfield, h, Except.ok_bind, Kind.accept, hcoerce]
        rfl
    | _ => cases h
  have hstored : f.coerce (.entity e) = .ok (.entity e) := by
    rw [f.coerce_of_not_null rfl, hkind, hcoerce]
  rw [Field.take, Field.read, hread]
  simp only [Except.ok_bind, Value.isNull, Bool.false_eq_true, false_and, if_false]
  rw [hstored]
  rfl

/-- A field takes the entities that are read from its documents. -/
theorem Json.take_list {js : List Json} {es : List Entity}
    (h : List.Forall₂ (Json.Reads registry c?) js es) {f : Field} {type : String}
    (hkind : f.kind = .listOfObjects type) (htypes : ∀ e ∈ es, e.schema.name = type)
    (name : String) :
    f.take name ((Json.arr js).reading registry c?) = .ok (.list (es.map .entity)) := by
  have hcoerce : (Kind.listOfObjects type).coerce (.list (es.map .entity)) =
      .ok (.list (es.map .entity)) := by
    refine (Kind.Stores.listOfObjects ?_).coerce
    rw [List.forall_mem_map]
    exact fun e he => ⟨e, rfl, htypes e he⟩
  have hread : ((Json.arr js).reading registry c?).field name f.kind =
      .ok (.list (es.map .entity)) := by
    have hitems : (Json.itemReadings registry c? js).mapM (fun r => r.entity ()) = .ok es := by
      rw [Json.itemReadings_eq, List.mapM_map, List.mapM_eq_ok_iff]
      exact h
    have hfield : ((Json.arr js).reading registry c?).field name (.listOfObjects type) =
        (Json.itemReadings registry c? js).mapM (fun r => r.entity ()) >>= fun es =>
          (Kind.listOfObjects type).accept name (.list (es.map .entity)) := rfl
    rw [hkind, hfield, hitems, Except.ok_bind, Kind.accept, hcoerce]
    rfl
  have hstored : f.coerce (.list (es.map .entity)) = .ok (.list (es.map .entity)) := by
    rw [f.coerce_of_not_null rfl, hkind, hcoerce]
  rw [Field.take, Field.read, hread]
  simp only [Except.ok_bind, Value.isNull, Bool.false_eq_true, false_and, if_false]
  rw [hstored]
  rfl

/-! ## Reductions -/

variable (Fits : Entity → Entity → Prop) (c? : Option Context)

mutual

/-- What is left of an entity in its reduction: the set fields that the definition of the
reduction declares, and the changes of these. How definition and version fit is a parameter. -/
inductive Entity.Reduces : Entity → Entity → Prop
  | intro {e e' : Entity} (hfits : Fits e e') (hname : e'.schema.name = e.schema.name)
      (hcontext : e'.context? = c?)
      (hset : ∀ n, e'.isSet n = true ↔ e.isSet n = true ∧ n ∈ e'.schema.fieldNames)
      (hvalues : ∀ n v v', Record.get? e.values n = some v → Record.get? e'.values n = some v' →
        Value.Reduces v v')
      (hchanged : e'.whatChanged = e.whatChanged.filter (· ∈ e'.schema.fieldNames)) :
      Entity.Reduces e e'

/-- Values without entities are the same, the others have reductions in place of theirs. -/
inductive Value.Reduces : Value → Value → Prop
  | same {v : Value} (hgraph : v.graph = []) : Value.Reduces v v
  | entity {d d' : Entity} (h : Entity.Reduces d d') : Value.Reduces (.entity d) (.entity d')
  | list {ds ds' : List Entity} (h : List.Forall₂ Entity.Reduces ds ds') :
      Value.Reduces (.list (ds.map .entity)) (.list (ds'.map .entity))

end

variable {Fits} {c?}

omit [Codecs] in
theorem Entity.Reduces.fits {e e' : Entity} (h : e.Reduces Fits c? e') : Fits e e' := by
  cases h with
  | intro hfits => exact hfits

omit [Codecs] in
theorem Entity.Reduces.name {e e' : Entity} (h : e.Reduces Fits c? e') :
    e'.schema.name = e.schema.name := by
  cases h with
  | intro _ hname => exact hname

omit [Codecs] in
theorem Entity.Reduces.whatChanged_ne_nil {e e' : Entity} (h : e.Reduces Fits c? e')
    (he' : e'.whatChanged ≠ []) : e.whatChanged ≠ [] := by
  cases h with
  | intro _ _ _ _ _ hchanged =>
      intro he
      rw [hchanged, he] at he'
      exact he' rfl

omit [Codecs] in
/-- What counts as changed in a reduction did before. -/
theorem Value.Reduces.hasChanges {v v' : Value} (h : v.Reduces Fits c? v')
    (hv' : v'.hasChanges = true) : v.hasChanges = true := by
  rw [Value.hasChanges_iff] at hv' ⊢
  cases h with
  | same => exact hv'
  | entity h =>
      obtain ⟨x, hx, hchanged⟩ := hv'
      cases List.mem_singleton.mp hx
      exact ⟨_, List.mem_cons_self, h.whatChanged_ne_nil hchanged⟩
  | list h =>
      rw [Value.children_list] at hv' ⊢
      obtain ⟨x, hx, hchanged⟩ := hv'
      obtain ⟨d, hd, hdx⟩ := List.exists_of_mem_forall₂ h hx
      exact ⟨d, hd, hdx.whatChanged_ne_nil hchanged⟩

/-! ## Values of a reduction -/

/-- The values that a definition declares. -/
def Entity.restricted (e : Entity) (t : Schema) : Record Value :=
  e.values.filter fun p => p.1 ∈ t.fieldNames

/-- The values beside those that the definition declares: each was taken by its field from the
data, and is a reduction. -/
def Entity.Leaves (Fits : Entity → Entity → Prop) (registry : Registry) (c? : Option Context)
    (e : Entity) (t : Schema) (data : Members) (values : Record Value) : Prop :=
  List.Forall₂ (fun p q => p.1 = q.1 ∧
    (∃ f j, t.field? p.1 = some f ∧ Record.get? data p.1 = some j ∧
      f.take p.1 (j.reading registry c?) = .ok q.2) ∧ p.2.Reduces Fits c? q.2)
    (e.restricted t) values

section

variable {e : Entity} {t : Schema} {data : Members}

theorem Entity.exists_leaves (he : e.WellFormed)
    (hdata : ∀ n, e.isSet n = true → n ∈ t.fieldNames → Record.contains data n = true)
    (hvalues : ∀ n f x j, t.field? n = some f → Record.get? e.values n = some x →
      Record.get? data n = some j →
        ∃ y, f.take n (j.reading registry c?) = .ok y ∧ x.Reduces Fits c? y) :
    ∃ values, e.Leaves Fits registry c? t data values := by
  refine List.exists_forall₂ ?_
  rintro ⟨n, x⟩ hp
  obtain ⟨hp, hn⟩ := List.mem_filter.mp hp
  have hn : n ∈ t.fieldNames := of_decide_eq_true hn
  have hx : Record.get? e.values n = some x := Record.get?_of_mem he.values.nodup hp
  obtain ⟨f, hf⟩ := Record.contains_iff.mp (Record.contains_iff_mem.mpr hn)
  obtain ⟨j, hj⟩ := Record.contains_iff.mp (hdata n (Record.contains_iff.mpr ⟨x, hx⟩) hn)
  obtain ⟨y, htake, hreduces⟩ := hvalues n f x j hf hx hj
  exact ⟨(n, y), rfl, ⟨f, j, hf, hj, htake⟩, hreduces⟩

namespace Entity.Leaves

variable {values : Record Value} (h : e.Leaves Fits registry c? t data values)
include h

theorem ascending (he : e.WellFormed) : Record.Ascending values :=
  (he.values.filter _).of_names_eq (Record.names_eq_of_forall₂ h)

/-- Under a name there is nothing, or what the field took. -/
theorem get?_cases (n : String) :
    (Record.get? values n = none ∧ ¬ (e.isSet n = true ∧ n ∈ t.fieldNames)) ∨
      ∃ x y f j, Record.get? e.values n = some x ∧ n ∈ t.fieldNames ∧
        Record.get? values n = some y ∧ t.field? n = some f ∧ Record.get? data n = some j ∧
          f.take n (j.reading registry c?) = .ok y ∧ x.Reduces Fits c? y := by
  have hrestricted : Record.get? (e.restricted t) n =
      if n ∈ t.fieldNames then Record.get? e.values n else none := by
    rw [restricted, Record.get?_filter e.values (· ∈ t.fieldNames)]
    simp only [decide_eq_true_eq]
  rcases Record.get?_of_forall₂ h n with ⟨hx, hy⟩ | ⟨x, y, hx, hy, ⟨f, j, hf, hj, htake⟩, hxy⟩
  · refine Or.inl ⟨hy, ?_⟩
    rintro ⟨hset, hn⟩
    rw [hrestricted, if_pos hn] at hx
    rw [isSet, Record.contains, hx] at hset
    cases hset
  · rw [hrestricted] at hx
    split at hx
    · next hn => exact Or.inr ⟨x, y, f, j, hx, hn, hy, hf, hj, htake, hxy⟩
    · cases hx

theorem contains_iff (n : String) :
    Record.contains values n = true ↔ e.isSet n = true ∧ n ∈ t.fieldNames := by
  rcases h.get?_cases n with ⟨hy, hnone⟩ | ⟨x, y, -, -, hx, hn, hy, -⟩
  · rw [Record.contains, hy]
    exact iff_of_false Bool.false_ne_true hnone
  · rw [isSet, Record.contains, Record.contains, hx, hy]
    simp [hn]

/-- What is left is what the reader takes from the data. -/
theorem taken (ht : t.fieldNames.Nodup)
    (hdata : ∀ n, Record.contains data n = true → e.isSet n = true ∧ n ∈ t.fieldNames)
    (q : String × Field) (hq : q ∈ t.fields) :
    (Record.get? data q.1).map (fun j => q.2.take q.1 (j.reading registry c?)) =
      (Record.get? values q.1).map .ok := by
  rcases h.get?_cases q.1 with ⟨hy, hnone⟩ | ⟨x, y, f, j, -, -, hy, hf, hj, htake, -⟩
  · cases hj : Record.get? data q.1 with
    | none => rw [hy]; rfl
    | some j => exact absurd (hdata q.1 (Record.contains_iff.mpr ⟨j, hj⟩)) hnone
  · have hq : t.field? q.1 = some q.2 := Record.get?_of_mem ht hq
    rw [hf] at hq
    cases hq
    rw [hj, hy]
    exact congrArg some htake

/-- Of the markers on the wire, those of the values are left. -/
theorem marked (he : e.WellFormed)
    (hdata : ∀ n, e.isSet n = true → n ∈ t.fieldNames → Record.contains data n = true) :
    (e.whatChanged.filter (Record.contains data)).filter (Record.contains values) =
      e.whatChanged.filter (· ∈ t.fieldNames) := by
  rw [List.filter_filter]
  refine List.filter_congr ?_
  intro n hn
  have hset := he.isSet_of_mem_whatChanged hn
  rw [Bool.eq_iff_iff, Bool.and_eq_true, h.contains_iff, decide_eq_true_eq]
  exact ⟨fun ⟨⟨_, hn⟩, _⟩ => hn, fun hn => ⟨⟨hset, hn⟩, hdata n hset hn⟩⟩

/-- Nested changes count among those of the entity. -/
theorem mem_changedEntries (he : e.WellFormed) {n : String}
    (hn : n ∈ Entity.changedEntries values) : n ∈ e.whatChanged.filter (· ∈ t.fieldNames) := by
  rw [Entity.changedEntries_eq] at hn
  obtain ⟨⟨n, y⟩, hp, rfl⟩ := List.mem_map.mp hn
  obtain ⟨hp, hchanges⟩ := List.mem_filter.mp hp
  have hy := Record.get?_of_mem (h.ascending he).nodup hp
  rcases h.get?_cases n with ⟨hnone, -⟩ | ⟨x, y', -, -, hx, hdeclared, hy', -, -, -, hxy⟩
  · rw [hy] at hnone
    cases hnone
  · rw [hy] at hy'
    cases hy'
    refine List.mem_filter.mpr ⟨?_, decide_eq_true hdeclared⟩
    rw [Entity.whatChanged_eq, NameSet.mem_union, Entity.changedEntries_eq]
    exact Or.inr (List.mem_map.mpr ⟨(n, x), List.mem_filter.mpr
      ⟨Record.mem_of_get? hx, hxy.hasChanges hchanges⟩, rfl⟩)

end Entity.Leaves

/-- **Reading a reduction.** If the data of an entity is what a definition declares, a reader
with that definition reads a reduction of the entity, as far as each field takes a reduction of
its value. -/
theorem Entity.read_reduced (he : e.WellFormed) {v : Version}
    (hresolve : registry.resolve e.schema.name v = .ok t) (hname : t.name = e.schema.name)
    (ht : t.fieldNames.Nodup)
    (hfits : ∀ e' : Entity, e'.schema = t → e'.version = v → Fits e e')
    (hdata : ∀ n, Record.contains data n = true ↔ e.isSet n = true ∧ n ∈ t.fieldNames)
    (hvalues : ∀ n f x j, t.field? n = some f → Record.get? e.values n = some x →
      Record.get? data n = some j →
        ∃ y, f.take n (j.reading registry c?) = .ok y ∧ x.Reduces Fits c? y) :
    ∃ e', Entity.ofPrimitive registry c? (e.wrap v data) = .ok e' ∧ e.Reduces Fits c? e' := by
  have hcontains (n : String) (hset : e.isSet n = true) (hn : n ∈ t.fieldNames) :
      Record.contains data n = true := (hdata n).mpr ⟨hset, hn⟩
  obtain ⟨values, hleaves⟩ := Entity.exists_leaves he hcontains hvalues
  have hnames (n : String) (hn : n ∈ values.map (·.1)) : n ∈ t.fieldNames :=
    ((hleaves.contains_iff n).mp (Record.contains_iff_mem.mpr hn)).2
  have hkept : Record.Ascending values := hleaves.ascending he
  have hfiltered : NameSet.Ascending (e.whatChanged.filter (· ∈ t.fieldNames)) :=
    List.Pairwise.filter _ he.whatChanged
  refine ⟨_, Entity.ofPrimitive_eq_ok (e.resolve_wrap hresolve data) ht hkept hnames
    (hleaves.taken ht fun n => (hdata n).mp), ?_⟩
  refine .intro (hfits _ rfl rfl) hname rfl hleaves.contains_iff ?_ ?_
  · intro n x y hx hy
    rcases hleaves.get?_cases n with ⟨hnone, -⟩ | ⟨x', y', -, -, hx', -, hy', -, -, -, hxy⟩
    · rw [hy] at hnone
      cases hnone
    · rw [hx] at hx'
      rw [hy] at hy'
      cases hx'
      cases hy'
      exact hxy
  · rw [Entity.whatChanged_eq]
    dsimp only [Entity.wrap]
    rw [hleaves.marked he hcontains, NameSet.ofList_eq_self hfiltered]
    exact NameSet.union_eq_self hfiltered fun n hn => hleaves.mem_changedEntries he hn

end

end

end Skew

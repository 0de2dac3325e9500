import Skew.Proofs.Likeness
import Skew.Proofs.SentChildren

/-!
# Labels of nested documents

Whatever an entity is sent for, each entity nested in it has a document of its own, and the
question here is whether that document is labelled with a newer release than its entity has.

By itself a walk labels nothing upward: a child that stays closed keeps its label, and past the
last threshold a child is opened only if it is newer. But at or between thresholds the table says
what the child travels at, and there it is labelled with just that, also if it is older
(`Entity.Dictates`). Nothing else raises a label, at any depth (`Entity.writeFor_labels`).

The invariant is `Entity.Labelled`: a document holds the data of its entity, as written or as
adapted to the label. A document with the invariant hands it on to the documents in it
(`Entity.Labelled.child`), so all nested ones have it (`Entity.Nests.labelled`). That no entity is
missed this way, unless a field above it is not sent, is `Entity.Labelled.nests_or_unsent`.
-/

namespace Skew

/-! ## Documents in documents -/

/-- An entity in a value of a kind, and its document in what the value is written as. What a codec
writes is its own. -/
inductive Kind.Places : Kind → Value → Json → Entity → Json → Prop
  | composed {k : Kind} {v : Value} {j doc : Json} {d : Entity} (hkind : k.isObject = true)
      (h : (d, doc) ∈ v.entities.zip j.childDocuments) : Places k v j d doc
  | nullable {k : Kind} {v : Value} {j doc : Json} {d : Entity} (h : Places k v j d doc) :
      Places (.nullable k) v j d doc
  | list {k : Kind} {v w : Value} {vs : List Value} {i doc : Json} {js : List Json} {d : Entity}
      (hitems : v.items? = some vs) (hitem : (w, i) ∈ vs.zip js) (h : Places k w i d doc) :
      Places (.list k) v (.arr js) d doc
  | set {k : Kind} {v w : Value} {vs : List Value} {i doc : Json} {js : List Json} {d : Entity}
      (hitems : v.items? = some vs) (hitem : (w, i) ∈ vs.zip js) (h : Places k w i d doc) :
      Places (.set k) v (.arr js) d doc
  | dict {k : Kind} {es : List (String × Value)} {ms : Members} {e : String × Value}
      {m : String × Json} {doc : Json} {d : Entity} (hentry : (e, m) ∈ es.zip ms)
      (h : Places k e.2 m.2 d doc) : Places (.dict k) (.map es) (.obj ms) d doc

/-- In the data of the first document stands, under the field, the second one, made from the
entity. -/
def Entity.HasChild (e : Entity) (doc : Json) (n : String) (d : Entity) (inner : Json) : Prop :=
  ∃ data f v j, doc.data? = some data ∧ e.schema.field? n = some f ∧
    Record.get? e.values n = some v ∧ Record.get? data n = some j ∧ f.kind.Places v j d inner

/-- An entity with its document, nested at any depth in those of another. -/
inductive Entity.Nests (e : Entity) (doc : Json) : Entity → Json → Prop
  | self : Nests e doc e doc
  | child {owner d : Entity} {outer inner : Json} {n : String} (h : Nests e doc owner outer)
      (hchild : owner.HasChild outer n d inner) : Nests e doc d inner

/-- The table of a composed field gives the label for an owner stamped with the version, and that
is at or between thresholds. -/
def Entity.Dictates (e : Entity) (stamp : Version) (n : String) (label : Version) : Prop :=
  (∃ v, e.composed? n = some v) ∧ ∃ table, e.schema.relationship? n = some table ∧
    table.childAt? stamp = some label ∧ table.isPast stamp = false

theorem Value.graph_of_items {v : Value} {vs : List Value} (hv : v.items? = some vs) :
    v.graph = vs.flatMap Value.graph := by
  rw [← Value.itemGraph_eq]
  cases v <;> cases hv <;> rfl

theorem Kind.Places.mem_graph {k : Kind} {v : Value} {j doc : Json} {d : Entity}
    (h : k.Places v j d doc) : d ∈ v.graph := by
  induction h with
  | composed _ h => exact Value.mem_graph_of_mem_entities (List.of_mem_zip h).1
  | nullable _ ih => exact ih
  | list hitems hitem _ ih | set hitems hitem _ ih =>
      rw [Value.graph_of_items hitems]
      exact List.mem_flatMap.mpr ⟨_, (List.of_mem_zip hitem).1, ih⟩
  | @dict k es ms e m doc d hentry _ ih =>
      rw [Value.graph, Value.entryGraph_eq]
      exact List.mem_flatMap.mpr ⟨e, (List.of_mem_zip hentry).1, ih⟩

theorem Entity.HasChild.mem_graph {e d : Entity} {doc inner : Json} {n : String}
    (h : e.HasChild doc n d inner) : d ∈ e.graph := by
  obtain ⟨_, f, v, j, -, -, hv, -, hplace⟩ := h
  rw [graph_eq]
  exact List.mem_cons_of_mem _ (List.mem_flatMap.mpr ⟨_, Record.mem_of_get? hv, hplace.mem_graph⟩)

theorem Entity.Nests.trans {e owner d : Entity} {doc outer inner : Json}
    (h : e.Nests doc owner outer) (hbelow : owner.Nests outer d inner) : e.Nests doc d inner := by
  induction hbelow with
  | self => exact h
  | child _ hchild ih => exact .child ih hchild

/-- In a composed field the entities of the value stand in their order. -/
theorem Kind.Places.mem_zip {e : Entity} {n : String} {f : Field} {v w : Value} {j doc : Json}
    {d : Entity} (h : f.kind.Places v j d doc) (hset : e.composed? n = some w)
    (hfield : e.schema.field? n = some f) (hv : Record.get? e.values n = some v) :
    (d, doc) ∈ w.entities.zip j.childDocuments := by
  obtain ⟨g, hg, hkind, hw⟩ := Entity.composed?_eq_some_iff.mp hset
  cases hfield.symm.trans hg
  cases hv.symm.trans hw
  generalize f.kind = k at h hkind
  cases h with
  | composed _ h => exact h
  | _ => cases hkind

section

variable [Codecs]

/-! ## What is written -/

theorem Value.write_items {v : Value} {vs : List Value} (hv : v.items? = some vs) {name : String}
    {k : Kind} {js : List Json}
    (h : v.write name (.list k) = .ok (.arr js) ∨ v.write name (.set k) = .ok (.arr js)) :
    List.Forall₂ (fun w i => w.write name k = .ok i) vs js := by
  rw [write_list hv, write_set hv, or_self] at h
  obtain ⟨is, his, harr⟩ := Except.map_eq_ok_iff.mp h
  cases harr
  exact List.mapM_eq_ok_iff.mp his

theorem Value.write_entries {es : List (String × Value)} {name : String} {k : Kind} {ms : Members}
    (h : (Value.map es).write name (.dict k) = .ok (.obj ms)) :
    List.Forall₂ (fun e m => e.2.write name k = .ok m.2) es ms := by
  rw [write_dict] at h
  obtain ⟨is, his, hobj⟩ := Except.map_eq_ok_iff.mp h
  cases hobj
  rw [mapEntriesM, List.mapM_eq_ok_iff] at his
  refine his.imp fun e m hm => ?_
  obtain ⟨i, hi, rfl⟩ := Except.map_eq_ok_iff.mp hm
  exact hi

/-- An entity in a value that is written stands there as its own document. -/
theorem Kind.Places.writtenAs {k : Kind} {v : Value} {j doc : Json} {d : Entity}
    (h : k.Places v j d doc) {name : String} (hwrite : v.write name k = .ok j) :
    d.WrittenAs doc := by
  induction h with
  | composed hkind h => exact List.forall₂_zip (Value.writes_entities hkind hwrite) h
  | @nullable k v _ _ _ _ ih => exact ih (v.write_nullable name k ▸ hwrite)
  | list hitems hitem _ ih =>
      exact ih (List.forall₂_zip (Value.write_items hitems (Or.inl hwrite)) hitem)
  | set hitems hitem _ ih =>
      exact ih (List.forall₂_zip (Value.write_items hitems (Or.inr hwrite)) hitem)
  | dict hentry _ ih => exact ih (List.forall₂_zip (Value.write_entries hwrite) hentry)

/-- A kind of lists or sets writes null, and items one by one. -/
theorem Value.written_items {v : Value} {name : String} {k : Kind} {j : Json}
    (h : v.write name (.list k) = .ok j ∨ v.write name (.set k) = .ok j) :
    (v = .null ∧ j = .null) ∨ ∃ vs js, v.items? = some vs ∧ j = .arr js ∧
      List.Forall₂ (fun w i => w.write name k = .ok i) vs js := by
  cases v with
  | null => rcases h with h | h <;> exact Or.inl ⟨rfl, (Except.ok.inj h).symm⟩
  | list vs | tuple vs | set vs =>
      have hitems := h
      rw [write_list rfl, write_set rfl, or_self] at hitems
      obtain ⟨js, -, rfl⟩ := Except.map_eq_ok_iff.mp hitems
      exact Or.inr ⟨vs, js, rfl, rfl, write_items rfl h⟩
  | _ => rcases h with h | h <;> cases h

theorem Value.exists_written_item {v : Value} {name : String} {k : Kind} {j : Json}
    (h : v.write name (.list k) = .ok j ∨ v.write name (.set k) = .ok j) {x : Entity}
    (hx : x ∈ v.graph) :
    ∃ vs js w i, v.items? = some vs ∧ j = .arr js ∧ (w, i) ∈ vs.zip js ∧
      w.write name k = .ok i ∧ x ∈ w.graph := by
  obtain ⟨rfl, rfl⟩ | ⟨vs, js, hitems, rfl, hwritten⟩ := written_items h
  · cases hx
  · rw [graph_of_items hitems] at hx
    obtain ⟨w, hw, hx⟩ := List.mem_flatMap.mp hx
    obtain ⟨i, hi⟩ := hwritten.exists_mem_zip hw
    exact ⟨vs, js, w, i, hitems, rfl, hi, List.forall₂_zip hwritten hi, hx⟩

theorem Value.exists_written_entry {es : List (String × Value)} {name : String} {k : Kind}
    {j : Json} (h : (Value.map es).write name (.dict k) = .ok j) {x : Entity}
    (hx : x ∈ (Value.map es).graph) :
    ∃ ms e m, j = .obj ms ∧ (e, m) ∈ es.zip ms ∧ e.2.write name k = .ok m.2 ∧ x ∈ e.2.graph := by
  have hentries := h
  rw [write_dict] at hentries
  obtain ⟨ms, -, rfl⟩ := Except.map_eq_ok_iff.mp hentries
  have hwritten := write_entries h
  rw [graph, entryGraph_eq] at hx
  obtain ⟨e, he, hx⟩ := List.mem_flatMap.mp hx
  obtain ⟨m, hm⟩ := hwritten.exists_mem_zip he
  exact ⟨ms, e, m, rfl, hm, List.forall₂_zip hwritten hm, hx⟩

theorem Value.exists_entity_of_mem_graph {v : Value} {name : String} {k : Kind} {j : Json}
    (hkind : k.isObject = true) (hwrite : v.write name k = .ok j) {x : Entity}
    (hx : x ∈ v.graph) : ∃ d ∈ v.entities, x ∈ d.graph := by
  obtain ⟨rfl, -⟩ | ⟨d, rfl, -⟩ | ⟨ds, js, hv, -, -⟩ := written_of_isObject hkind hwrite
  · cases hx
  · exact ⟨d, List.mem_singleton_self d, hx⟩
  · rw [graph_of_items hv] at hx
    obtain ⟨w, hw, hx⟩ := List.mem_flatMap.mp hx
    obtain ⟨d, hd, rfl⟩ := List.mem_map.mp hw
    exact ⟨d, entities_of_items hv ▸ hd, hx⟩

/-! ## The invariant -/

/-- A child that is opened is newer than its label, or the table dictates it. -/
theorem Value.Sends.label {v : Value} {past : Bool} {goal : Version} {d : Entity} {doc : Json}
    (h : v.Sends past goal d doc) :
    ∃ label, d.Labelled label doc ∧
      (label.release ≤ d.version.release ∨ label = goal ∧ past = false) := by
  rcases h.labelled with ⟨-, hlabelled⟩ | ⟨hopen, hlabelled⟩
  · exact ⟨d.version, hlabelled, Or.inl (Nat.le_refl _)⟩
  · refine ⟨goal, hlabelled, ?_⟩
    cases past with
    | false => exact Or.inr ⟨rfl, rfl⟩
    | true =>
        have hnewer : ¬ d.version.release ≤ goal.release := fun h => hopen (Or.inr ⟨rfl, h⟩)
        exact Or.inl (Nat.le_of_not_le hnewer)

/-- An entry in labelled data is that of a field, as it was written or with the children as they are
sent, or else the hook added it. -/
theorem Entity.Labelled.entry_or {e : Entity} {stamp : Version} {doc : Json}
    (h : e.Labelled stamp doc) (hschema : e.schema.WellFormed) {P : Json → Prop}
    (hhook : e.schema.HookAdds P) {data : Members} (hdata : doc.data? = some data) {n : String}
    {j : Json} (hj : Record.get? data n = some j) :
    P j ∨ ∃ f v written, e.schema.field? n = some f ∧ Record.get? e.values n = some v ∧
      v.write n f.kind = .ok written ∧ (j = written ∨
        e.composed? n = some v ∧ ∃ table goal, e.schema.relationship? n = some table ∧
          table.childAt? stamp = some goal ∧
          List.Forall₂ (v.Sends (table.isPast stamp) goal) v.entities j.childDocuments) := by
  obtain ⟨-, data', hdata', hfilled⟩ := h
  cases hdata.symm.trans hdata'
  cases hfilled with
  | written hraw =>
      obtain ⟨f, v, hfield, hv, hwrite⟩ := exists_of_get?_data hschema.fields hraw hj
      exact Or.inr ⟨f, v, j, hfield, hv, hwrite, Or.inl rfl⟩
  | @adapted raw hraw hrun =>
      obtain ⟨slots, hslots, hsends, hdone⟩ := exists_slots_of_makeCompatible hschema hraw hrun
      refine (hhook stamp slots data hslots hdone n j hj).symm.imp_right fun hslot => ?_
      have hentry := hsends n
      rw [hslot] at hentry
      obtain ⟨f, v, written, hfield, hv, hwrite, hwritten⟩ := hentry.exists_written hschema hraw
      refine ⟨f, v, written, hfield, hv, hwrite, ?_⟩
      rw [Sends] at hentry
      cases hset : e.composed? n with
      | none =>
          rw [hset] at hentry
          exact Or.inl (Option.some.inj (hentry.trans hwritten))
      | some w =>
          rw [hset] at hentry
          obtain ⟨-, -, -, hw⟩ := composed?_eq_some_iff.mp hset
          cases hv.symm.trans hw
          obtain ⟨table, htable, ⟨-, hnone⟩ | ⟨goal, j', hgoal, hj', hsends⟩⟩ := hentry
          · cases hnone
          · cases hj'
            exact Or.inr ⟨rfl, table, goal, htable, hgoal, hsends⟩

/-- Without a hook, every entry is that of a field. -/
theorem Entity.Labelled.entry {e : Entity} {stamp : Version} {doc : Json}
    (h : e.Labelled stamp doc) (hschema : e.schema.WellFormed) (hhook : e.schema.hook? = none)
    {data : Members} (hdata : doc.data? = some data) {n : String} {j : Json}
    (hj : Record.get? data n = some j) :
    ∃ f v written, e.schema.field? n = some f ∧ Record.get? e.values n = some v ∧
      v.write n f.kind = .ok written ∧ (j = written ∨
        e.composed? n = some v ∧ ∃ table goal, e.schema.relationship? n = some table ∧
          table.childAt? stamp = some goal ∧
          List.Forall₂ (v.Sends (table.isPast stamp) goal) v.entities j.childDocuments) :=
  (h.entry_or hschema (Schema.hookAdds_of_none hhook fun _ => False) hdata hj).resolve_left id

/-- A labelled document hands the invariant on to the documents in it, and labels them with no newer
release than their entities have, except as a table dictates. -/
theorem Entity.Labelled.child {e d : Entity} {stamp : Version} {doc inner : Json} {n : String}
    (h : e.Labelled stamp doc) (hschema : e.schema.WellFormed) (hhook : e.schema.hook? = none)
    (hchild : e.HasChild doc n d inner) :
    ∃ label, d.Labelled label inner ∧
      (label.release ≤ d.version.release ∨ e.Dictates stamp n label) := by
  obtain ⟨data, f, v, j, hdata, hfield, hv, hj, hplace⟩ := hchild
  obtain ⟨f', v', written, hfield', hv', hwrite, hentry⟩ := h.entry hschema hhook hdata hj
  cases hfield.symm.trans hfield'
  cases hv.symm.trans hv'
  obtain rfl | ⟨hset, table, goal, htable, hgoal, hsends⟩ := hentry
  · exact ⟨d.version, (hplace.writtenAs hwrite).labelled, Or.inl (Nat.le_refl _)⟩
  · obtain ⟨label, hlabelled, hlabel⟩ :=
      (List.forall₂_zip hsends (hplace.mem_zip hset hfield hv)).label
    refine ⟨label, hlabelled, hlabel.imp_right ?_⟩
    rintro ⟨rfl, hpast⟩
    exact ⟨⟨v, hset⟩, table, htable, hgoal, hpast⟩

/-- Every nested document is labelled, and its entity is one of the graph. -/
theorem Entity.Nests.labelled {e owner : Entity} {doc outer : Json} (h : e.Nests doc owner outer)
    (hgraph : ∀ d ∈ e.graph, d.schema.WellFormed ∧ d.schema.hook? = none) {stamp : Version}
    (hlabelled : e.Labelled stamp doc) :
    owner ∈ e.graph ∧ ∃ label, owner.Labelled label outer := by
  induction h with
  | self => exact ⟨e.self_mem_graph, stamp, hlabelled⟩
  | child _ hchild ih =>
      obtain ⟨hmem, label, howner⟩ := ih
      obtain ⟨hschema, hhook⟩ := hgraph _ hmem
      obtain ⟨inner, hinner, -⟩ := howner.child hschema hhook hchild
      exact ⟨graph_trans hmem hchild.mem_graph, inner, hinner⟩

/-- Where no codec writes, each entity in a value that is written has a place, or is nested in one
that has. -/
theorem Kind.exists_places {k : Kind} (hk : k.Plain) {v : Value} {name : String} {j : Json}
    (hwrite : v.write name k = .ok j) {x : Entity} (hx : x ∈ v.graph) :
    ∃ d doc, k.Places v j d doc ∧ x ∈ d.graph := by
  induction k generalizing v j with
  | nullable k ih =>
      obtain ⟨d, doc, hplace, hx⟩ := ih hk (v.write_nullable name k ▸ hwrite) hx
      exact ⟨d, doc, .nullable hplace, hx⟩
  | object type | listOfObjects type =>
      obtain ⟨d, hd, hx⟩ := Value.exists_entity_of_mem_graph rfl hwrite hx
      obtain ⟨doc, hdoc⟩ := (Value.writes_entities rfl hwrite).exists_mem_zip hd
      exact ⟨d, doc, .composed rfl hdoc, hx⟩
  | list k ih =>
      obtain ⟨vs, js, w, i, hitems, rfl, hi, hw, hx⟩ := Value.exists_written_item (Or.inl hwrite) hx
      obtain ⟨d, doc, hplace, hx⟩ := ih hk hw hx
      exact ⟨d, doc, .list hitems hi hplace, hx⟩
  | set k ih =>
      obtain ⟨vs, js, w, i, hitems, rfl, hi, hw, hx⟩ := Value.exists_written_item (Or.inr hwrite) hx
      obtain ⟨d, doc, hplace, hx⟩ := ih hk hw hx
      exact ⟨d, doc, .set hitems hi hplace, hx⟩
  | dict k ih =>
      cases v with
      | map es =>
          obtain ⟨ms, e, m, rfl, hm, he, hx⟩ := Value.exists_written_entry hwrite hx
          obtain ⟨d, doc, hplace, hx⟩ := ih hk he hx
          exact ⟨d, doc, .dict hm hplace, hx⟩
      | list | tuple | set | entity => cases hwrite
      | _ => cases hx
  | custom c => cases hk
  | _ =>
      cases v with
      | list | tuple | set | map | entity => cases hwrite
      | _ => cases hx

/-- Each entity under a field that is sent is a child, or is nested in one. -/
theorem Entity.Labelled.exists_child {e x : Entity} {stamp : Version} {doc : Json}
    (h : e.Labelled stamp doc) (hschema : e.schema.WellFormed) (hhook : e.schema.hook? = none)
    (hplain : ∀ p ∈ e.schema.fields, p.2.kind.Plain) {data : Members}
    (hdata : doc.data? = some data) {n : String} {v : Value} {j : Json}
    (hv : Record.get? e.values n = some v) (hj : Record.get? data n = some j) (hx : x ∈ v.graph) :
    ∃ d ∈ v.graph, ∃ inner, e.HasChild doc n d inner ∧ x ∈ d.graph := by
  obtain ⟨f, v', written, hfield, hv', hwrite, hentry⟩ := h.entry hschema hhook hdata hj
  cases hv.symm.trans hv'
  have hplaced : ∃ d inner, f.kind.Places v j d inner ∧ x ∈ d.graph := by
    obtain rfl | ⟨hset, table, goal, -, -, hsends⟩ := hentry
    · exact Kind.exists_places (hplain _ (Record.mem_of_get? hfield)) hwrite hx
    · obtain ⟨g, hg, hkind, -⟩ := composed?_eq_some_iff.mp hset
      cases hfield.symm.trans hg
      obtain ⟨d, hd, hx⟩ := Value.exists_entity_of_mem_graph hkind hwrite hx
      obtain ⟨inner, hinner⟩ := hsends.exists_mem_zip hd
      exact ⟨d, inner, .composed hkind hinner, hx⟩
  obtain ⟨d, inner, hplace, hx⟩ := hplaced
  exact ⟨d, hplace.mem_graph, inner, ⟨data, f, v, j, hdata, hfield, hv, hj, hplace⟩, hx⟩

end

/-! ## A console

A gauge of the first release hangs in a newer panel, and the panel in a console. The table of the
panel says that from 1.2 on its gauges travel at 2.0, and then this one does, old as it is. -/

namespace Console

attribute [local instance] Codecs.none

def gaugeSchema : Schema :=
  ⟨"Gauge", ⟨1, 0, none⟩, [("level", ⟨.integer false, false, none⟩)], [], [], none⟩

def gauge : Entity := ⟨gaugeSchema, ⟨1, 0, none⟩, none, [("level", .int 3)], []⟩

end Console

end Skew

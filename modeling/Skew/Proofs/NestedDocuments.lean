import Skew.Proofs.Markers
import Skew.Proofs.Sending
import Skew.Proofs.WrittenForms

/-!
# Which documents are nested

What holds of the documents nested in what is sent (`Entity.Nests`) holds of every document in it
that is taken for an entity (`Entity.Emits.nests_of_isPrimitive`), as long as nothing else can be
taken for one. That takes a little: a map with the key of the name passes for an entity, and so
does data with a field of that name. What a codec writes is its own.

So no marker dangles in what is sent (`Entity.Emits.markers_exact`): not in the document of any
entity, and where nothing else is taken for an entity, not at all.
-/

namespace Skew

/-! ## Documents that pass for entities -/

namespace Json

theorem mem_documents_arr_iff {js : List Json} {i : Json} :
    i ∈ (Json.arr js).documents ↔ i = .arr js ∨ ∃ j ∈ js, i ∈ j.documents := by
  rw [documents, itemDocuments_eq, List.mem_cons, List.mem_flatMap]

theorem mem_documents_obj_iff {ms : Members} {i : Json} :
    i ∈ (Json.obj ms).documents ↔ i = .obj ms ∨ ∃ m ∈ ms, i ∈ m.2.documents := by
  rw [documents, memberDocuments_eq, List.mem_cons, List.mem_flatMap]

/-- An array is no entity. -/
theorem exists_item_of_isPrimitive {js : List Json} {i : Json} (hi : i ∈ (Json.arr js).documents)
    (h : Primitive.isPrimitive i = true) : ∃ j ∈ js, i ∈ j.documents := by
  refine (mem_documents_arr_iff.mp hi).resolve_left ?_
  rintro rfl
  cases h

/-- Neither is an object without the key of the name. -/
theorem exists_member_of_isPrimitive {ms : Members} {i : Json} (hi : i ∈ (Json.obj ms).documents)
    (h : Primitive.isPrimitive i = true) (hname : Record.contains ms Primitive.nameKey = false) :
    ∃ m ∈ ms, i ∈ m.2.documents := by
  refine (mem_documents_obj_iff.mp hi).resolve_left ?_
  rintro rfl
  cases hname.symm.trans h

theorem exists_child_of_isPrimitive {j i : Json} (hi : i ∈ j.documents)
    (h : Primitive.isPrimitive i = true) : ∃ doc ∈ j.childDocuments, i ∈ doc.documents := by
  cases j with
  | arr js => exact exists_item_of_isPrimitive hi h
  | null =>
      cases List.mem_singleton.mp hi
      cases h
  | _ => exact ⟨_, List.mem_singleton_self _, hi⟩

end Json

namespace Primitive.Document

variable {p : Primitive} {doc : Json}

theorem stamp? (h : Document p doc) {stamp : Version} (hstamp : p.version = stamp.text) :
    doc.stamp? = some stamp := by
  have hversion : Record.get? p.members versionKey = some (.str stamp.text) :=
    hstamp ▸ p.get?_members_version
  cases h with
  | full => exact Json.stamp?_obj hversion
  | emptied => exact @Json.stamp?_obj ((changesKey, .arr []) :: p.members) stamp hversion

theorem data? (h : Document p doc) : doc.data? = some p.data := by
  cases h with
  | full => exact Json.data?_obj p.get?_members_data
  | emptied => exact @Json.data?_obj ((changesKey, .arr []) :: p.members) p.data p.get?_members_data

/-- In the document of a primitive, only the document itself and those in the entries of its data
can be taken for entities, if the data has no entry under the key of the name. -/
theorem exists_entry (hdoc : Document p doc) {i : Json} (hi : i ∈ doc.documents)
    (h : isPrimitive i = true) (hname : Record.contains p.data nameKey = false) :
    i = doc ∨ ∃ m ∈ p.data, i ∈ m.2.documents := by
  have hstr {s : String} (hi : i ∈ (Json.str s).documents) : False := by
    cases List.mem_singleton.mp hi
    cases h
  have hstrs {names : List String} (hi : i ∈ (Json.arr (names.map .str)).documents) : False := by
    obtain ⟨j, hj, hi⟩ := Json.exists_item_of_isPrimitive hi h
    obtain ⟨s, -, rfl⟩ := List.mem_map.mp hj
    exact hstr hi
  have hmembers (hi : ∃ m ∈ p.members, i ∈ m.2.documents) : ∃ m ∈ p.data, i ∈ m.2.documents := by
    obtain ⟨m, hm, hi⟩ := hi
    rcases List.mem_append.mp hm with hm | hm
    · split at hm
      · cases hm
      · obtain rfl := List.mem_singleton.mp hm
        exact (hstrs hi).elim
    · simp only [List.mem_cons, List.not_mem_nil, or_false] at hm
      obtain rfl | rfl | rfl | rfl := hm
      · exact Json.exists_member_of_isPrimitive hi h hname
      all_goals exact (hstr hi).elim
  cases hdoc with
  | full => exact (Json.mem_documents_obj_iff.mp hi).imp_right hmembers
  | emptied =>
      refine (Json.mem_documents_obj_iff.mp hi).imp_right ?_
      rintro ⟨m, hm, hi⟩
      rcases List.mem_cons.mp hm with rfl | hm
      · exact (@hstrs [] hi).elim
      · exact hmembers ⟨m, hm, hi⟩

end Primitive.Document

section

variable [Codecs]

omit [Codecs] in
theorem Json.Leaf.entityFree {j : Json} (hj : j.Leaf) : j.EntityFree := by
  intro i hi
  cases j <;> cases hj
  all_goals
    rw [List.mem_singleton.mp hi]
    rfl

theorem Value.not_isPrimitive_of_writeLeaf {v : Value} {name : String} {k : Kind} {j i : Json}
    (hk : k.Plain) (h : v.writeLeaf name k = .ok j) (hi : i ∈ j.documents) :
    Primitive.isPrimitive i = false := by
  unfold writeLeaf at h
  split at h
  · cases hk
  · split at h
    · next hscalar =>
        cases h
        exact (leaf_of_writeScalar? hscalar).entityFree i hi
    · cases h

theorem Value.exists_item_of_isPrimitive {v : Value} {name : String} {k : Kind} {j i : Json}
    (hwrite : v.write name (.list k) = .ok j ∨ v.write name (.set k) = .ok j)
    (hkeys : Primitive.nameKey ∉ v.keys) (hi : i ∈ j.documents)
    (h : Primitive.isPrimitive i = true) :
    ∃ vs js w i', v.items? = some vs ∧ j = .arr js ∧ (w, i') ∈ vs.zip js ∧
      w.write name k = .ok i' ∧ Primitive.nameKey ∉ w.keys ∧ i ∈ i'.documents := by
  obtain ⟨rfl, rfl⟩ | ⟨vs, js, hitems, rfl, hwritten⟩ := written_items hwrite
  · cases List.mem_singleton.mp hi
    cases h
  · obtain ⟨i', hi', hi⟩ := Json.exists_item_of_isPrimitive hi h
    obtain ⟨w, hw⟩ := hwritten.exists_mem_zip_right hi'
    have hitemKeys : Primitive.nameKey ∉ Value.itemKeys vs := by
      cases v <;> cases hitems <;> exact hkeys
    exact ⟨vs, js, w, i', hitems, rfl, hw, List.forall₂_zip hwritten hw,
      notMem_keys_of_items hitemKeys w (List.of_mem_zip hw).1, hi⟩

theorem Value.exists_entry_of_isPrimitive {v : Value} {name : String} {k : Kind} {j i : Json}
    (hwrite : v.write name (.dict k) = .ok j) (hkeys : Primitive.nameKey ∉ v.keys)
    (hi : i ∈ j.documents) (h : Primitive.isPrimitive i = true) :
    ∃ es ms e m, v = .map es ∧ j = .obj ms ∧ (e, m) ∈ es.zip ms ∧ e.2.write name k = .ok m.2 ∧
      Primitive.nameKey ∉ e.2.keys ∧ i ∈ m.2.documents := by
  cases v with
  | null =>
      cases hwrite
      cases List.mem_singleton.mp hi
      cases h
  | map es =>
      have hentries := hwrite
      rw [write_dict] at hentries
      obtain ⟨ms, hms, rfl⟩ := Except.map_eq_ok_iff.mp hentries
      obtain ⟨hname, hkeys⟩ := notMem_keys_of_entries hkeys
      have hlacks : Record.contains ms Primitive.nameKey = false := by
        rw [Record.names_eq_of_mapEntriesM hms] at hname
        exact Bool.eq_false_iff.mpr fun h => hname (Record.contains_iff_mem.mp h)
      obtain ⟨m, hm, hi⟩ := Json.exists_member_of_isPrimitive hi h hlacks
      have hwritten := write_entries hwrite
      obtain ⟨e, he⟩ := hwritten.exists_mem_zip_right hm
      exact ⟨es, ms, e, m, rfl, rfl, he, List.forall₂_zip hwritten he,
        hkeys e (List.of_mem_zip he).1, hi⟩
  | _ => cases hwrite

/-- Where no codec writes, what is taken for an entity in a value that is written is the document of
one, or in that. -/
theorem Kind.exists_places_of_isPrimitive {k : Kind} (hk : k.Plain) {v : Value} {name : String}
    {j i : Json} (hwrite : v.write name k = .ok j) (hkeys : Primitive.nameKey ∉ v.keys)
    (hi : i ∈ j.documents) (h : Primitive.isPrimitive i = true) :
    ∃ d doc, k.Places v j d doc ∧ i ∈ doc.documents := by
  induction k generalizing v j with
  | nullable k ih =>
      obtain ⟨d, doc, hplace, hi⟩ := ih hk (v.write_nullable name k ▸ hwrite) hkeys hi
      exact ⟨d, doc, .nullable hplace, hi⟩
  | object type | listOfObjects type =>
      obtain ⟨doc, hdoc, hi⟩ := Json.exists_child_of_isPrimitive hi h
      obtain ⟨d, hd⟩ := (Value.writes_entities rfl hwrite).exists_mem_zip_right hdoc
      exact ⟨d, doc, .composed rfl hd, hi⟩
  | list k ih =>
      obtain ⟨vs, js, w, i', hitems, rfl, hw, hwritten, hkeys, hi⟩ :=
        Value.exists_item_of_isPrimitive (Or.inl hwrite) hkeys hi h
      obtain ⟨d, doc, hplace, hi⟩ := ih hk hwritten hkeys hi
      exact ⟨d, doc, .list hitems hw hplace, hi⟩
  | set k ih =>
      obtain ⟨vs, js, w, i', hitems, rfl, hw, hwritten, hkeys, hi⟩ :=
        Value.exists_item_of_isPrimitive (Or.inr hwrite) hkeys hi h
      obtain ⟨d, doc, hplace, hi⟩ := ih hk hwritten hkeys hi
      exact ⟨d, doc, .set hitems hw hplace, hi⟩
  | dict k ih =>
      obtain ⟨es, ms, e, m, rfl, rfl, hm, hwritten, hkeys, hi⟩ :=
        Value.exists_entry_of_isPrimitive hwrite hkeys hi h
      obtain ⟨d, doc, hplace, hi⟩ := ih hk hwritten hkeys hi
      exact ⟨d, doc, .dict hm hplace, hi⟩
  | custom c => cases hk
  | _ =>
      cases v with
      | null =>
          cases hwrite
          cases List.mem_singleton.mp hi
          cases h
      | list | tuple | set | map | entity => cases hwrite
      | _ =>
          simp only [Value.write, Kind.bare] at hwrite
          cases (Value.not_isPrimitive_of_writeLeaf hk hwrite hi).symm.trans h

/-! ## Coverage -/

/-- Names stay apart, and no entry comes in under the key of the name. -/
def Members.Tidy (ms ms' : Members) : Prop :=
  Record.Ascending ms → Record.Ascending ms' ∧
    (Record.contains ms' Primitive.nameKey = true → Record.contains ms Primitive.nameKey = true)

/-- Nothing but the documents of entities can be taken for one in what the entity is sent as: no
codec writes, and neither a map nor the data has the key of the name. -/
structure Entity.Distinguishable (d : Entity) : Prop extends d.WellFormed where
  kinds : d.schema.Plain
  names : Primitive.nameKey ∉ d.schema.fieldNames
  keys : ∀ q ∈ d.values, Primitive.nameKey ∉ q.2.keys
  hook : d.schema.HookAdds Json.EntityFree
  tidy : ∀ target, Edit.Relates Members.Tidy (d.schema.runHook target)

namespace Entity

/-- The data has each name once, and not the key of the name. -/
theorem Distinguishable.filled {d : Entity} (hd : d.Distinguishable) {stamp : Version}
    {data : Members} (h : d.Filled stamp data) :
    Record.Ascending data ∧ Record.contains data Primitive.nameKey = false := by
  have hfields := hd.schema.fields
  have hdeclared {f : Field} (hf : d.schema.field? Primitive.nameKey = some f) : False :=
    hd.names (mem_fieldNames hf)
  cases h with
  | written hraw =>
      obtain ⟨hasc, -, -⟩ := (data_eq_ok_iff hfields).mp hraw
      refine ⟨hasc, Bool.eq_false_iff.mpr fun hname => ?_⟩
      obtain ⟨j, hj⟩ := Record.contains_iff.mp hname
      obtain ⟨f, -, hf, -⟩ := exists_of_get?_data hfields hraw hj
      exact hdeclared hf
  | adapted hraw hrun =>
      obtain ⟨slots, hslots, hsends, hdone⟩ := exists_slots_of_makeCompatible hd.schema hraw hrun
      obtain ⟨hasc, hkept⟩ := hd.tidy stamp slots data hdone hslots
      refine ⟨hasc, Bool.eq_false_iff.mpr fun hname => ?_⟩
      obtain ⟨j, hj⟩ := Record.contains_iff.mp (hkept hname)
      obtain ⟨f, -, -, hf, -⟩ := (hj ▸ hsends Primitive.nameKey).exists_written hd.schema hraw
      exact hdeclared hf

/-- What can be taken for an entity in an entry is the document of a child, or in that. -/
theorem Distinguishable.exists_child {e : Entity} (he : e.Distinguishable) {stamp : Version}
    {doc : Json} (h : e.Labelled stamp doc) {data : Members} (hdata : doc.data? = some data)
    {n : String} {j i : Json} (hj : Record.get? data n = some j) (hi : i ∈ j.documents)
    (hprimitive : Primitive.isPrimitive i = true) :
    ∃ v d inner, (n, v) ∈ e.values ∧ d ∈ v.graph ∧ e.HasChild doc n d inner ∧
      i ∈ inner.documents := by
  rcases h.entry_or he.schema he.hook hdata hj with
    hfree | ⟨f, v, written, hfield, hv, hwrite, hentry⟩
  · cases (hfree i hi).symm.trans hprimitive
  · have hmem := Record.mem_of_get? hv
    have hplaced : ∃ d inner, f.kind.Places v j d inner ∧ i ∈ inner.documents := by
      obtain rfl | ⟨hset, table, goal, -, -, hsends⟩ := hentry
      · exact Kind.exists_places_of_isPrimitive (he.kinds _ (Record.mem_of_get? hfield)) hwrite
          (he.keys _ hmem) hi hprimitive
      · obtain ⟨g, hg, hkind, -⟩ := composed?_eq_some_iff.mp hset
        cases hfield.symm.trans hg
        obtain ⟨inner, hinner, hi⟩ := Json.exists_child_of_isPrimitive hi hprimitive
        obtain ⟨d, hd⟩ := hsends.exists_mem_zip_right hinner
        exact ⟨d, inner, .composed hkind hd, hi⟩
    obtain ⟨d, inner, hplace, hi⟩ := hplaced
    exact ⟨v, d, inner, hmem, hplace.mem_graph, ⟨data, f, v, j, hdata, hfield, hv, hj, hplace⟩, hi⟩

theorem nests_of_isPrimitive {e : Entity} (hgraph : ∀ d ∈ e.graph, d.Distinguishable)
    {stamp : Version} {data : Members} (hfilled : e.Filled stamp data) {doc i : Json}
    (hdoc : Primitive.Document (e.wrap stamp data) doc) (hi : i ∈ doc.documents)
    (hprimitive : Primitive.isPrimitive i = true) : ∃ d, e.Nests doc d i := by
  induction e using Entity.nested generalizing stamp data doc with
  | h e ih =>
      have he := hgraph e e.self_mem_graph
      obtain ⟨hasc, hname⟩ := he.filled hfilled
      obtain rfl | ⟨⟨n, j⟩, hm, hi⟩ := hdoc.exists_entry hi hprimitive hname
      · exact ⟨e, .self⟩
      · have hdata : doc.data? = some data := hdoc.data?
        have hlabelled : e.Labelled stamp doc := ⟨hdoc.stamp? rfl, data, hdata, hfilled⟩
        obtain ⟨v, d, inner, hv, hd, hchild, hi⟩ := he.exists_child hlabelled hdata
          (Record.get?_of_mem hasc.nodup hm) hi hprimitive
        have hbelow : ∀ x ∈ d.graph, x ∈ e.graph := fun x hx => graph_trans hchild.mem_graph hx
        rcases hlabelled.delivers he.schema he.hook hchild with hfree | ⟨label, hdelivered⟩
        · cases (hfree i hi).symm.trans hprimitive
        · obtain ⟨data', hfilled', hdoc', -⟩ :=
            hdelivered.document (hgraph d hchild.mem_graph).toWellFormed
          obtain ⟨x, hx⟩ :=
            ih (n, v) hv d hd (fun x hx => hgraph x (hbelow x hx)) hfilled' hdoc' hi
          exact ⟨x, (Nests.child .self hchild).trans hx⟩

/-- **No document is missed.** In what is sent, each document that can be taken for an entity is
that of a nested one. -/
theorem Emits.nests_of_isPrimitive {e : Entity} {p : Primitive} (hsent : e.Emits p)
    (hgraph : ∀ d ∈ e.graph, d.Distinguishable) {i : Json} (hi : i ∈ p.toJson.documents)
    (hprimitive : Primitive.isPrimitive i = true) : ∃ d, e.Nests p.toJson d i := by
  obtain ⟨stamp, data, hfilled, rfl⟩ := hsent.root
  exact Entity.nests_of_isPrimitive hgraph hfilled .full hi hprimitive

/-- **Markers never dangle.** In whatever is sent, the document of each entity, nested at any depth,
has distinct markers, in ascending order, and just those changed fields of the entity that the data
has entries for. Where nothing but the documents of entities can be taken for an entity, this holds
of everything that is. -/
theorem Emits.markers_exact {e : Entity} {p : Primitive} (hsent : e.Emits p)
    (hgraph : ∀ d ∈ e.graph, d.WellFormed ∧ d.schema.HookAdds Json.EntityFree) :
    (∀ d inner, e.Nests p.toJson d inner → Primitive.isPrimitive inner = true →
      inner.MarkedFor d) ∧
    ((∀ d ∈ e.graph, d.Distinguishable) → ∀ i ∈ p.toJson.documents,
      Primitive.isPrimitive i = true → ∃ d, e.Nests p.toJson d i ∧ i.MarkedFor d) := by
  refine ⟨fun d inner hnests => hsent.marked hgraph hnests, ?_⟩
  intro hdistinguishable i hi hprimitive
  obtain ⟨d, hnests⟩ := hsent.nests_of_isPrimitive hdistinguishable hi hprimitive
  exact ⟨d, hnests, hsent.marked hgraph hnests hprimitive⟩

end Entity

end

/-! ## Hooks of rules -/

theorem Edit.erase_tidy (name : String) : Edit.Relates Members.Tidy (Edit.erase name) := by
  rintro ms _ ⟨⟩ hms
  refine ⟨hms.erase name, fun hname => ?_⟩
  obtain ⟨j, hj⟩ := Record.contains_iff.mp hname
  rw [Record.get?_erase] at hj
  split at hj
  · cases hj
  · exact Record.contains_iff.mpr ⟨j, hj⟩

theorem Edit.insert_tidy {name : String} (hname : name ≠ Primitive.nameKey) (j : Json) :
    Edit.Relates Members.Tidy (Edit.insert name j) := by
  rintro ms _ ⟨⟩ hms
  refine ⟨hms.insert name j, fun hcontains => ?_⟩
  rw [Record.contains_insert, Bool.or_eq_true, decide_eq_true_eq] at hcontains
  exact hcontains.resolve_left hname

theorem Hook.ofRules_tidy {rules : List HookRule}
    (h : ∀ r ∈ rules, Edit.Relates Members.Tidy r.change) (target : Version) :
    Edit.Relates Members.Tidy (Hook.ofRules rules target) := by
  refine Hook.ofRules_relates (fun ms hms => ⟨hms, id⟩) ?_ h target
  intro first mid last hfirst hlast hasc
  obtain ⟨hmid, hback⟩ := hfirst hasc
  obtain ⟨hlast, hback'⟩ := hlast hmid
  exact ⟨hlast, hback ∘ hback'⟩

namespace Vitrine

attribute [local instance] Codecs.none

theorem flaggedVitrine_distinguishable : flaggedVitrine.Distinguishable where
  toWellFormed := by decide
  kinds := List.forall_mem_singleton.mpr trivial
  names := by decide
  keys := List.forall_mem_singleton.mpr List.not_mem_nil
  hook := Schema.hookAdds_of_none rfl _
  tidy := by
    rintro target ms _ ⟨⟩ hms
    exact ⟨hms, id⟩

theorem flaggedExhibit_distinguishable : flaggedExhibit.Distinguishable where
  toWellFormed := by decide
  kinds := List.forall_mem_cons.mpr ⟨trivial, List.forall_mem_singleton.mpr trivial⟩
  names := by decide
  keys := List.forall_mem_cons.mpr
    ⟨List.not_mem_nil, List.forall_mem_singleton.mpr List.not_mem_nil⟩
  hook := Hook.ofRules_adds flagged_adds rfl
  tidy := Hook.ofRules_tidy (List.forall_mem_cons.mpr ⟨Edit.erase_tidy "label",
    List.forall_mem_singleton.mpr (Edit.insert_tidy (by decide) _)⟩)

/-- Of two markers the one of the label is gone, and the flag has none. The vitrine and the exhibit
are all there is in what is sent. -/
theorem exhibit_marked :
    flaggedVitrine.Emits flaggedSent ∧
    (∀ d ∈ flaggedVitrine.graph, d.WellFormed ∧ d.schema.HookAdds Json.EntityFree) ∧
    (∀ d ∈ flaggedVitrine.graph, d.Distinguishable) ∧
    flaggedVitrine.Nests flaggedSent.toJson flaggedExhibit flaggedOlder ∧
    Primitive.isPrimitive flaggedOlder = true ∧ flaggedOlder.MarkedFor flaggedExhibit ∧
    ∀ i ∈ flaggedSent.toJson.documents, Primitive.isPrimitive i = true →
      ∃ d, flaggedVitrine.Nests flaggedSent.toJson d i ∧ i.MarkedFor d := by
  have hsent : flaggedVitrine.Emits flaggedSent := .relayed (vitrine_sent flagged_run)
  have hgraph : ∀ d ∈ flaggedVitrine.graph, d.WellFormed ∧ d.schema.HookAdds Json.EntityFree :=
    vitrine_graph flagged_adds (by decide) (by decide)
  have hdistinguishable : ∀ d ∈ flaggedVitrine.graph, d.Distinguishable :=
    List.forall_mem_cons.mpr ⟨flaggedVitrine_distinguishable,
      List.forall_mem_singleton.mpr flaggedExhibit_distinguishable⟩
  have hnests : flaggedVitrine.Nests flaggedSent.toJson flaggedExhibit flaggedOlder :=
    .child .self vitrine_hasExhibit
  obtain ⟨hnested, hall⟩ := hsent.markers_exact hgraph
  exact ⟨hsent, hgraph, hdistinguishable, hnests, isPrimitive_older,
    hnested _ _ hnests isPrimitive_older, hall hdistinguishable⟩

/-! A map that passes for an entity may name anything as changed, and so may what a codec writes,
and what a hook inserts inside an array. -/

/-- A map with the keys of a name and of changes. -/
def tag : List (String × Value) :=
  [("nova_object.changes", .list [.str "zz", .str "zz"]), ("nova_object.name", .list [])]

def sentTag : Members :=
  [("nova_object.changes", .arr [.str "zz", .str "zz"]), ("nova_object.name", .arr [])]

def tagged : Entity :=
  ⟨⟨"Case", ⟨1, 0, none⟩, [("tag", ⟨.dict (.list .string), false, none⟩)], [], [], none⟩,
    ⟨1, 0, none⟩, none, [("tag", .map tag)], []⟩

/-- A primitive with a marker that dangles. -/
def coin : Primitive := ⟨"nova", "Coin", "1.0", [], ["zz"]⟩

def minter : Codec where
  coerce v := .ok v
  write _ := .ok coin.toJson
  read _ := .ok .null

@[reducible] def minting : Codecs := ⟨fun _ => minter⟩

def minted : Entity :=
  ⟨⟨"Case", ⟨1, 0, none⟩, [("coin", ⟨.custom "Coin", false, none⟩)], [], [], none⟩,
    ⟨1, 0, none⟩, none, [("coin", .str "heads")], []⟩

def pocketing : HookRule := ⟨⟨2, 0, none⟩, Edit.insert "pocket" (.arr [coin.toJson])⟩

def pocket : Members := [("pocket", .arr [coin.toJson])]

def pocketed : Entity :=
  ⟨⟨"Case", ⟨1, 0, none⟩, [], [], [], some (Hook.ofRules [pocketing])⟩, ⟨1, 0, none⟩, none, [], []⟩

/-- The coin stands in something that is sent for the entity. -/
def HoldsCoin [Codecs] (e : Entity) : Prop := ∃ p, e.Emits p ∧ coin.toJson ∈ p.toJson.documents

/-- Not everything that passes for an entity has its markers. -/
theorem not_all_marked :
    (tagged.WellFormed ∧ tagged.schema.hook? = none ∧
      ∃ p : Primitive, tagged.Emits p ∧ .obj sentTag ∈ p.toJson.documents ∧
        Primitive.isPrimitive (.obj sentTag) = true ∧
        Record.get? sentTag Primitive.changesKey = some (.arr [.str "zz", .str "zz"])) ∧
    Primitive.isPrimitive coin.toJson = true ∧ "zz" ∈ coin.changes ∧
    Record.contains coin.data "zz" = false ∧
    (minted.WellFormed ∧ minted.schema.hook? = none ∧ @HoldsCoin minting minted) ∧
    (pocketed.WellFormed ∧ Primitive.isPrimitive (.arr [coin.toJson]) = false ∧
      HoldsCoin pocketed) := by
  have nested (p : Primitive) (n : String) {j : Json} (hj : Record.get? p.data n = some j) :
      j ∈ p.toJson.documents :=
    Json.mem_documents_of_data? (Json.data?_obj p.get?_members_data) hj
  have htagged : tagged.writeFor none =
      .ok (.mk "nova" "Case" "1.0" [("tag", .obj sentTag)] []) := rfl
  have hminted : @Entity.writeFor minting minted none =
      .ok (.mk "nova" "Case" "1.0" [("coin", coin.toJson)] []) := rfl
  have hwalk : (pocketed.schema.fields.forM (pocketed.schema.visit
      (Entity.childAdapters pocketed.values) ⟨1, 0, none⟩)) [] = (.ok (), []) := rfl
  have happlies : (⟨1, 0, none⟩ : Version).release < pocketing.before.release := by decide
  have hhook : pocketed.schema.runHook ⟨1, 0, none⟩ [] = (.ok (), pocket) := by
    show Hook.ofRules [pocketing] ⟨1, 0, none⟩ [] = _
    rw [Hook.ofRules_cons, if_pos happlies]
    rfl
  have hpocketed : pocketed.writeAt ⟨1, 0, none⟩ =
      .ok (.mk "nova" "Case" "1.0" pocket []) := by
    rw [Entity.writeAt_eq (e := pocketed) rfl, Entity.makeCompatible_eq, ExceptT.bind_ok hwalk,
      hhook]
    rfl
  refine ⟨⟨by decide, rfl, _, .relayed htagged, nested _ "tag" rfl, rfl, rfl⟩, rfl,
    List.mem_singleton_self _, rfl, ⟨by decide, rfl, _, @Entity.Emits.relayed minting _ _ _ hminted,
      nested _ "coin" rfl⟩, by decide, rfl, _, .requested hpocketed, ?_⟩
  exact Json.documents_trans (nested _ "pocket" rfl)
    (Json.mem_documents_arr List.mem_cons_self (Json.self_mem_documents _))

end Vitrine

end Skew

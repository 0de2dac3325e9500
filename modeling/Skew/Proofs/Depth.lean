import Skew.Proofs.Labels

/-!
# How deep a backport reaches

A document bounds its children when each of them is stamped no newer than the table of its field
gives for the stamp of the owner (`Entity.Bounds`). In what is sent to an older peer every document
does, at every depth, except in what is sent as it was written: a child that is no newer than its
bound, or exactly at its goal, is not opened, nor is anything outside of composed fields. What such
an entity held beyond its own tables it still holds (`Entity.writeFor_within`). Where none holds
anything beyond its tables, there is no exception.

Going down from the root, a document is either adapted, and then so is what it holds or it is sent
as it was written (`Entity.Adapted.child`), or it stands in one that is sent as it was written. That
is the invariant (`Entity.Nests.adapted_or_kept`).
-/

namespace Skew

/-- Each child in a composed field of the document is stamped no newer than the table of the field
gives for the stamp of the document. -/
def Entity.Bounds (owner : Entity) (outer : Json) : Prop :=
  ∀ n v d inner, owner.composed? n = some v → owner.HasChild outer n d inner →
    ∃ stamp table goal label, outer.stamp? = some stamp ∧
      owner.schema.relationship? n = some table ∧ table.childAt? stamp = some goal ∧
      inner.stamp? = some label ∧ label.release ≤ goal.release

theorem Relationship.childAt?_congr (table : Relationship) {v w : Version}
    (h : v.release = w.release) : table.childAt? v = table.childAt? w := by
  rw [childAt?, childAt?, h]

/-- What a document holds depends on its data alone. -/
theorem Entity.HasChild.congr {e d : Entity} {doc doc' inner : Json} {n : String}
    (h : e.HasChild doc n d inner) (hdata : doc.data? = doc'.data?) :
    e.HasChild doc' n d inner := by
  obtain ⟨data, f, v, j, hget, hrest⟩ := h
  exact ⟨data, f, v, j, hdata ▸ hget, hrest⟩

theorem Entity.Nests.congr {e owner : Entity} {doc doc' outer : Json} (h : e.Nests doc owner outer)
    (hdata : doc.data? = doc'.data?) :
    (owner = e ∧ outer = doc) ∨ e.Nests doc' owner outer := by
  induction h with
  | self => exact Or.inl ⟨rfl, rfl⟩
  | child _ hchild ih =>
      rcases ih with ⟨rfl, rfl⟩ | hnests
      · exact Or.inr (.child .self (hchild.congr hdata))
      · exact Or.inr (.child hnests hchild)

/-- Whether the children are bounded depends on the data and on the release of the stamp. -/
theorem Entity.Bounds.congr {owner : Entity} {outer outer' : Json} {v w : Version}
    (h : owner.Bounds outer) (hdata : outer.data? = outer'.data?) (hv : outer.stamp? = some v)
    (hw : outer'.stamp? = some w) (hrelease : v.release = w.release) : owner.Bounds outer' := by
  intro n val d inner hn hchild
  obtain ⟨stamp, table, goal, label, hstamp, htable, hgoal, hlabel, hle⟩ :=
    h n val d inner hn (hchild.congr hdata.symm)
  cases hv.symm.trans hstamp
  exact ⟨w, table, goal, label, hw, htable, table.childAt?_congr hrelease ▸ hgoal, hlabel, hle⟩

section

variable [Codecs]

/-- What the entity writes of itself bounds its children, at every depth. -/
def Entity.Level (e : Entity) : Prop :=
  ∀ p, e.write = .ok p → ∀ owner outer, e.Nests p.toJson owner outer → owner.Bounds outer

/-- The document is what the entity wrote of itself, up to the patch of the stamp. -/
def Entity.KeptAs (d : Entity) (doc : Json) : Prop :=
  ∃ stamp data, doc.stamp? = some stamp ∧ stamp.release = d.version.release ∧
    doc.data? = some data ∧ d.data = .ok data

/-- The document has the data of the entity, adapted to the stamp. -/
def Entity.Adapted (d : Entity) (stamp : Version) (doc : Json) : Prop :=
  doc.stamp? = some stamp ∧ ∃ raw data, doc.data? = some data ∧ d.data = .ok raw ∧
    d.makeCompatible stamp raw = (.ok (), data)

/-- An entity that is written is kept. -/
theorem Entity.WrittenAs.keptAs {d : Entity} {doc : Json} (h : d.WrittenAs doc) :
    d.KeptAs doc := by
  obtain ⟨p, hp, rfl⟩ := h
  obtain ⟨hstamp, hdata⟩ := stamp_of_write hp
  exact ⟨d.version, p.data, Json.stamp?_obj (hstamp ▸ p.get?_members_version), rfl,
    Json.data?_obj p.get?_members_data, hdata⟩

/-- A child that is sent is kept or adapted. -/
theorem Value.Sends.adapted_or_kept {v : Value} {past : Bool} {goal : Version} {d : Entity}
    {doc : Json} (h : v.Sends past goal d doc) : d.Adapted goal doc ∨ d.KeptAs doc := by
  cases h with
  | left hwrite _ => exact Or.inr (Entity.WrittenAs.keptAs ⟨_, hwrite, rfl⟩)
  | stamped hwrite _ hexact =>
      exact Or.inr ⟨goal, _, Json.stamp?_obj (Primitive.get?_members_version _),
        (Version.release_eq_of_isExactly hexact).symm,
        Json.data?_obj (Primitive.get?_members_data _), (Entity.stamp_of_write hwrite).2⟩
  | adapted hwrite _ _ hrun =>
      exact Or.inl ⟨Json.stamp?_obj (Primitive.get?_adaptedMembers_version _ _ _), _, _,
        Json.data?_obj (Primitive.get?_adaptedMembers_data _ _ _),
        (Entity.stamp_of_write hwrite).2, hrun⟩

/-! ## Adapted documents -/

namespace Entity.Adapted

variable {e d : Entity} {stamp : Version} {doc inner : Json} {n : String}

/-- A child of an adapted document was written, or its field is composed and it is sent as the table
of the field says. -/
theorem child_sent (h : e.Adapted stamp doc) (hschema : e.schema.WellFormed)
    (hhook : e.schema.hook? = none) (hchild : e.HasChild doc n d inner) :
    (e.composed? n = none ∧ d.WrittenAs inner) ∨
      ∃ v table goal, e.composed? n = some v ∧ e.schema.relationship? n = some table ∧
        table.childAt? stamp = some goal ∧ d ∈ v.entities ∧
        v.Sends (table.isPast stamp) goal d inner := by
  obtain ⟨-, raw, data, hdata, hraw, hrun⟩ := h
  obtain ⟨data', f, v, j, hdata', hfield, hv, hj, hplace⟩ := hchild
  cases hdata.symm.trans hdata'
  have hentry := sends_of_makeCompatible hschema hhook hraw hrun n
  rw [hj, Sends] at hentry
  cases hset : e.composed? n with
  | none =>
      rw [hset] at hentry
      obtain ⟨f', v', hfield', hv', hwrite⟩ := exists_of_get?_data hschema.fields hraw hentry.symm
      cases hfield.symm.trans hfield'
      cases hv.symm.trans hv'
      exact Or.inl ⟨rfl, hplace.writtenAs hwrite⟩
  | some w =>
      rw [hset] at hentry
      obtain ⟨table, htable, ⟨-, hnone⟩ | ⟨goal, j', hgoal, hj', hsends⟩⟩ := hentry
      · cases hnone
      · cases hj'
        have hzip := hplace.mem_zip hset hfield hv
        exact Or.inr ⟨w, table, goal, rfl, htable, hgoal, (List.of_mem_zip hzip).1,
          List.forall₂_zip hsends hzip⟩

/-- So it is adapted, or kept. -/
theorem child (h : e.Adapted stamp doc) (hschema : e.schema.WellFormed)
    (hhook : e.schema.hook? = none) (hchild : e.HasChild doc n d inner) :
    (∃ label, d.Adapted label inner) ∨ d.KeptAs inner := by
  obtain ⟨-, hwritten⟩ | ⟨v, table, goal, -, -, -, -, hsends⟩ := h.child_sent hschema hhook hchild
  · exact Or.inr hwritten.keptAs
  · exact hsends.adapted_or_kept.imp_left fun hadapted => ⟨goal, hadapted⟩

/-- The walk opens what a composed field stores, if there is an entity in it. -/
theorem isWalked (he : e.InForm) {v : Value} (hset : e.composed? n = some v)
    (hd : d ∈ v.entities) : v.isWalked = true := by
  obtain ⟨f, hfield, hkind, hv⟩ := composed?_eq_some_iff.mp hset
  rcases he.stored _ (Record.mem_of_get? hv) f hfield with hnull | hstored
  · obtain rfl := Value.eq_null_of_isNull hnull
    cases hd
  · rcases Field.null_or_stores hstored with rfl | ⟨-, hstores⟩
    · cases hd
    · generalize f.kind = k at hkind hstores
      cases hstores with
      | object => rfl
      | listOfObjects => rfl
      | _ => cases hkind

end Entity.Adapted

/-- Going down from an adapted document, one meets adapted documents until one is kept. -/
theorem Entity.Nests.adapted_or_kept {e owner : Entity} {doc outer : Json}
    (h : e.Nests doc owner outer)
    (hgraph : ∀ d ∈ e.graph, d.schema.WellFormed ∧ d.schema.hook? = none) {stamp : Version}
    (hadapted : e.Adapted stamp doc) : owner ∈ e.graph ∧ ((∃ label, owner.Adapted label outer) ∨
      ∃ d inner, e.Nests doc d inner ∧ d.KeptAs inner ∧ d.Nests inner owner outer) := by
  induction h with
  | self => exact ⟨e.self_mem_graph, Or.inl ⟨stamp, hadapted⟩⟩
  | child hnests hchild ih =>
      obtain ⟨hmem, hcase⟩ := ih
      refine ⟨graph_trans hmem hchild.mem_graph, ?_⟩
      obtain ⟨hschema, hhook⟩ := hgraph _ hmem
      rcases hcase with ⟨label, howner⟩ | ⟨d, inner, hd, hkept, hbelow⟩
      · refine (howner.child hschema hhook hchild).imp_right fun hkept => ?_
        exact ⟨_, _, .child hnests hchild, hkept, .self⟩
      · exact Or.inr ⟨d, inner, hd, hkept, .child hbelow hchild⟩

end

/-! ## A crate with an old shelf

A crate holds a shelf of an old version that holds a newer book. The table of the crate
bounds the shelf, the shelf is no newer and stays closed, and the book in it travels as it
is. -/

namespace Library

attribute [local instance] Codecs.none

def crateSchema : Schema :=
  ⟨"Crate", ⟨2, 0, none⟩, [("shelf", ⟨.object "Shelf", false, none⟩)],
    [("shelf", [(⟨1, 0, none⟩, ⟨1, 0, none⟩)])], [], none⟩

def crate : Entity := ⟨crateSchema, ⟨2, 0, none⟩, none, [("shelf", .entity shelf)], []⟩

/-- The shelf as it is written, and as it travels in the crate. -/
def sentShelf : Primitive :=
  shelf.wrap ⟨1, 0, none⟩
    [("objects", .arr [(book.wrap ⟨1, 1, none⟩ [("title", .str "t")]).toJson])]

/-- What the crate is sent as at 1.5. -/
def sent : Primitive := crate.wrap ⟨1, 5, none⟩ [("shelf", sentShelf.toJson)]

end Library

end Skew

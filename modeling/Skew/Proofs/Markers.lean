import Skew.Proofs.Labels
import Skew.Proofs.Reduction
import Skew.Routine

/-!
# Change markers on the wire

The markers of what is sent are worked out in two ways. The root is wrapped last, around the data
that is left, so its markers are those that name data. A nested document was wrapped when its
entity was written; where it is adapted afterwards, its data is edited in place, and the markers
that have lost their data are taken out of the list that is there.

The two ways end in the same markers (`Entity.Delivered.document`): the changed fields of the
entity as far as there is data for them. So no marker dangles, at any depth
(`Entity.Emits.marked`), provided that no hook puts a document of an entity into data.

They do not end in the same document. A list of markers that is emptied in place stays there as an
empty list, while a primitive without markers is written without the list. That is exactly where
decoding and encoding a nested document does not give it back (`Entity.Emits.encoded_again`).
-/

namespace Skew

/-! ## Documents without entities -/

namespace Json

theorem documents_trans {i j k : Json} (hj : j ∈ k.documents) (hi : i ∈ j.documents) :
    i ∈ k.documents := by
  induction k using Json.nested with
  | arr js ih =>
      rw [documents, itemDocuments_eq, List.mem_cons, List.mem_flatMap] at hj
      rcases hj with rfl | ⟨k, hk, hj⟩
      · exact hi
      · exact mem_documents_arr hk (ih k hk hj)
  | obj ms ih =>
      rw [documents, memberDocuments_eq, List.mem_cons, List.mem_flatMap] at hj
      rcases hj with rfl | ⟨m, hm, hj⟩
      · exact hi
      · exact mem_documents_obj hm (ih m hm hj)
  | null | bool | int | float | str =>
      have hself := List.mem_singleton.mp hj
      exact hself ▸ hi

/-- Nothing in the document is taken for an entity. -/
def EntityFree (j : Json) : Prop := ∀ i ∈ j.documents, Primitive.isPrimitive i = false

theorem EntityFree.of_mem {i j : Json} (h : j.EntityFree) (hi : i ∈ j.documents) : i.EntityFree :=
  fun k hk => h k (documents_trans hi hk)

theorem mem_documents_of_childDocuments {doc j : Json} (h : doc ∈ j.childDocuments) :
    doc ∈ j.documents := by
  cases j with
  | arr js => exact mem_documents_arr h doc.self_mem_documents
  | null => cases h
  | _ =>
      rw [List.mem_singleton.mp h]
      exact self_mem_documents _

theorem mem_documents_of_data? {doc j : Json} {data : Members} (hdata : doc.data? = some data)
    {n : String} (hj : Record.get? data n = some j) : j ∈ doc.documents := by
  obtain ⟨ms, hms, hdata⟩ := Option.bind_eq_some_iff.mp hdata
  obtain ⟨inner, hinner, hmembers⟩ := Option.bind_eq_some_iff.mp hdata
  cases doc with
  | obj =>
      cases hms
      cases inner with
      | obj =>
          cases hmembers
          exact mem_documents_obj (Record.mem_of_get? hinner)
            (mem_documents_obj (Record.mem_of_get? hj) j.self_mem_documents)
      | _ => cases hmembers
  | _ => cases hms

end Json

theorem Kind.Places.mem_documents {k : Kind} {v : Value} {j doc : Json} {d : Entity}
    (h : k.Places v j d doc) : doc ∈ j.documents := by
  induction h with
  | composed _ h => exact Json.mem_documents_of_childDocuments (List.of_mem_zip h).2
  | nullable _ ih => exact ih
  | list _ hitem _ ih | set _ hitem _ ih =>
      exact Json.mem_documents_arr (List.of_mem_zip hitem).2 ih
  | dict hentry _ ih => exact Json.mem_documents_obj (List.of_mem_zip hentry).2 ih

theorem Entity.HasChild.mem_documents {e d : Entity} {doc inner : Json} {n : String}
    (h : e.HasChild doc n d inner) : inner ∈ doc.documents := by
  obtain ⟨data, _, _, j, hdata, -, -, hj, hplace⟩ := h
  exact Json.documents_trans (Json.mem_documents_of_data? hdata hj) hplace.mem_documents

/-! ## Hooks of rules -/

/-- What an edit makes of data stands in a relation to the data. -/
def Edit.Relates (R : Members → Members → Prop) (edit : Edit Unit) : Prop :=
  ∀ ms ms', edit ms = (.ok (), ms') → R ms ms'

theorem Hook.ofRules_cons (r : HookRule) (rules : List HookRule) (target : Version) :
    Hook.ofRules (r :: rules) target =
      (if target.release < r.before.release then r.change else pure ()) >>= fun _ =>
        Hook.ofRules rules target := by
  rw [ofRules, List.forM]
  rfl

/-- The rules of a hook relate what it makes of data to the data, if each of them does. -/
theorem Hook.ofRules_relates {R : Members → Members → Prop} (hrefl : ∀ ms, R ms ms)
    (htrans : ∀ first mid last, R first mid → R mid last → R first last) {rules : List HookRule}
    (h : ∀ r ∈ rules, Edit.Relates R r.change) (target : Version) :
    Edit.Relates R (Hook.ofRules rules target) := by
  induction rules with
  | nil =>
      rintro ms _ ⟨⟩
      exact hrefl ms
  | cons r rules ih =>
      obtain ⟨hr, hrest⟩ := List.forall_mem_cons.mp h
      intro ms ms' hrun
      rw [ofRules_cons] at hrun
      obtain ⟨⟨⟩, mid, hrule, hlater⟩ := ExceptT.bind_eq_ok_iff.mp hrun
      refine htrans ms mid ms' ?_ (ih hrest mid ms' hlater)
      split at hrule
      · exact hr ms mid hrule
      · cases hrule
        exact hrefl ms

/-- Each entry was there before, or is as said. -/
def Members.Adds (P : Json → Prop) (ms ms' : Members) : Prop :=
  ∀ n j, Record.get? ms' n = some j → Record.get? ms n = some j ∨ P j

theorem Edit.erase_adds (P : Json → Prop) (name : String) :
    Edit.Relates (Members.Adds P) (Edit.erase name) := by
  rintro ms _ ⟨⟩ n j hj
  rw [Record.get?_erase] at hj
  split at hj
  · cases hj
  · exact Or.inl hj

theorem Edit.insert_adds {P : Json → Prop} (name : String) {i : Json} (hi : P i) :
    Edit.Relates (Members.Adds P) (Edit.insert name i) := by
  rintro ms _ ⟨⟩ n j hj
  rw [Record.get?_insert] at hj
  split at hj
  · cases hj
    exact Or.inr hi
  · exact Or.inl hj

/-- A hook of rules adds what its rules add. -/
theorem Hook.ofRules_adds {P : Json → Prop} {rules : List HookRule}
    (h : ∀ r ∈ rules, Edit.Relates (Members.Adds P) r.change) {s : Schema}
    (hhook : s.hook? = some (Hook.ofRules rules)) : s.HookAdds P := by
  intro target slots data _ hrun
  rw [Schema.runHook, hhook] at hrun
  refine Hook.ofRules_relates (fun ms n j hj => Or.inl hj) ?_ h target slots data hrun
  intro first mid last hfirst hlast n j hj
  exact (hlast n j hj).elim (hfirst n j) Or.inr

/-! ## Empty lists of markers -/

/-- The list of markers is there, and it is empty. -/
def Json.CarriesEmpty (j : Json) : Prop :=
  ∃ ms, j = .obj ms ∧ Record.get? ms Primitive.changesKey = some (.arr [])

namespace Primitive

theorem carriesEmpty_obj {ms : Members} :
    (Json.obj ms).CarriesEmpty ↔ Record.get? ms changesKey = some (.arr []) :=
  ⟨fun ⟨_, h, hempty⟩ => Json.obj.inj h ▸ hempty, fun h => ⟨ms, rfl, h⟩⟩

theorem isPrimitive_adapted (p : Primitive) (goal : Version) (data : Members) :
    isPrimitive (p.adapted goal data) = true := by
  have hname : Record.get? (p.adaptedMembers goal data) nameKey = some (.str p.name) := by
    unfold adaptedMembers
    split <;> rfl
  exact Record.contains_iff.mpr ⟨_, hname⟩

/-- The list is there as it is left, if there was one. -/
theorem adapted_carriesEmpty_iff (p : Primitive) (goal : Version) (data : Members) :
    (p.adapted goal data).CarriesEmpty ↔
      p.changes ≠ [] ∧ ∀ n ∈ p.changes, Record.contains data n = false := by
  obtain ⟨space, name, version, old, changes⟩ := p
  rw [adapted, carriesEmpty_obj]
  cases changes with
  | nil => exact iff_of_false nofun fun h => h.1 rfl
  | cons n names =>
      have hget : Record.get? (adaptedMembers ⟨space, name, version, old, n :: names⟩ goal data)
          changesKey = some (.arr (((n :: names).filter (Record.contains data)).map .str)) := rfl
      rw [hget, Option.some.injEq, Json.arr.injEq, List.map_eq_nil_iff, List.filter_eq_nil_iff]
      simp

theorem not_carriesEmpty (p : Primitive) : ¬ p.toJson.CarriesEmpty := by
  obtain ⟨space, name, version, data, changes⟩ := p
  rw [toJson_eq, carriesEmpty_obj]
  cases changes <;> exact nofun

/-- A primitive is written as the document it was read from, unless that has an empty list of
markers. -/
theorem Document.toJson_eq_iff {p : Primitive} {j : Json} (h : Document p j) :
    p.toJson = j ↔ ¬ j.CarriesEmpty := by
  cases h with
  | full => exact iff_of_true rfl p.not_carriesEmpty
  | emptied hchanges =>
      have hempty : (Json.obj ((changesKey, .arr []) :: p.members)).CarriesEmpty :=
        carriesEmpty_obj.mpr rfl
      exact iff_of_false (fun h => p.not_carriesEmpty (h ▸ hempty)) fun h => h hempty

end Primitive

/-- The document is read as a primitive of the entity's type, whose markers are distinct, in
ascending order, and just those changed fields of the entity that the data has entries for. -/
def Json.MarkedFor (j : Json) (d : Entity) : Prop :=
  ∃ q, Primitive.ofJson j = .ok q ∧ q.name = d.schema.name ∧ q.changes.Nodup ∧
    NameSet.Ascending q.changes ∧
    ∀ n, n ∈ q.changes ↔ n ∈ d.whatChanged ∧ Record.contains q.data n = true

section

variable [Codecs]

/-! ## What is delivered -/

/-- The document of an entity nested in another one: as it was written, or adapted in place. -/
inductive Entity.Delivered (d : Entity) (stamp : Version) : Json → Prop
  | written {raw : Members} (hraw : d.data = .ok raw) : Delivered d stamp (d.wrap stamp raw).toJson
  | adapted {raw data : Members} (hraw : d.data = .ok raw)
      (hrun : d.makeCompatible stamp raw = (.ok (), data)) :
      Delivered d stamp ((d.wrap d.version raw).adapted stamp data)

omit [Codecs] in
theorem Primitive.adaptChild_of_run {p : Primitive} {version goal : Version}
    (hversion : p.version = version.text) {adapt : Version → Edit Unit} {past : Bool}
    {data : Members} (hopen : ¬ (past = true ∧ version.release ≤ goal.release))
    (hexact : version.isExactly goal = false) (hrun : adapt goal p.data = (.ok (), data)) :
    adaptChild version adapt goal past p.toJson = (.ok (), p.adapted goal data) := by
  rw [adaptChild_toJson hversion, if_neg hopen, hexact, if_neg Bool.false_ne_true, hrun]

/-- What is sent for an entity, to any peer or by request at a version. -/
inductive Entity.Emits (e : Entity) (p : Primitive) : Prop
  | relayed {target? : Option Version} (h : e.writeFor target? = .ok p)
  | requested {target : Version} (h : e.writeAt target = .ok p)

namespace Entity

theorem WrittenAs.delivered {d : Entity} {doc : Json} (h : d.WrittenAs doc) :
    d.Delivered d.version doc := by
  obtain ⟨p, hp, rfl⟩ := h
  obtain ⟨raw, hraw, rfl⟩ := Except.map_eq_ok_iff.mp (d.write_eq ▸ hp)
  exact .written hraw

theorem Delivered.labelled {d : Entity} {stamp : Version} {doc : Json}
    (h : d.Delivered stamp doc) : d.Labelled stamp doc := by
  cases h with
  | written hraw => exact Primitive.labelled rfl (.written hraw)
  | adapted hraw hrun =>
      exact ⟨Json.stamp?_obj (Primitive.get?_adaptedMembers_version _ _ _), _,
        Json.data?_obj (Primitive.get?_adaptedMembers_data _ _ _), .adapted hraw hrun⟩

end Entity

theorem Value.Sends.delivered {v : Value} {past : Bool} {goal : Version} {d : Entity} {doc : Json}
    (h : v.Sends past goal d doc) : ∃ label, d.Delivered label doc := by
  cases h with
  | left hwrite => exact ⟨d.version, Entity.WrittenAs.delivered ⟨_, hwrite, rfl⟩⟩
  | stamped hwrite =>
      obtain ⟨raw, hraw, rfl⟩ := Except.map_eq_ok_iff.mp (d.write_eq ▸ hwrite)
      exact ⟨goal, .written hraw⟩
  | adapted hwrite _ _ hrun =>
      obtain ⟨raw, hraw, rfl⟩ := Except.map_eq_ok_iff.mp (d.write_eq ▸ hwrite)
      exact ⟨goal, .adapted hraw hrun⟩

namespace Entity

/-- Every document nested in a labelled one is that of its entity, delivered, or inside what the hook
added. -/
theorem Labelled.delivers {e d : Entity} {stamp : Version} {doc inner : Json} {n : String}
    (h : e.Labelled stamp doc) (hschema : e.schema.WellFormed)
    (hhook : e.schema.HookAdds Json.EntityFree) (hchild : e.HasChild doc n d inner) :
    inner.EntityFree ∨ ∃ label, d.Delivered label inner := by
  obtain ⟨data, f, v, j, hdata, hfield, hv, hj, hplace⟩ := hchild
  rcases h.entry_or hschema hhook hdata hj with hfree | ⟨f', v', written, hfield', hv', hwrite, hentry⟩
  · exact Or.inl (hfree.of_mem hplace.mem_documents)
  · right
    cases hfield.symm.trans hfield'
    cases hv.symm.trans hv'
    obtain rfl | ⟨hset, table, goal, -, -, hsends⟩ := hentry
    · exact ⟨d.version, (hplace.writtenAs hwrite).delivered⟩
    · exact (List.forall₂_zip hsends (hplace.mem_zip hset hfield hv)).delivered

/-- What is sent is wrapped around the data as it was written, or as it was adapted. -/
theorem Emits.root {e : Entity} {p : Primitive} (h : e.Emits p) :
    ∃ stamp data, e.Filled stamp data ∧ p = e.wrap stamp data := by
  have hwrite (h : e.write = .ok p) : ∃ stamp data, e.Filled stamp data ∧ p = e.wrap stamp data := by
    obtain ⟨raw, hraw, rfl⟩ := Except.map_eq_ok_iff.mp (e.write_eq ▸ h)
    exact ⟨e.version, raw, .written hraw, rfl⟩
  have hwriteAt {target : Version} (h : e.writeAt target = .ok p) :
      ∃ stamp data, e.Filled stamp data ∧ p = e.wrap stamp data := by
    obtain ⟨raw, data, hraw, hrun, rfl⟩ := exists_run_of_writeAt h
    exact ⟨target, data, .adapted hraw hrun, rfl⟩
  cases h with
  | @relayed target? h =>
      cases target? with
      | none => exact hwrite h
      | some target =>
          rw [writeFor] at h
          split at h
          · exact hwrite h
          · exact hwriteAt h
  | requested h => exact hwriteAt h

/-- The entity of a nested document is one of the graph, and the document is one of it, unless it is
inside what a hook added. -/
theorem Nests.labelled_or {e d : Entity} {doc inner : Json} (h : e.Nests doc d inner)
    (hgraph : ∀ d ∈ e.graph, d.schema.WellFormed ∧ d.schema.HookAdds Json.EntityFree)
    {stamp : Version} (hlabelled : e.Labelled stamp doc) :
    d ∈ e.graph ∧ (inner.EntityFree ∨ ∃ label, d.Labelled label inner) := by
  induction h with
  | self => exact ⟨e.self_mem_graph, Or.inr ⟨stamp, hlabelled⟩⟩
  | child _ hchild ih =>
      obtain ⟨hmem, hfree | ⟨label, howner⟩⟩ := ih
      · exact ⟨graph_trans hmem hchild.mem_graph, Or.inl (hfree.of_mem hchild.mem_documents)⟩
      · obtain ⟨hschema, hhook⟩ := hgraph _ hmem
        refine ⟨graph_trans hmem hchild.mem_graph, ?_⟩
        exact (howner.delivers hschema hhook hchild).imp_right fun ⟨inner, hinner⟩ =>
          ⟨inner, hinner.labelled⟩

/-! ## Markers -/

/-- A changed field is set, and so it is written. -/
theorem WellFormed.contains_of_mem_whatChanged {d : Entity} (h : d.WellFormed) {raw : Members}
    (hraw : d.data = .ok raw) {n : String} (hn : n ∈ d.whatChanged) :
    Record.contains raw n = true := by
  obtain ⟨v, hv⟩ := Record.contains_iff.mp (h.isSet_of_mem_whatChanged hn)
  obtain ⟨f, hf⟩ := h.exists_field (Record.mem_of_get? hv)
  have hget := get?_data h.schema.fields hraw hf
  rw [hv] at hget
  obtain ⟨j, hj, -⟩ := Option.map_eq_some_iff.mp hget
  exact Record.contains_iff.mpr ⟨j, hj⟩

theorem WellFormed.changes_wrap {d : Entity} (h : d.WellFormed) {raw : Members}
    (hraw : d.data = .ok raw) (stamp : Version) : (d.wrap stamp raw).changes = d.whatChanged :=
  List.filter_eq_self.mpr fun _ hn => h.contains_of_mem_whatChanged hraw hn

/-- Taking markers out of the list that was written leaves those that wrapping the adapted data would
have put there. The list is left empty if there were markers and all have lost their data. -/
theorem Delivered.document {d : Entity} (hd : d.WellFormed) {stamp : Version} {doc : Json}
    (h : d.Delivered stamp doc) :
    ∃ data, d.Filled stamp data ∧ Primitive.Document (d.wrap stamp data) doc ∧
      (doc.CarriesEmpty ↔
        d.whatChanged ≠ [] ∧ ∀ n ∈ d.whatChanged, Record.contains data n = false) := by
  cases h with
  | @written raw hraw =>
      refine ⟨raw, .written hraw, .full, iff_of_false (d.wrap stamp raw).not_carriesEmpty ?_⟩
      rintro ⟨hchanged, hnone⟩
      obtain ⟨n, hn⟩ := List.exists_mem_of_ne_nil _ hchanged
      cases (hd.contains_of_mem_whatChanged hraw hn).symm.trans (hnone n hn)
  | @adapted raw data hraw hrun =>
      have hdocument := Primitive.adapted_document (d.wrap d.version raw) stamp data
      have hempty := Primitive.adapted_carriesEmpty_iff (d.wrap d.version raw) stamp data
      rw [hd.changes_wrap hraw] at hdocument hempty
      exact ⟨data, .adapted hraw hrun, hdocument, hempty⟩

/-- What is nested below a document, without being the document itself, is delivered. -/
theorem Nests.delivered {e owner d : Entity} {doc outer inner : Json} {n : String}
    (h : e.Nests doc owner outer) (hchild : owner.HasChild outer n d inner)
    (hgraph : ∀ d ∈ e.graph, d.WellFormed ∧ d.schema.HookAdds Json.EntityFree) {stamp : Version}
    (hlabelled : e.Labelled stamp doc) (hprimitive : Primitive.isPrimitive inner = true) :
    d.WellFormed ∧ ∃ label, d.Delivered label inner := by
  have hschemas : ∀ d ∈ e.graph, d.schema.WellFormed ∧ d.schema.HookAdds Json.EntityFree :=
    fun d hd => ⟨(hgraph d hd).1.schema, (hgraph d hd).2⟩
  have hfree (hfree : inner.EntityFree) : False := by
    rw [hfree inner inner.self_mem_documents] at hprimitive
    cases hprimitive
  obtain ⟨hmem, houter⟩ := h.labelled_or hschemas hlabelled
  refine ⟨(hgraph d (graph_trans hmem hchild.mem_graph)).1, ?_⟩
  rcases houter with houter | ⟨label, howner⟩
  · exact (hfree (houter.of_mem hchild.mem_documents)).elim
  · obtain ⟨hschema, hhook⟩ := hschemas owner hmem
    exact (howner.delivers hschema hhook hchild).resolve_left hfree

theorem Emits.labelled {e : Entity} {p : Primitive} (h : e.Emits p) :
    ∃ stamp, e.Labelled stamp p.toJson := by
  obtain ⟨stamp, data, hfilled, rfl⟩ := h.root
  exact ⟨stamp, Primitive.labelled rfl hfilled⟩

/-- In whatever is sent, the document of each entity, nested at any depth, has its markers. -/
theorem Emits.marked {e : Entity} {p : Primitive} (hsent : e.Emits p)
    (hgraph : ∀ d ∈ e.graph, d.WellFormed ∧ d.schema.HookAdds Json.EntityFree) {d : Entity}
    {inner : Json} (hnests : e.Nests p.toJson d inner)
    (hprimitive : Primitive.isPrimitive inner = true) : inner.MarkedFor d := by
  obtain ⟨hd, stamp, data, hdocument⟩ : d.WellFormed ∧ ∃ stamp data,
      Primitive.Document (d.wrap stamp data) inner := by
    cases hnests with
    | self =>
        obtain ⟨stamp, data, -, rfl⟩ := hsent.root
        exact ⟨(hgraph e e.self_mem_graph).1, stamp, data, .full⟩
    | child howner hchild =>
        obtain ⟨_, hlabelled⟩ := hsent.labelled
        obtain ⟨hd, label, hdelivered⟩ := howner.delivered hchild hgraph hlabelled hprimitive
        obtain ⟨data, -, hdocument, -⟩ := hdelivered.document hd
        exact ⟨hd, label, data, hdocument⟩
  have hascending : NameSet.Ascending (d.wrap stamp data).changes :=
    List.Pairwise.filter _ hd.whatChanged
  exact ⟨_, hdocument.ofJson, rfl, hascending.nodup, hascending, fun _ => List.mem_filter⟩

/-- **Where encoding again gives the same document.** What is sent is read as itself. A document
nested in it is read and written again as it is, unless its list of markers is empty; and that
happens just where the entity had changed fields and the data has lost all of them. -/
theorem Emits.encoded_again {e : Entity} {p : Primitive} (hsent : e.Emits p)
    (hgraph : ∀ d ∈ e.graph, d.WellFormed ∧ d.schema.HookAdds Json.EntityFree) :
    (Primitive.ofJson p.toJson = .ok p ∧ ¬ p.toJson.CarriesEmpty) ∧
    ∀ owner outer n d inner, e.Nests p.toJson owner outer → owner.HasChild outer n d inner →
      Primitive.isPrimitive inner = true →
      ∃ q, Primitive.ofJson inner = .ok q ∧ (q.toJson = inner ↔ ¬ inner.CarriesEmpty) ∧
        (inner.CarriesEmpty ↔
          d.whatChanged ≠ [] ∧ ∀ n ∈ d.whatChanged, Record.contains q.data n = false) := by
  refine ⟨⟨p.ofMembers_members, p.not_carriesEmpty⟩, ?_⟩
  intro owner outer n d inner howner hchild hprimitive
  obtain ⟨_, hlabelled⟩ := hsent.labelled
  obtain ⟨hd, label, hdelivered⟩ := howner.delivered hchild hgraph hlabelled hprimitive
  obtain ⟨data, -, hdocument, hempty⟩ := hdelivered.document hd
  exact ⟨_, hdocument.ofJson, hdocument.toJson_eq_iff, hempty⟩

end Entity

end

/-! ## A vitrine

An older peer gets an exhibit without its label. In the document of the exhibit, the marker of the
label goes with it, and so there may be none left. -/

namespace Vitrine

attribute [local instance] Codecs.none

def unlabelled : HookRule := ⟨⟨1, 1, none⟩, Edit.erase "label"⟩

def flagged : HookRule := ⟨⟨1, 1, none⟩, Edit.insert "flagged" (.bool true)⟩

def exhibitSchema (rules : List HookRule) : Schema :=
  ⟨"Exhibit", ⟨1, 1, none⟩, [("id", ⟨.integer false, false, none⟩), ("label", ⟨.string, true, none⟩)],
    [], [], some (Hook.ofRules rules)⟩

def vitrineSchema : Schema :=
  ⟨"Vitrine", ⟨1, 1, none⟩, [("exhibit", ⟨.object "Exhibit", false, none⟩)],
    [("exhibit", [(⟨1, 0, none⟩, ⟨1, 0, none⟩), (⟨1, 1, none⟩, ⟨1, 1, none⟩)])], [], none⟩

def exhibit (rules : List HookRule) (changed : NameSet) : Entity :=
  ⟨exhibitSchema rules, ⟨1, 1, none⟩, none, [("id", .int 1), ("label", .str "blue")], changed⟩

def vitrine (rules : List HookRule) (changed : NameSet) : Entity :=
  ⟨vitrineSchema, ⟨1, 1, none⟩, none, [("exhibit", .entity (exhibit rules changed))], ["exhibit"]⟩

def exhibitData : Members := [("id", .int 1), ("label", .str "blue")]

/-- The document of the exhibit at 1.0. -/
def older (rules : List HookRule) (changed : NameSet) (data : Members) : Json :=
  ((exhibit rules changed).wrap ⟨1, 1, none⟩ exhibitData).adapted ⟨1, 0, none⟩ data

def sent (rules : List HookRule) (changed : NameSet) (data : Members) : Primitive :=
  (vitrine rules changed).wrap ⟨1, 0, none⟩ [("exhibit", older rules changed data)]

section

variable {rules : List HookRule} {changed : NameSet} {data : Members}

theorem exhibit_run (hhook : Hook.ofRules rules ⟨1, 0, none⟩ exhibitData = (.ok (), data)) :
    (exhibit rules changed).makeCompatible ⟨1, 0, none⟩ exhibitData = (.ok (), data) := by
  have hwalk : ((exhibit rules changed).schema.fields.forM ((exhibit rules changed).schema.visit
      (Entity.childAdapters (exhibit rules changed).values) ⟨1, 0, none⟩)) exhibitData =
      (.ok (), exhibitData) := rfl
  rw [Entity.makeCompatible_eq, ExceptT.bind_ok hwalk]
  exact hhook

theorem vitrine_sent (hhook : Hook.ofRules rules ⟨1, 0, none⟩ exhibitData = (.ok (), data)) :
    (vitrine rules changed).writeFor (some ⟨1, 0, none⟩) = .ok (sent rules changed data) := by
  have hexact : Version.isExactly ⟨1, 0, none⟩ ⟨1, 1, none⟩ = false := by decide
  have hchild : Version.isExactly ⟨1, 1, none⟩ ⟨1, 0, none⟩ = false := by decide
  let written := ((exhibit rules changed).wrap ⟨1, 1, none⟩ exhibitData).toJson
  have hdata : (vitrine rules changed).data = .ok [("exhibit", written)] := rfl
  have hget : Record.get? [("exhibit", written)] "exhibit" = some written := rfl
  have hadapt : (Value.entity (exhibit rules changed)).adaptWire "exhibit" ⟨1, 0, none⟩ false
      written = (.ok (), older rules changed data) := by
    rw [Value.adaptWire]
    exact Primitive.adaptChild_of_run rfl (fun h => Bool.false_ne_true h.1) hchild
      (exhibit_run hhook)
  have hrun : (vitrine rules changed).makeCompatible ⟨1, 0, none⟩ [("exhibit", written)] =
      (.ok (), [("exhibit", older rules changed data)]) := by
    refine Entity.makeCompatible_single rfl rfl rfl ?_
    exact Edit.member_ok hget hadapt
  rw [Entity.writeFor]
  show (if Version.isExactly ⟨1, 0, none⟩ ⟨1, 1, none⟩ = true then _ else _) = _
  rw [hexact, if_neg Bool.false_ne_true, Entity.writeAt_eq hdata, hrun]
  rfl

theorem vitrine_hasExhibit : (vitrine rules changed).HasChild (sent rules changed data).toJson
    "exhibit" (exhibit rules changed) (older rules changed data) :=
  ⟨_, _, .entity (exhibit rules changed), _, Json.data?_obj (Primitive.get?_members_data _), rfl,
    rfl, rfl, .composed rfl List.mem_cons_self⟩

theorem isPrimitive_older : Primitive.isPrimitive (older rules changed data) = true :=
  Primitive.isPrimitive_adapted _ _ _

theorem vitrine_graph
    (hrules : ∀ r ∈ rules, Edit.Relates (Members.Adds Json.EntityFree) r.change)
    (hvitrine : (vitrine rules changed).WellFormed) (hexhibit : (exhibit rules changed).WellFormed) :
    ∀ d ∈ (vitrine rules changed).graph, d.WellFormed ∧ d.schema.HookAdds Json.EntityFree :=
  List.forall_mem_cons.mpr ⟨⟨hvitrine, Schema.hookAdds_of_none rfl _⟩,
    List.forall_mem_cons.mpr ⟨⟨hexhibit, Hook.ofRules_adds hrules rfl⟩, nofun⟩⟩

end

theorem unlabelled_run :
    Hook.ofRules [unlabelled] ⟨1, 0, none⟩ exhibitData = (.ok (), [("id", .int 1)]) := by
  have happlies : (⟨1, 0, none⟩ : Version).release < unlabelled.before.release := by decide
  rw [Hook.ofRules_cons, if_pos happlies]
  rfl

theorem flagged_run : Hook.ofRules [unlabelled, flagged] ⟨1, 0, none⟩ exhibitData =
    (.ok (), [("flagged", .bool true), ("id", .int 1)]) := by
  have happlies : (⟨1, 0, none⟩ : Version).release < unlabelled.before.release := by decide
  have happlies' : (⟨1, 0, none⟩ : Version).release < flagged.before.release := by decide
  rw [Hook.ofRules_cons, if_pos happlies, Hook.ofRules_cons, if_pos happlies']
  rfl

theorem unlabelled_adds :
    ∀ r ∈ [unlabelled], Edit.Relates (Members.Adds Json.EntityFree) r.change :=
  List.forall_mem_singleton.mpr (Edit.erase_adds _ "label")

theorem flagged_adds :
    ∀ r ∈ [unlabelled, flagged], Edit.Relates (Members.Adds Json.EntityFree) r.change := by
  have hflag : (Json.bool true).EntityFree := by
    intro i hi
    rw [List.mem_singleton.mp hi]
    rfl
  exact List.forall_mem_cons.mpr ⟨Edit.erase_adds _ "label",
    List.forall_mem_singleton.mpr (Edit.insert_adds "flagged" hflag)⟩

def flaggedVitrine : Entity := vitrine [unlabelled, flagged] ["id", "label"]

def flaggedExhibit : Entity := exhibit [unlabelled, flagged] ["id", "label"]

def flaggedSent : Primitive :=
  sent [unlabelled, flagged] ["id", "label"] [("flagged", .bool true), ("id", .int 1)]

def flaggedOlder : Json :=
  older [unlabelled, flagged] ["id", "label"] [("flagged", .bool true), ("id", .int 1)]

def labelVitrine : Entity := vitrine [unlabelled] ["label"]

def labelExhibit : Entity := exhibit [unlabelled] ["label"]

def labelSent : Primitive := sent [unlabelled] ["label"] [("id", .int 1)]

def labelOlder : Json := older [unlabelled] ["label"] [("id", .int 1)]

theorem label_graph :
    ∀ d ∈ labelVitrine.graph, d.WellFormed ∧ d.schema.HookAdds Json.EntityFree :=
  vitrine_graph unlabelled_adds (by decide) (by decide)

/-- Where the label alone was changed, no marker is left. -/
theorem exhibit_encoded_again :
    labelVitrine.Emits labelSent ∧
    (∀ d ∈ labelVitrine.graph, d.WellFormed ∧ d.schema.HookAdds Json.EntityFree) ∧
    Primitive.ofJson labelSent.toJson = .ok labelSent ∧
    ∃ q, Primitive.ofJson labelOlder = .ok q ∧
      (q.toJson = labelOlder ↔ ¬ labelOlder.CarriesEmpty) ∧
      (labelOlder.CarriesEmpty ↔ labelExhibit.whatChanged ≠ [] ∧
        ∀ n ∈ labelExhibit.whatChanged, Record.contains q.data n = false) := by
  have hsent : labelVitrine.Emits labelSent := .relayed (vitrine_sent unlabelled_run)
  obtain ⟨⟨hroot, -⟩, hnested⟩ := hsent.encoded_again label_graph
  exact ⟨hsent, label_graph, hroot, hnested _ _ _ _ _ .self vitrine_hasExhibit isPrimitive_older⟩

/-- The list of markers of the exhibit is sent although it is empty, and the exhibit is read and
written again without it. -/
theorem emptied_list_stays :
    (∀ d ∈ labelVitrine.graph, d.WellFormed ∧ d.schema.HookAdds Json.EntityFree) ∧
    labelVitrine.writeFor (some ⟨1, 0, none⟩) = .ok labelSent ∧
    labelVitrine.Nests labelSent.toJson labelExhibit labelOlder ∧
    labelOlder.CarriesEmpty ∧
    ∃ q, Primitive.ofJson labelOlder = .ok q ∧ q.toJson ≠ labelOlder := by
  have hempty : labelOlder.CarriesEmpty := by
    rw [labelOlder, older, Primitive.adapted_carriesEmpty_iff]
    exact ⟨nofun, by decide⟩
  refine ⟨label_graph, vitrine_sent unlabelled_run, .child .self vitrine_hasExhibit, hempty,
    ⟨"nova", "Exhibit", "1.0", [("id", .int 1)], []⟩, rfl, fun h => ?_⟩
  exact Primitive.not_carriesEmpty _ (h ▸ hempty)

end Vitrine

end Skew

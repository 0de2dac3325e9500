import Skew.Proofs.CatalogEntities

/-!
# Older nodes of the catalog

An old node of the catalog can read whatever a newer one backports for it
(`Built.read_by_older`).

The tables count children like their owners, so all of a graph is sent to a node of one release
`w`: an entity that is newer than `w` as a backport, the others as they are, stamped with the
older of the two versions (`SentTo`). What stands in such data is exactly what the definition at
`w` declares (`Catalogued.trimmed`); the walk is never blocked on the way (`not_blocked`). On the
other side the tables promise the same release for every type (`Promised.defines`), so the
registry resolves each stamped version to the definition at `w`. Reading then goes by induction on
the nesting of entities, one entity being the business of `Entity.read_reduced`.
-/

namespace Skew

section

variable [Codecs]

namespace Catalog

/-! ## What is sent -/

/-- The data of an entity for a node of a release: a backport if the entity is newer, else what
it writes. -/
def DataFor (e : Entity) (w : Version) (data : Members) : Prop :=
  (w.release < e.version.release ∧ e.Backport w data) ∨
    (e.version.release ≤ w.release ∧ e.data = .ok data)

/-- The document is that of the entity for a node of a release, stamped with the older of the
versions. -/
def SentTo (w : Version) (d : Entity) (j : Json) : Prop :=
  ∃ data, DataFor d w data ∧ Primitive.Document (d.wrap (older d.version w) data) j

/-- The entry of a composed field. -/
inductive Entry (w : Version) : Value → Json → Prop
  | null : Entry w .null .null
  | one {d : Entity} {j : Json} (hd : SentTo w d j) : Entry w (.entity d) j
  | many {ds : List Entity} {js : List Json} (hds : List.Forall₂ (SentTo w) ds js) :
      Entry w (.list (ds.map .entity)) (.arr js)

/-- The data of an entity for a release is what a definition declares. -/
structure Trimmed (e : Entity) (w : Version) (t : Schema) (data : Members) : Prop where
  ascending : Record.Ascending data
  contains : ∀ n, Record.contains data n = true ↔ e.isSet n = true ∧ n ∈ t.fieldNames
  plain : ∀ n f x j, e.schema.field? n = some f → f.kind.isObject = false →
    Record.get? e.values n = some x → Record.get? data n = some j → x.write n f.kind = .ok j
  composed : ∀ n x j, e.composed? n = some x → Record.get? data n = some j → Entry w x j

section

variable {store : String} {e : Entity} (he : Catalogued store e)
include he

/-- The data for a node that is no older. -/
theorem Catalogued.trimmed_raw (hstep : InStep e) {w : Version} {t : Schema}
    (ht : Defines store e.schema.name w t) (hle : e.version.release ≤ w.release) {data : Members}
    (hdata : e.data = .ok data) : Trimmed e w t data := by
  obtain ⟨hcontains, hwritten⟩ := Entity.written he.wellFormed hdata
  have hasc := ((Entity.data_eq_ok_iff he.wellFormed.schema.fields).mp hdata).1
  refine ⟨hasc, ?_, ?_, ?_⟩
  · intro n
    rw [hcontains n]
    refine ⟨fun hset => ⟨hset, ?_⟩, And.left⟩
    exact he.defined.mem_fieldNames_mono ht hle (he.wellFormed.declared n hset)
  · intro n f x j hf _ hx hj
    exact hwritten n f x j hf hx hj
  · intro n x j hx hj
    obtain ⟨f, hf, hkind, hvalue, hstored⟩ := he.composed hx
    have hcomposes := Field.composes hkind (Or.inr hstored) (hwritten n f x j hf hvalue hj)
    have hsent (d : Entity) (hd : d ∈ x.children) (p : Primitive) (hp : d.write = .ok p) :
        SentTo w d p.toJson := by
      rw [Entity.write_eq] at hp
      obtain ⟨data, hdata, rfl⟩ := Except.map_eq_ok_iff.mp hp
      have hbound := Nat.le_trans (he.child_le hstep hx hd) hle
      refine ⟨data, Or.inr ⟨hbound, hdata⟩, ?_⟩
      rw [older_of_ge hbound]
      exact .full
    cases hcomposes with
    | null => exact .null
    | @entity d p hp => exact .one (hsent d (List.mem_singleton.mpr rfl) p hp)
    | @list ds js hwrite =>
        rw [Value.children_list] at hsent
        refine .many (List.forall₂_iff_zip.mpr ⟨hwrite.length_eq, ?_⟩)
        intro d j hdj
        obtain ⟨p, hp, rfl⟩ := List.forall₂_zip hwrite hdj
        exact hsent d (List.of_mem_zip hdj).1 p hp

omit he in
/-- What is adapted for the first release is newer. -/
theorem Catalogued.newer_of_isAdapted {d : Entity} (hd : Catalogued store d) {past : Bool}
    (h : d.IsAdapted past (release 1 0)) : (release 1 0).release < d.version.release := by
  have hother := h.2
  rcases releases_cases hd.defined.1 with hversion | hversion | hversion <;>
    rw [hversion] at hother ⊢
  · exact absurd hother (by decide)
  · decide
  · decide

omit he in
/-- A child travels to the first release as it is sent to a node of that release. -/
theorem SentTo.of_travels {d : Entity} (hd : Catalogued store d)
    (hfirst : release 1 0 ∈ releases d.schema.name) {j : Json}
    (h : d.Travels false (release 1 0) j) : SentTo (release 1 0) d j := by
  unfold SentTo
  rw [older_of_le hd.defined.1 hfirst (first_le_release hd.defined.1)]
  cases h with
  | @stamped _ _ _ p hwrite hbound hexact =>
      rw [Entity.write_eq] at hwrite
      obtain ⟨raw, hraw, rfl⟩ := Except.map_eq_ok_iff.mp hwrite
      have hsame : d.version = release 1 0 := release_exact hd.defined.1 hfirst hexact
      exact ⟨raw, Or.inr ⟨by rw [hsame], hraw⟩, .full⟩
  | @adapted _ _ _ p slots data hwrite hadapted hslots hhook =>
      rw [Entity.write_eq] at hwrite
      obtain ⟨raw, hraw, rfl⟩ := Except.map_eq_ok_iff.mp hwrite
      refine ⟨data, Or.inl ⟨hd.newer_of_isAdapted hadapted, slots, hslots, hhook⟩, ?_⟩
      -- Markers name set fields, so the first document has them all.
      have hchanges : (d.wrap d.version raw).changes = d.whatChanged := by
        refine List.filter_eq_self.mpr ?_
        intro n hn
        rw [(Entity.written hd.wellFormed hraw).1 n]
        exact hd.wellFormed.isSet_of_mem_whatChanged hn
      have hdocument := Primitive.adapted_document (d.wrap d.version raw) (release 1 0) data
      rw [hchanges] at hdocument
      exact hdocument

/-- A composed field for an older release: that is the first, and so is the goal of the
children. -/
theorem Catalogued.goal (hgraph : ∀ d ∈ e.graph, Catalogued store d) {w : Version}
    (hw : w ∈ releases e.schema.name) (hnewer : w.release < e.version.release) {n : String}
    {x : Value} (hx : e.composed? n = some x) : w = release 1 0 ∧
      (∃ table, e.schema.relationship? n = some table ∧ table ≠ [] ∧
        table.childAt? w = some w ∧ table.isPast w = false) ∧
      ∀ d ∈ x.children, w ∈ releases d.schema.name ∧ ∀ x ∈ d.graph, Catalogued store x := by
  obtain ⟨f, hf, hkind, hvalue, hstored⟩ := he.composed hx
  obtain ⟨hreleases, -⟩ := (he.holding hf hvalue).2.releases hkind
  have hfirst : w = release 1 0 := by
    have hversion := he.defined.1
    have hreleased := hw
    rw [hreleases] at hreleased hversion
    simp only [List.mem_cons, List.not_mem_nil, or_false] at hreleased hversion
    rcases hreleased with rfl | rfl
    · rfl
    · rcases hversion with hversion | hversion <;> rw [hversion] at hnewer <;>
        exact absurd hnewer (by decide)
  obtain ⟨table, htable, hne, hrows⟩ := he.defined.table hf hkind
  refine ⟨hfirst, ⟨table, htable, hne, hrows w hw (Nat.le_of_lt hnewer)⟩, ?_⟩
  intro d hd
  exact ⟨he.child_released hf hvalue hkind hd hw, Entity.forall_graph_child hgraph hvalue hd⟩

/-- The entry of a composed field for an older release. -/
theorem Catalogued.slot (hgraph : ∀ d ∈ e.graph, Catalogued store d) {w : Version}
    (hw : w ∈ releases e.schema.name) (hnewer : w.release < e.version.release)
    {slots : Members} (hslots : e.Slots w slots) {n : String} {x : Value}
    (hx : e.composed? n = some x) : ∃ j, Record.get? slots n = some j ∧ Entry w x j := by
  obtain ⟨rfl, ⟨table, htable, hne, hgoal, hpast⟩, hchildren⟩ := he.goal hgraph hw hnewer hx
  have hsent (d : Entity) (hd : d ∈ x.children) (j : Json)
      (h : d.Travels (table.isPast (release 1 0)) (release 1 0) j) : SentTo (release 1 0) d j := by
    obtain ⟨hfirst, hnested⟩ := hchildren d hd
    rw [hpast] at h
    exact .of_travels (hnested d d.self_mem_graph) hfirst h
  cases hslots with
  | intro hraw hasc hplain htables hcomposed =>
      have hslot := hcomposed n x table hx htable
      generalize Record.get? slots n = slot at hslot
      cases hslot with
      | absent hafter =>
          have hnone := (Relationship.childAt?_eq_none_iff
            (he.defined.wellFormed.relationship htable)).mpr hafter
          rw [hgoal] at hnone
          cases hnone
      | null => exact ⟨.null, rfl, .null⟩
      | @entity _ _ goal d j hgoal' hchild =>
          rw [hgoal] at hgoal'
          cases hgoal'
          exact ⟨j, rfl, .one (hsent d (List.mem_singleton.mpr rfl) j hchild)⟩
      | @list _ _ goal ds js hgoal' hlength hchild =>
          rw [hgoal] at hgoal'
          cases hgoal'
          rw [Value.children_list] at hsent
          refine ⟨.arr js, rfl, .many (List.forall₂_iff_zip.mpr ⟨hlength, ?_⟩)⟩
          intro d j hdj
          exact hsent d (List.of_mem_zip hdj).1 j (hchild d j hdj)

/-- Before the hook the data still has all that is set. -/
theorem Catalogued.trimmed_slots (hgraph : ∀ d ∈ e.graph, Catalogued store d) {w : Version}
    (hw : w ∈ releases e.schema.name) (hnewer : w.release < e.version.release) {slots : Members}
    (hslots : e.Slots w slots) : Trimmed e w e.schema slots := by
  have hslot (n : String) (x : Value) (hx : e.composed? n = some x) :=
    he.slot hgraph hw hnewer hslots hx
  cases hslots with
  | intro hraw hasc hplain htables hcomposed =>
      obtain ⟨hcontains, hwritten⟩ := Entity.written he.wellFormed hraw
      refine ⟨hasc, ?_, ?_, ?_⟩
      · intro n
        have hset : Record.contains slots n = e.isSet n := by
          cases hx : e.composed? n with
          | none => rw [Record.contains, hplain n hx, ← Record.contains, hcontains n]
          | some x =>
              obtain ⟨j, hj, -⟩ := hslot n x hx
              obtain ⟨f, -, -, hvalue, -⟩ := he.composed hx
              rw [Entity.isSet, Record.contains, Record.contains, hj, hvalue]
              rfl
        rw [hset]
        exact ⟨fun hset => ⟨hset, he.wellFormed.declared n hset⟩, And.left⟩
      · intro n f x j hf hkind hx hj
        have hnone : e.composed? n = none := by
          rw [Entity.composed?, hf, Option.bind_some, hkind]
          rfl
        rw [hplain n hnone] at hj
        exact hwritten n f x j hf hx hj
      · intro n x j hx hj
        obtain ⟨j', hj', hentry⟩ := hslot n x hx
        rw [hj] at hj'
        cases hj'
        exact hentry

omit he in
theorem Trimmed.undeclared {w : Version} {slots : Members} (h : Trimmed e w e.schema slots)
    {n : String} (hn : n ∉ e.schema.fieldNames) : Record.get? slots n = none := by
  cases hj : Record.get? slots n with
  | none => rfl
  | some j => exact absurd ((h.contains n).mp (Record.contains_iff.mpr ⟨j, hj⟩)).2 hn

/-- The data at an older release. -/
theorem Catalogued.trimmed_backport (hgraph : ∀ d ∈ e.graph, Catalogued store d) {w : Version}
    {t : Schema} (ht : Defines store e.schema.name w t) (hnewer : w.release < e.version.release)
    {data : Members} (hdata : e.Backport w data) : Trimmed e w t data := by
  obtain ⟨slots, hslots, hhook⟩ := hdata
  have hslots := he.trimmed_slots hgraph ht.1 hnewer hslots
  have hends := he.defined.runHook ht hslots.ascending fun n hn => hslots.undeclared hn
  rw [Edit.Ends, hhook] at hends
  obtain ⟨hasc, hget⟩ := hends
  have hkept (n : String) (j : Json) (hj : Record.get? data n = some j) :
      Record.get? slots n = some j := by
    rw [hget n] at hj
    split at hj
    · exact hj
    · cases hj
  refine ⟨hasc, ?_, ?_, ?_⟩
  · intro n
    rw [Record.contains, hget n]
    split
    · next hn =>
        rw [← Record.contains, hslots.contains n]
        refine and_congr_right fun hset => ?_
        exact iff_of_true (he.wellFormed.declared n hset) hn
    · next hn => exact iff_of_false Bool.false_ne_true fun h => hn h.2
  · intro n f x j hf hkind hx hj
    exact hslots.plain n f x j hf hkind hx (hkept n j hj)
  · intro n x j hx hj
    exact hslots.composed n x j hx (hkept n j hj)

/-- The data for a node of any release is what the definition of that release declares. -/
theorem Catalogued.trimmed (hstep : InStep e) (hgraph : ∀ d ∈ e.graph, Catalogued store d)
    {w : Version} {t : Schema} (ht : Defines store e.schema.name w t) {data : Members}
    (hdata : DataFor e w data) : Trimmed e w t data := by
  rcases hdata with ⟨hnewer, hdata⟩ | ⟨hle, hdata⟩
  · exact he.trimmed_backport hgraph ht hnewer hdata
  · exact he.trimmed_raw hstep ht hle hdata

/-! ## Nothing is in the way -/

omit he in
/-- An entity of the catalog is not blocked from an older release. -/
theorem not_blocked {w : Version} {err : EntityError} (h : e.Blocked w err)
    (hgraph : ∀ d ∈ e.graph, Catalogued store d) (hw : w ∈ releases e.schema.name)
    (hnewer : w.release < e.version.release) : False := by
  induction h with
  | @noRule e w n x hset htable =>
      have he := hgraph e e.self_mem_graph
      obtain ⟨f, hf, hkind, -⟩ := he.composed hset
      obtain ⟨table, htable', hne, -⟩ := he.defined.table hf hkind
      rw [htable'] at htable
      exact hne htable
  | @child e w n x table goal d err hset htable hgoal hd hadapted herr ih =>
      have he := hgraph e e.self_mem_graph
      obtain ⟨rfl, ⟨table', htable', -, hgoal', hpast⟩, hchildren⟩ := he.goal hgraph hw hnewer hset
      rw [htable] at htable'
      cases htable'
      rw [hgoal] at hgoal'
      cases hgoal'
      obtain ⟨hfirst, hnested⟩ := hchildren d hd
      exact ih hnested hfirst ((hnested d d.self_mem_graph).newer_of_isAdapted hadapted)
  | @hook e w slots data err hslots hhook =>
      have he := hgraph e e.self_mem_graph
      obtain ⟨t, ht⟩ := exists_defines store hw
      have hslots := he.trimmed_slots hgraph hw hnewer hslots
      have hends := he.defined.runHook ht hslots.ascending fun n hn => hslots.undeclared hn
      rw [Edit.Ends, hhook] at hends
      exact hends

omit he in
/-- For each release up to its own there is data of an entity, and it is written. -/
theorem exists_data (hgraph : ∀ d ∈ e.graph, Catalogued store d ∧ Timed d) {w : Version}
    (hw : w ∈ releases e.schema.name) (hle : w.release ≤ e.version.release) :
    ∃ data, DataFor e w data ∧ e.writeFor (some w) = .ok (e.wrap w data) := by
  have he := (hgraph e e.self_mem_graph).1
  have hreturns : e.Returns (Registry.empty.registerAll (definitions store)) none :=
    Entity.returns fun d hd => (hgraph d hd).1.writable (hgraph d hd).2
  obtain ⟨p, hwrite, -⟩ := hreturns
  have hwritten := hwrite
  rw [Entity.write_eq] at hwritten
  obtain ⟨raw, hraw, rfl⟩ := Except.map_eq_ok_iff.mp hwritten
  rcases Nat.lt_or_eq_of_le hle with hnewer | hsame
  · have hother : w.isExactly e.version = false := by
      rw [Bool.eq_false_iff]
      intro hexact
      rw [release_exact hw he.defined.1 hexact] at hnewer
      exact Nat.lt_irrefl _ hnewer
    have hends := Entity.makeCompatible_ends (fun d hd => (hgraph d hd).1.inForm) w hraw
    have hrun := Entity.writeAt_eq hraw w
    unfold Edit.Ends at hends
    rw [Entity.writeFor, hother, if_neg Bool.false_ne_true, hrun]
    rcases hend : e.makeCompatible w raw with ⟨err | ⟨⟩, data⟩
    · rw [hend] at hends
      exact (not_blocked hends (fun d hd => (hgraph d hd).1) hw hnewer).elim
    · rw [hend] at hends
      exact ⟨data, Or.inl ⟨hnewer, hends⟩, rfl⟩
  · cases release_injOn hw he.defined.1 hsame
    have hexact := Version.isExactly_self e.version
    rw [Entity.writeFor, hexact, if_pos rfl]
    exact ⟨raw, Or.inr ⟨Nat.le_refl _, hraw⟩, hwrite⟩

end

/-! ## Field by field -/

/-- The entry of a field, with the kind that reads it. -/
inductive Sent (w : Version) (n : String) (f : Field) : Value → Json → Prop
  | inert {x : Value} {j : Json} (hx : x.Inert f.kind) (hwrite : x.write n f.kind = .ok j) :
      Sent w n f x j
  | null (hnullable : f.isNullable = true) : Sent w n f .null .null
  | one {d : Entity} {j : Json} (hkind : f.kind = .object d.schema.name) (hd : SentTo w d j) :
      Sent w n f (.entity d) j
  | many {type : String} {ds : List Entity} {js : List Json} (hkind : f.kind = .listOfObjects type)
      (htypes : ∀ d ∈ ds, d.schema.name = type) (hds : List.Forall₂ (SentTo w) ds js) :
      Sent w n f (.list (ds.map .entity)) (.arr js)

/-- What stands under a name was sent for the value of the field. -/
theorem Catalogued.sent {store : String} {e : Entity} (he : Catalogued store e) {w : Version}
    {t : Schema} {data : Members} (hdata : Trimmed e w t data) {n : String} {f : Field} {x : Value}
    {j : Json} (hf : e.schema.field? n = some f) (hx : Record.get? e.values n = some x)
    (hj : Record.get? data n = some j) : Sent w n f x j := by
  obtain ⟨-, hholding⟩ := he.holding hf hx
  have hentry (hkind : f.kind.isObject = true) : Entry w x j := by
    refine hdata.composed n x j ?_ hj
    rw [Entity.composed?, hf, Option.bind_some, if_pos hkind, hx]
  cases hholding with
  | inert hflat hinert => exact .inert hinert (hdata.plain n f x j hf hflat.isObject hx hj)
  | null hkind hnullable =>
      cases hentry hkind
      exact .null hnullable
  | one hkind =>
      cases hentry (by rw [hkind]; rfl) with
      | one hd => exact .one hkind hd
  | many hkind hvs =>
      cases hentry (by rw [hkind]; rfl) with
      | many hds =>
          refine .many hkind ?_ hds
          intro d hd
          obtain ⟨d', hd', htype⟩ := hvs _ (List.mem_map_of_mem hd)
          cases hd'
          exact htype

/-- The data of an entity, entry by entry. -/
theorem Catalogued.exists_sent {store : String} {e : Entity} (he : Catalogued store e) {w : Version}
    {t : Schema} {data : Members} (hdata : Trimmed e w t data) {n : String} {j : Json}
    (hj : Record.get? data n = some j) : ∃ f x, e.schema.field? n = some f ∧
      Record.get? e.values n = some x ∧ n ∈ t.fieldNames ∧ Sent w n f x j := by
  obtain ⟨hset, hn⟩ := (hdata.contains n).mp (Record.contains_iff.mpr ⟨j, hj⟩)
  obtain ⟨x, hx⟩ := Record.contains_iff.mp hset
  obtain ⟨f, hf, -⟩ := he.stored n x hx
  exact ⟨f, x, hf, hx, hn, he.sent hdata hf hx hj⟩

/-! ## What an older node finds -/

/-- An entity of the catalog with children in step and instants that the wire shows in full. -/
structure Ready (store : String) (e : Entity) : Prop extends Catalogued store e where
  inStep : InStep e
  timed : Timed e

/-- A primitive has only keys that the definition of its version declares. -/
def Conforms (store : String) (p : Primitive) : Prop :=
  ∃ v s, Version.ofText p.version = .ok v ∧ Defines store p.name v s ∧
    ∀ n, Record.contains p.data n = true → n ∈ s.fieldNames

/-- The older of two definitions declares what is set and declared by the newer. -/
theorem Catalogued.conforms {store : String} {e : Entity} (he : Catalogued store e) {w : Version}
    {t : Schema} (ht : Defines store e.schema.name w t) {data : Members}
    (hdata : Trimmed e w t data) : Conforms store (e.wrap (older e.version w) data) := by
  refine ⟨older e.version w, ?_⟩
  unfold older
  split
  · exact ⟨t, Version.ofText_text w, ht, fun n hn => ((hdata.contains n).mp hn).2⟩
  · exact ⟨e.schema, Version.ofText_text e.version, he.defined,
      fun n hn => he.wellFormed.declared n ((hdata.contains n).mp hn).1⟩

/-- Every primitive that an entity is sent with conforms. -/
theorem carries {store : String} {e : Entity} (hgraph : ∀ d ∈ e.graph, Ready store d)
    {w : Version} (hw : w ∈ releases e.schema.name) {j : Json} (hj : SentTo w e j) :
    j.Carries (Conforms store) := by
  induction e using Entity.nested generalizing j with
  | h e ih =>
      obtain ⟨data, hdata, hj⟩ := hj
      have he := hgraph e e.self_mem_graph
      obtain ⟨t, ht⟩ := exists_defines store hw
      have htrimmed := he.trimmed he.inStep (fun d hd => (hgraph d hd).toCatalogued) ht hdata
      have hchild {n : String} {f : Field} {x : Value} (hf : e.schema.field? n = some f)
          (hx : Record.get? e.values n = some x) (hkind : f.kind.isObject = true) {d : Entity}
          (hd : d ∈ x.children) {i : Json} (hsent : SentTo w d i) : i.Carries (Conforms store) := by
        exact ih (n, x) (Record.mem_of_get? hx) d (Value.mem_graph_of_mem_children hd)
          (Entity.forall_graph_child hgraph hx hd) (he.child_released hf hx hkind hd hw) hsent
      refine hj.carries (he.conforms ht htrimmed) ?_ ?_
      · rintro ⟨n, i⟩ hi
        obtain ⟨f, x, hf, hx, -, hsent⟩ :=
          he.exists_sent htrimmed (Record.get?_of_mem htrimmed.ascending.nodup hi)
        cases hsent with
        | inert hinert hwrite => exact hinert.bare n i hwrite _
        | null => exact .leaf rfl rfl
        | one hkind hd => exact hchild hf hx (by rw [hkind]; rfl) (List.mem_singleton.mpr rfl) hd
        | @many _ ds js hkind _ hds =>
            refine .arr ?_
            intro i hi
            obtain ⟨d, hd, hsent⟩ := List.exists_of_mem_forall₂ hds hi
            refine hchild hf hx (by rw [hkind]; rfl) ?_ hsent
            rwa [Value.children_list]
      · cases hspace : Record.get? data Primitive.spaceKey with
        | none => exact hspace
        | some i =>
            obtain ⟨-, hn⟩ := (htrimmed.contains _).mp (Record.contains_iff.mpr ⟨i, hspace⟩)
            obtain ⟨p, hp, -, hname⟩ := ht.mem_fieldNames_iff.mp hn
            exact absurd hname (line_ne_space _ p hp)

/-! ## What an older node knows -/

/-- What a node is promised to get from a root that is sent at a release: data for the root's
definition, and for those of the children at the versions that the tables give. -/
inductive Promised (store name : String) (w : Version) : Schema → Prop
  | root {s : Schema} (hs : Defines store name w s) : Promised store name w s
  | child {s owner t : Schema} {v goal : Version} {n type : String} {f : Field}
      {table : Relationship} (hs : Promised store name w s) (howner : Defines store s.name v owner)
      (hle : s.version.release ≤ v.release) (hf : owner.field? n = some f)
      (htype : f.kind.child? = some type) (htable : owner.relationship? n = some table)
      (hgoal : table.childAt? s.version = some goal) (ht : Defines store type goal t) :
      Promised store name w t

omit [Codecs] in
/-- The tables count alike, so all are promised at the same release. -/
theorem Promised.defines {store name : String} {w : Version} {s : Schema}
    (h : Promised store name w s) : Defines store s.name w s := by
  induction h with
  | root hs => rwa [hs.name]
  | @child s owner t v goal n type f table hs howner hle hf htype htable hgoal ht ih =>
      have hkind := Kind.isObject_of_child? htype
      obtain ⟨table', htable', -, hrows⟩ := howner.table hf hkind
      rw [htable] at htable'
      cases htable'
      rw [ih.version] at hgoal hle
      rw [(hrows w ih.1 hle).1] at hgoal
      cases hgoal
      rwa [ht.name]

omit [Codecs] in
/-- Beside the root, only metrics and lists of them are promised. -/
theorem Promised.name_cases {store name : String} {w : Version} {s : Schema}
    (h : Promised store name w s) :
    s.name = name ∨ s.name ∈ ["MonitorMetric", "MonitorMetricList"] := by
  cases h with
  | root hs => exact Or.inl hs.name
  | child hs howner hle hf htype htable hgoal ht =>
      obtain ⟨p, hp, -, hpf⟩ := howner.field?_iff.mp hf
      refine Or.inr ?_
      rw [ht.name]
      exact line_child _ p hp _ (by rw [hpf]; exact htype)

/-- The registry holds just what is promised. -/
def Knows (registry : Registry) (store name : String) (w : Version) : Prop :=
  ∀ type s, s ∈ registry.schemas type ↔ s.name = type ∧ Promised store name w s

omit [Codecs] in
theorem Knows.resolve {registry : Registry} {store name : String} {w v : Version}
    (h : Knows registry store name w) {t : Schema} (ht : Promised store name w t)
    (hv : v ∈ releases t.name) (hle : v.release ≤ w.release) :
    registry.resolve t.name v = .ok t := by
  refine Registry.resolve_of_unique ((h t.name t).mpr ⟨rfl, ht⟩) ?_ ?_
  · intro s hs
    obtain ⟨hname, hs⟩ := (h t.name s).mp hs
    have hdefines := hs.defines
    rw [hname] at hdefines
    exact hdefines.unique ht.defines
  · rw [ht.defines.version]
    exact release_accepts hv ht.defines.1 hle

/-- With the owner of a child, the type of the child is promised. -/
theorem Promised.of_child {store away name : String} {w : Version} {t : Schema}
    (ht : Promised away name w t) {e : Entity} (he : Catalogued store e)
    (hname : t.name = e.schema.name) {n : String} {f : Field} {x : Value}
    (hf : e.schema.field? n = some f) (hx : Record.get? e.values n = some x) {d : Entity}
    (hd : d ∈ x.children) (htype : f.kind.child? = some d.schema.name) :
    ∃ u, Promised away name w u ∧ u.name = d.schema.name := by
  have hkind := Kind.isObject_of_child? htype
  have hdefines : Defines away e.schema.name w t := hname ▸ ht.defines
  have hfield := he.defined.field?_composed hdefines hf hkind
  obtain ⟨table, htable, -, hrows⟩ := hdefines.table hfield hkind
  obtain ⟨u, hu⟩ := exists_defines away (he.child_released hf hx hkind hd hdefines.1)
  refine ⟨u, .child ht ht.defines (by rw [ht.defines.version]) hfield htype htable ?_ hu, hu.name⟩
  rw [ht.defines.version]
  exact (hrows w hdefines.1 (Nat.le_refl _)).1

/-! ## Reading -/

/-- How a node of a release finds an entity: by the promised definition, at the older of the
versions. -/
structure FoundAt (store name : String) (w : Version) (e e' : Entity) : Prop where
  promised : Promised store name w e'.schema
  version : e'.version = older e.version w

section

variable {registry : Registry} {store away name : String} {w : Version} {c? : Option Context}

/-- An inert value is read as it is. -/
theorem Ready.take_inert {e : Entity} (he : Ready store e) {n : String} {f : Field} {x : Value}
    (hf : e.schema.field? n = some f) (hx : Record.get? e.values n = some x)
    (hinert : x.Inert f.kind) {j : Json} (hwrite : x.write n f.kind = .ok j) :
    f.take n (j.reading registry c?) = .ok x := by
  obtain ⟨hstored, hholding⟩ := he.holding hf hx
  have hexact := hholding.exact (he.timed _ (Record.mem_of_get? hx))
  have hnested : ∀ d ∈ x.graph, d.Returns registry c? := by
    rw [hinert.graph]
    exact List.forall_mem_nil _
  obtain ⟨j', hwrite', htake⟩ := Field.reads_back hstored (he.defined.offered hf).lossless
    (Kind.keeps_of_exact hexact hnested) n
  rw [hwrite] at hwrite'
  cases hwrite'
  rwa [Value.received_of_graph_nil c? hinert.graph] at htake

/-- A node that knows what is promised reads the data of an entity as its reduction. -/
theorem Knows.reads (hknows : Knows registry away name w) {e : Entity}
    (hgraph : ∀ d ∈ e.graph, Ready store d) {t : Schema} (ht : Promised away name w t)
    (hname : t.name = e.schema.name) {data : Members} (hdata : DataFor e w data) :
    ∃ e', Entity.ofPrimitive registry c? (e.wrap (older e.version w) data) = .ok e' ∧
      e.Reduces (FoundAt away name w) c? e' := by
  induction e using Entity.nested generalizing t data with
  | h e ih =>
      have he := hgraph e e.self_mem_graph
      have hdefines : Defines away e.schema.name w t := hname ▸ ht.defines
      obtain ⟨s, hs⟩ := exists_defines store hdefines.1
      have htrimmed := he.trimmed he.inStep (fun d hd => (hgraph d hd).toCatalogued) hs hdata
      have hchild {n : String} {f : Field} {x : Value} (hf : e.schema.field? n = some f)
          (hx : Record.get? e.values n = some x) {d : Entity} (hd : d ∈ x.children)
          (htype : f.kind.child? = some d.schema.name) {j : Json} (hsent : SentTo w d j) :
          ∃ d', j.Reads registry c? d' ∧ d.Reduces (FoundAt away name w) c? d' := by
        obtain ⟨data', hdata', hdocument⟩ := hsent
        obtain ⟨t', ht', htname⟩ := ht.of_child he.toCatalogued hname hf hx hd htype
        obtain ⟨d', hread, hreduces⟩ := ih (n, x) (Record.mem_of_get? hx) d
          (Value.mem_graph_of_mem_children hd) (Entity.forall_graph_child hgraph hx hd) ht' htname
          hdata'
        exact ⟨d', Json.entity_eq_ok_iff.mpr ⟨_, hdocument.ofJson, hread⟩, hreduces⟩
      refine Entity.read_reduced he.wellFormed ?_ hname hdefines.wellFormed.fields ?_ ?_ ?_
      · have hmem := older_mem he.defined.1 hdefines.1
        rw [← hname] at hmem ⊢
        exact hknows.resolve ht hmem (older_le _ _)
      · intro e' hschema hversion
        exact ⟨hschema ▸ ht, hversion⟩
      · intro n
        rw [htrimmed.contains n, hs.mem_fieldNames_iff, hdefines.mem_fieldNames_iff]
      · intro n f x j hf hx hj
        obtain ⟨g, hg, -⟩ := he.stored n x hx
        cases hdefines.field?_eq he.defined hf hg
        cases he.sent htrimmed hg hx hj with
        | inert hinert hwrite =>
            exact ⟨x, he.take_inert hg hx hinert hwrite, .same hinert.graph⟩
        | null hnullable =>
            have hnull : f.coerce .null = .ok .null :=
              Field.coerce_null_eq_ok_iff.mpr (Or.inl ⟨hnullable, rfl⟩)
            exact ⟨.null, Field.take_null hnull n, .same rfl⟩
        | @one d _ hkind hd =>
            obtain ⟨d', hread, hreduces⟩ :=
              hchild hg hx (List.mem_singleton.mpr rfl) (by rw [hkind]; rfl) hd
            exact ⟨.entity d', hread.take (by rw [hkind, hreduces.name]) n, .entity hreduces⟩
        | @many type ds js hkind htypes hds =>
            obtain ⟨ds', hreads, hreduces⟩ := List.exists_forall₂_of_forall₂ hds
              fun d hd j hsent => hchild hg hx (by rwa [Value.children_list])
                (by rw [hkind, htypes d hd]; rfl) hsent
            refine ⟨.list (ds'.map .entity), Json.take_list hreads hkind ?_ n, .list hreduces⟩
            intro d' hd'
            obtain ⟨d, hd, hreduced⟩ := List.exists_of_mem_forall₂ hreduces hd'
            rw [hreduced.name, htypes d hd]

/-- **Older nodes.** An entity of the catalog, with children no newer than their tables give and
instants that the wire shows in full, is sent to a node of any release up to its own. Every
primitive in what is sent has only keys that are declared at the version it is stamped with, and
a node that knows just what the tables promise reads it as a reduction of the entity: by its own
definitions, each entity at the older of its version and the release. -/
theorem Built.read_by_older {e : Entity} (he : Built store e) (hstep : ∀ d ∈ e.graph, InStep d)
    (htimes : ∀ d ∈ e.graph, Timed d) (hw : w ∈ releases e.schema.name)
    (hle : w.release ≤ e.version.release) (hknows : Knows registry away e.schema.name w)
    (c? : Option Context) :
    ∃ p e', e.writeFor (some w) = .ok p ∧ p.version = w.text ∧
      p.toJson.Carries (Conforms store) ∧ Entity.ofJson registry c? p.toJson = .ok e' ∧
      e'.version = w ∧ e.Reduces (FoundAt away e.schema.name w) c? e' := by
  have hcatalogued := he.catalogued
  have hgraph : ∀ d ∈ e.graph, Ready store d := fun d hd =>
    ⟨hcatalogued d hd, hstep d hd, htimes d hd⟩
  obtain ⟨data, hdata, hwrite⟩ := exists_data (fun d hd => ⟨hcatalogued d hd, htimes d hd⟩) hw hle
  obtain ⟨t, ht⟩ := exists_defines away hw
  have hstamp : older e.version w = w :=
    older_of_le (hcatalogued e e.self_mem_graph).defined.1 hw hle
  obtain ⟨e', hread, hreduces⟩ := hknows.reads hgraph (.root ht) ht.name hdata
  have hsent : SentTo w e (e.wrap w data).toJson := ⟨data, hdata, by rw [hstamp]; exact .full⟩
  rw [hstamp] at hread
  exact ⟨e.wrap w data, e', hwrite, rfl, carries hgraph hw hsent,
    (Json.entity_toJson registry c? _).trans hread, hstamp ▸ hreduces.fits.version, hreduces⟩

end

end Catalog

end

/-! ## A rollout

A node of the second release sends a build request, with a list of one metric that has a newer
field, to a node that still has the first. -/

namespace Catalog

namespace Rollout

attribute [local instance] Codecs.none

/-- The stores of the two nodes. -/
def store : String := "main"

def away : String := "away"

def metric : Entity :=
  ⟨metricSchema (release 1 1) [bandwidth], release 1 1, none,
    [("numa_membw_values", .map [("node0", .int 7)]), ("timestamp", .datetime ⟨0, 0⟩)],
    ["numa_membw_values", "timestamp"]⟩

def metrics : Entity :=
  ⟨metricListSchema (release 1 1) secondRows, release 1 1, none,
    [("objects", .list [.entity metric])], ["objects"]⟩

def request : Entity :=
  ⟨requestSchema (release 1 1) secondRows, release 1 1, none,
    [("id", .int 7), ("metrics", .entity metrics)], ["id", "metrics"]⟩

theorem defines {s : Schema} (hs : s ∈ definitions store) : Defines store s.name s.version s :=
  defines_iff.mpr ⟨hs, rfl, rfl⟩

theorem metric_built : Built store metric := by
  have hnew : Built store (.ofSchema (metricSchema (release 1 1) [bandwidth])) :=
    .new (defines (by simp [definitions]))
  have hfirst := hnew.set (n := "numa_membw_values") (v := .map [("node0", .int 7)])
    (by simp [Value.graph, Value.entryGraph]) rfl
  exact hfirst.set (n := "timestamp") (v := .datetime ⟨0, 0⟩) (List.forall_mem_nil _) rfl

theorem graph_request : request.graph = [request, metrics, metric] := rfl

theorem metrics_built : Built store metrics := by
  have hnew : Built store (.ofSchema (metricListSchema (release 1 1) secondRows)) :=
    .new (defines (by simp [definitions]))
  have hmetric : ∀ d ∈ (Value.list [.entity metric]).graph, Built store d :=
    List.forall_mem_singleton.mpr metric_built
  exact hnew.set (n := "objects") hmetric rfl

theorem request_built : Built store request := by
  have hnew : Built store (.ofSchema (requestSchema (release 1 1) secondRows)) :=
    .new (defines (by simp [definitions]))
  have hnumbered := hnew.set (n := "id") (v := .int 7) (List.forall_mem_nil _) rfl
  have hmetrics : ∀ d ∈ (Value.entity metrics).graph, Built store d :=
    List.forall_mem_cons.mpr ⟨metrics_built, List.forall_mem_singleton.mpr metric_built⟩
  exact hnumbered.set (n := "metrics") hmetrics rfl

theorem request_inStep : ∀ d ∈ request.graph, InStep d := by
  rw [graph_request]
  simp only [List.forall_mem_cons]
  refine ⟨.of_values ?_, .of_values ?_, .of_values ?_, List.forall_mem_nil _⟩
  · exact List.forall_mem_cons.mpr ⟨nofun, List.forall_mem_singleton.mpr
      (List.forall_mem_singleton.mpr ⟨secondRows, release 1 1, rfl, by decide, by decide⟩)⟩
  · exact List.forall_mem_singleton.mpr
      (List.forall_mem_singleton.mpr ⟨secondRows, release 1 1, rfl, by decide, by decide⟩)
  · exact List.forall_mem_cons.mpr ⟨nofun, List.forall_mem_singleton.mpr nofun⟩

theorem request_timed : ∀ d ∈ request.graph, Timed d := by
  rw [graph_request]
  simp only [List.forall_mem_cons, Timed, request, metrics, metric]
  simp [Value.atoms, Value.itemAtoms, Value.entryAtoms]
  exact ⟨Or.inl rfl, by decide⟩

def oldRequest : Schema := requestSchema (release 1 0) firstRows

def oldMetrics : Schema := metricListSchema (release 1 0) firstRows

def oldMetric : Schema := metricSchema (release 1 0) []

/-- A node with the first release of the three types. -/
def node : Registry := Registry.empty.registerAll [oldRequest, oldMetrics, oldMetric]

theorem oldRequest_defined : Defines away "BuildRequest" (release 1 0) oldRequest :=
  defines_iff.mpr ⟨by simp [definitions, oldRequest], rfl, rfl⟩

theorem oldMetrics_defined : Defines away "MonitorMetricList" (release 1 0) oldMetrics :=
  defines_iff.mpr ⟨by simp [definitions, oldMetrics], rfl, rfl⟩

theorem oldMetric_defined : Defines away "MonitorMetric" (release 1 0) oldMetric :=
  defines_iff.mpr ⟨by simp [definitions, oldMetric], rfl, rfl⟩

theorem node_knows : Knows node away "BuildRequest" (release 1 0) := by
  have hdistinct : Registry.Distinct [oldRequest, oldMetrics, oldMetric] := by
    unfold Registry.Distinct
    decide
  have hrequest : Promised away "BuildRequest" (release 1 0) oldRequest := .root oldRequest_defined
  have hmetrics : Promised away "BuildRequest" (release 1 0) oldMetrics :=
    hrequest.child oldRequest_defined (Nat.le_refl (release 1 0).release)
      (n := "metrics") rfl rfl rfl (by decide) oldMetrics_defined
  have hmetric : Promised away "BuildRequest" (release 1 0) oldMetric :=
    hmetrics.child oldMetrics_defined (Nat.le_refl (release 1 0).release)
      (n := "objects") rfl rfl rfl (by decide) oldMetric_defined
  intro type s
  rw [node, Registry.mem_schemas_iff, hdistinct.lastAt_iff, and_comm]
  refine and_congr_right fun _ => ⟨?_, ?_⟩
  · intro hs
    simp only [List.mem_cons, List.not_mem_nil, or_false] at hs
    rcases hs with rfl | rfl | rfl
    · exact hrequest
    · exact hmetrics
    · exact hmetric
  · intro hs
    have hdefines := hs.defines
    have hname := hs.name_cases
    simp only [List.mem_cons, List.not_mem_nil, or_false] at hname
    rcases hname with hname | hname | hname <;> rw [hname] at hdefines
    · rw [hdefines.unique oldRequest_defined]
      exact List.mem_cons_self
    · rw [hdefines.unique oldMetric_defined]
      simp
    · rw [hdefines.unique oldMetrics_defined]
      simp

theorem request_read : Built store request ∧ (∀ d ∈ request.graph, InStep d) ∧
    (∀ d ∈ request.graph, Timed d) ∧ release 1 0 ∈ releases "BuildRequest" ∧
    (release 1 0).release ≤ request.version.release ∧
    Knows node away "BuildRequest" (release 1 0) ∧
    ∃ p e', request.writeFor (some (release 1 0)) = .ok p ∧ p.version = (release 1 0).text ∧
      p.toJson.Carries (Conforms store) ∧ Entity.ofJson node none p.toJson = .ok e' ∧
      e'.version = release 1 0 ∧
      request.Reduces (FoundAt away "BuildRequest" (release 1 0)) none e' :=
  ⟨request_built, request_inStep, request_timed, by decide, by decide, node_knows,
    request_built.read_by_older request_inStep request_timed (by decide) (by decide) node_knows
      none⟩
end Rollout

end Catalog

end Skew

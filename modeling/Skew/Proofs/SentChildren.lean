import Skew.Proofs.Backport

/-!
# What becomes of a child

The entry of a composed field, once the owner is sent at a version, told for whatever value the
field holds. Each entity in the value has one document in the entry (`Value.Sends`): the one that
it was written as, if the walk leaves it alone, and otherwise that one stamped with the child
version of the owner's table, or adapted and stamped (`Entity.sends_of_makeCompatible`).

Unlike `Entity.Slots` this does not ask that the values are in the form of their fields. So it
tells also of values that were put in place without coercion: a tuple or set of entities is
written like a list, but the walk does not open it.
-/

namespace Skew

/-! ## Entities and their documents -/

/-- The entity in a value, or those of a list, tuple or set. -/
def Value.entities : Value → List Entity
  | .entity d => [d]
  | v => (v.items?.getD []).filterMap Value.entity?

/-- The walk opens entities and lists of entities. -/
def Value.isWalked : Value → Bool
  | .entity _ | .list _ => true
  | _ => false

/-- The documents in the entry of a composed field. -/
def Json.childDocuments : Json → List Json
  | .arr js => js
  | .null => []
  | j => [j]

/-- The version that a document is stamped with. -/
def Json.stamp? (j : Json) : Option Version :=
  j.members?.bind fun ms => ((Record.get? ms Primitive.versionKey).bind Json.str?).bind Version.read?

/-- The data in a document. -/
def Json.data? (j : Json) : Option Members :=
  j.members?.bind fun ms => (Record.get? ms Primitive.dataKey).bind Json.members?

/-- A child is left alone where the walk does not come, and past the last threshold if it is no
newer. -/
def Value.Leaves (v : Value) (past : Bool) (goal : Version) (d : Entity) : Prop :=
  v.isWalked = false ∨ past = true ∧ d.version.release ≤ goal.release

theorem Value.entities_of_items {v : Value} {ds : List Entity}
    (h : v.items? = some (ds.map .entity)) : v.entities = ds := by
  have hitems : (ds.map Value.entity).filterMap Value.entity? = ds := by
    rw [List.filterMap_map]
    exact List.filterMap_some
  cases v <;> cases h <;> exact hitems

theorem Value.mem_graph_of_mem_entities {v : Value} {d : Entity} (hd : d ∈ v.entities) :
    d ∈ v.graph := by
  cases v with
  | entity e =>
      rw [List.mem_singleton.mp hd]
      exact e.self_mem_graph
  | list vs | tuple vs | set vs =>
      rw [graph]
      exact mem_graph_of_mem_children (v := .list vs) hd
  | _ => cases hd

theorem Json.stamp?_obj {ms : Members} {v : Version}
    (h : Record.get? ms Primitive.versionKey = some (.str v.text)) :
    (Json.obj ms).stamp? = some v := by
  show (((Record.get? ms Primitive.versionKey).bind Json.str?).bind Version.read?) = some v
  rw [h]
  exact v.read?_text

theorem Json.data?_obj {ms data : Members}
    (h : Record.get? ms Primitive.dataKey = some (.obj data)) :
    (Json.obj ms).data? = some data := by
  show ((Record.get? ms Primitive.dataKey).bind Json.members?) = some data
  rw [h]
  rfl

section

variable [Codecs]

/-- The data of an entity in a document stamped with a version: as it was written, or adapted to
that version. -/
inductive Entity.Filled (d : Entity) (stamp : Version) (data : Members) : Prop
  | written (h : d.data = .ok data) : Filled d stamp data
  | adapted {raw : Members} (hraw : d.data = .ok raw)
      (hrun : d.makeCompatible stamp raw = (.ok (), data)) : Filled d stamp data

/-- A document of an entity, stamped with a version. -/
def Entity.Labelled (d : Entity) (stamp : Version) (doc : Json) : Prop :=
  doc.stamp? = some stamp ∧ ∃ data, doc.data? = some data ∧ d.Filled stamp data

/-- The document that an entity is written as. -/
def Entity.WrittenAs (d : Entity) (doc : Json) : Prop := ∃ p, d.write = .ok p ∧ doc = p.toJson

/-- The document of a child in a value whose owner is sent. -/
inductive Value.Sends (v : Value) (past : Bool) (goal : Version) : Entity → Json → Prop
  | left {d : Entity} {p : Primitive} (hwrite : d.write = .ok p) (h : v.Leaves past goal d) :
      Sends v past goal d p.toJson
  | stamped {d : Entity} {p : Primitive} (hwrite : d.write = .ok p) (h : ¬ v.Leaves past goal d)
      (hexact : d.version.isExactly goal = true) :
      Sends v past goal d { p with version := goal.text }.toJson
  | adapted {d : Entity} {p : Primitive} {data : Members} (hwrite : d.write = .ok p)
      (h : ¬ v.Leaves past goal d) (hexact : d.version.isExactly goal = false)
      (hrun : d.makeCompatible goal p.data = (.ok (), data)) :
      Sends v past goal d (p.adapted goal data)

/-! ## Writing -/

/-- An entity is written at its version, with its data. -/
theorem Entity.stamp_of_write {e : Entity} {p : Primitive} (h : e.write = .ok p) :
    p.version = e.version.text ∧ e.data = .ok p.data := by
  obtain ⟨data, hdata, rfl⟩ := Except.map_eq_ok_iff.mp (e.write_eq ▸ h)
  exact ⟨rfl, hdata⟩

theorem Primitive.labelled {p : Primitive} {d : Entity} {stamp : Version}
    (hstamp : p.version = stamp.text) (hdata : d.Filled stamp p.data) :
    d.Labelled stamp p.toJson := by
  rw [toJson_eq]
  exact ⟨Json.stamp?_obj (hstamp ▸ p.get?_members_version), p.data,
    Json.data?_obj p.get?_members_data, hdata⟩

theorem Entity.WrittenAs.labelled {d : Entity} {doc : Json} (h : d.WrittenAs doc) :
    d.Labelled d.version doc := by
  obtain ⟨p, hp, rfl⟩ := h
  obtain ⟨hstamp, hdata⟩ := stamp_of_write hp
  exact Primitive.labelled hstamp (.written hdata)

/-- A child that is left alone is stamped with its own version, any other with the goal. -/
theorem Value.Sends.labelled {v : Value} {past : Bool} {goal : Version} {d : Entity} {doc : Json}
    (h : v.Sends past goal d doc) :
    (v.Leaves past goal d ∧ d.Labelled d.version doc) ∨
      (¬ v.Leaves past goal d ∧ d.Labelled goal doc) := by
  cases h with
  | @left p hwrite hleaves => exact Or.inl ⟨hleaves, Entity.WrittenAs.labelled ⟨p, hwrite, rfl⟩⟩
  | stamped hwrite hopen _ =>
      exact Or.inr ⟨hopen, Primitive.labelled rfl (.written (Entity.stamp_of_write hwrite).2)⟩
  | adapted hwrite hopen _ hrun =>
      exact Or.inr ⟨hopen, Json.stamp?_obj (Primitive.get?_adaptedMembers_version _ _ _), _,
        Json.data?_obj (Primitive.get?_adaptedMembers_data _ _ _),
        .adapted (Entity.stamp_of_write hwrite).2 hrun⟩

theorem Value.entities_of_writeObjects {vs : List Value} {mismatch : EntityError} {js : List Json}
    (h : writeObjects vs mismatch = .ok js) :
    ∃ ds, vs = ds.map .entity ∧ List.Forall₂ Entity.WrittenAs ds js := by
  induction vs generalizing js with
  | nil =>
      cases h
      exact ⟨[], rfl, .nil⟩
  | cons v vs ih =>
      cases v with
      | entity d =>
          obtain ⟨p, hp, h⟩ := Except.bind_eq_ok_iff.mp h
          obtain ⟨rest, hrest, h⟩ := Except.bind_eq_ok_iff.mp h
          cases h
          obtain ⟨ds, rfl, hds⟩ := ih hrest
          exact ⟨d :: ds, rfl, .cons ⟨p, hp, rfl⟩ hds⟩
      | _ => cases h

/-- What a composed field writes: null for null, the document of an entity, and the documents of
the entities in a list, tuple or set. -/
theorem Value.written_of_isObject {v : Value} {name : String} {k : Kind} {j : Json}
    (hkind : k.isObject = true) (hwrite : v.write name k = .ok j) :
    (v = .null ∧ j = .null) ∨ (∃ d, v = .entity d ∧ d.WrittenAs j) ∨
      ∃ ds js, v.items? = some (ds.map .entity) ∧ j = .arr js ∧
        List.Forall₂ Entity.WrittenAs ds js := by
  have hitems {vs : List Value} {mismatch : EntityError} (hv : v.items? = some vs)
      (h : (writeObjects vs mismatch).map Json.arr = .ok j) :
      ∃ ds js, v.items? = some (ds.map .entity) ∧ j = .arr js ∧
        List.Forall₂ Entity.WrittenAs ds js := by
    obtain ⟨js, hjs, rfl⟩ := Except.map_eq_ok_iff.mp h
    obtain ⟨ds, rfl, hds⟩ := entities_of_writeObjects hjs
    exact ⟨ds, js, hv, rfl, hds⟩
  cases k with
  | object type =>
      cases v with
      | null =>
          cases hwrite
          exact Or.inl ⟨rfl, rfl⟩
      | entity d =>
          obtain ⟨p, hp, rfl⟩ := Except.map_eq_ok_iff.mp hwrite
          exact Or.inr (Or.inl ⟨d, rfl, p, hp, rfl⟩)
      | _ => cases hwrite
  | listOfObjects type =>
      cases v with
      | null =>
          cases hwrite
          exact Or.inl ⟨rfl, rfl⟩
      | list vs | tuple vs | set vs => exact Or.inr (Or.inr (hitems rfl hwrite))
      | _ => cases hwrite
  | _ => cases hkind

/-- Each entity in a composed field is written as one document of the entry. -/
theorem Value.writes_entities {v : Value} {name : String} {k : Kind} {j : Json}
    (hkind : k.isObject = true) (hwrite : v.write name k = .ok j) :
    List.Forall₂ Entity.WrittenAs v.entities j.childDocuments := by
  obtain ⟨rfl, rfl⟩ | ⟨d, rfl, p, hp, rfl⟩ | ⟨ds, js, hv, rfl, hds⟩ :=
    written_of_isObject hkind hwrite
  · exact .nil
  · exact .cons ⟨p, hp, rfl⟩ .nil
  · rwa [entities_of_items hv]

/-! ## Adapting -/

theorem Value.sends_of_adaptChild {v : Value} (hv : v.isWalked = true) {past : Bool}
    {goal : Version} {d : Entity} {j j' : Json} (hwrite : d.WrittenAs j)
    (hrun : Primitive.adaptChild d.version d.makeCompatible goal past j = (.ok (), j')) :
    v.Sends past goal d j' := by
  obtain ⟨p, hp, rfl⟩ := hwrite
  have hleaves : v.Leaves past goal d ↔ past = true ∧ d.version.release ≤ goal.release :=
    or_iff_right (hv ▸ Bool.noConfusion)
  rw [Primitive.adaptChild_toJson (Entity.stamp_of_write hp).1] at hrun
  split at hrun
  · next hbound =>
      cases hrun
      exact .left hp (hleaves.mpr hbound)
  · next hbound =>
      have hopen : ¬ v.Leaves past goal d := fun h => hbound (hleaves.mp h)
      split at hrun
      · next hexact =>
          cases hrun
          exact .stamped hp hopen hexact
      · next hexact =>
          rcases hadapt : d.makeCompatible goal p.data with ⟨err | ⟨⟩, data⟩
          · rw [hadapt] at hrun
            cases hrun
          · rw [hadapt] at hrun
            cases hrun
            exact .adapted hp hopen (Bool.not_eq_true _ ▸ hexact) hadapt

theorem Value.sends_of_adaptItems {v : Value} (hv : v.isWalked = true) {past : Bool}
    {goal : Version} {ds : List Entity} {js js' : List Json}
    (hwrite : List.Forall₂ Entity.WrittenAs ds js)
    (hrun : Value.adaptItems (ds.map .entity) goal past js = (.ok (), js')) :
    List.Forall₂ (v.Sends past goal) ds js' := by
  induction hwrite generalizing js' with
  | nil =>
      cases hrun
      exact .nil
  | @cons d j ds js hj _ ih =>
      rw [List.map_cons, Value.adaptItems] at hrun
      rcases hone : Primitive.adaptChild d.version d.makeCompatible goal past j
        with ⟨err | ⟨⟩, j'⟩
      · rw [hone] at hrun
        cases hrun
      · rcases hmany : Value.adaptItems (ds.map .entity) goal past js with ⟨err | ⟨⟩, rest⟩
        · rw [hone, hmany] at hrun
          cases hrun
        · rw [hone, hmany] at hrun
          cases hrun
          exact .cons (sends_of_adaptChild hv hj hone) (ih hmany)

theorem Value.Sends.childDocuments {v : Value} {past : Bool} {goal : Version} {d : Entity}
    {doc : Json} (h : v.Sends past goal d doc) : doc.childDocuments = [doc] := by
  cases h <;> rfl

/-- The adapter of a value makes of the entry that was written the documents that are sent. -/
theorem Value.sends_of_adaptWire {v : Value} {name : String} {k : Kind} {j j' : Json}
    (hkind : k.isObject = true) (hwrite : v.write name k = .ok j) {past : Bool} {goal : Version}
    (hrun : v.adaptWire name goal past j = (.ok (), j')) :
    List.Forall₂ (v.Sends past goal) v.entities j'.childDocuments := by
  have hclosed (hv : v.isWalked = false) (hkept : j' = j) :
      List.Forall₂ (v.Sends past goal) v.entities j'.childDocuments := by
    rw [hkept]
    refine (writes_entities hkind hwrite).imp ?_
    rintro d doc ⟨p, hp, rfl⟩
    exact .left hp (Or.inl hv)
  obtain ⟨rfl, rfl⟩ | ⟨d, rfl, hd⟩ | ⟨ds, js, hv, rfl, hds⟩ := written_of_isObject hkind hwrite
  · exact hclosed rfl (Prod.mk.inj hrun).2.symm
  · have hsends : (Value.entity d).Sends past goal d j' := sends_of_adaptChild rfl hd hrun
    rw [hsends.childDocuments]
    exact .cons hsends .nil
  · cases v with
    | list vs =>
        cases hv
        rw [adaptWire] at hrun
        rcases hmany : adaptItems (ds.map .entity) goal past js with ⟨err | ⟨⟩, js'⟩
        · rw [hmany] at hrun
          cases hrun
        · rw [hmany] at hrun
          cases hrun
          rw [entities_of_items rfl]
          exact sends_of_adaptItems rfl hds hmany
    | tuple vs | set vs => exact hclosed rfl (Prod.mk.inj hrun).2.symm
    | _ => cases hv

/-! ## Entries -/

/-- The entry of a composed field in data that was adapted to a target: missing where the table
gives no child version, and otherwise the documents of the children. -/
def Entity.SendsField (e : Entity) (target : Version) (n : String) (v : Value)
    (entry : Option Json) : Prop :=
  ∃ table, e.schema.relationship? n = some table ∧
    ((table.childAt? target = none ∧ entry = none) ∨
      ∃ goal j, table.childAt? target = some goal ∧ entry = some j ∧
        List.Forall₂ (v.Sends (table.isPast target) goal) v.entities j.childDocuments)

/-- The entry of any field in adapted data, beside the one in the data as it was written. -/
def Entity.Sends (e : Entity) (target : Version) (raw : Members) (n : String)
    (entry : Option Json) : Prop :=
  match e.composed? n with
  | some v => e.SendsField target n v entry
  | none => entry = Record.get? raw n

/-- What a hook leaves in data was there before, or is as said. -/
def Schema.HookAdds (s : Schema) (P : Json → Prop) : Prop :=
  ∀ target slots data, Record.Ascending slots → s.runHook target slots = (.ok (), data) →
    ∀ n j, Record.get? data n = some j → Record.get? slots n = some j ∨ P j

omit [Codecs] in
theorem Schema.hookAdds_of_none {s : Schema} (h : s.hook? = none) (P : Json → Prop) :
    s.HookAdds P := by
  intro target slots data _ hrun n j hj
  rw [runHook, h] at hrun
  cases hrun
  exact Or.inl hj

/-- Adapting sends the children of every composed field and leaves the other entries as they were
written. Then the hook runs. -/
theorem Entity.exists_slots_of_makeCompatible {e : Entity} (hschema : e.schema.WellFormed)
    {raw data : Members} (hraw : e.data = .ok raw) {target : Version}
    (hrun : e.makeCompatible target raw = (.ok (), data)) :
    ∃ slots, Record.Ascending slots ∧ (∀ n, e.Sends target raw n (Record.get? slots n)) ∧
      e.schema.runHook target slots = (.ok (), data) := by
  have hfields := hschema.fields
  obtain ⟨hasc, -, -⟩ := (data_eq_ok_iff hfields).mp hraw
  have hplain (n : String) (hn : e.composed? n = none) :
      e.Sends target raw n (Record.get? raw n) := by
    rw [Sends, hn]
  have hends : (e.schema.fields.forM (e.schema.visit (childAdapters e.values) target)).Ends raw
      (fun slots => Record.Ascending slots ∧ ∀ n, e.Sends target raw n (Record.get? slots n))
      fun _ => True := by
    refine Entity.walk_ends hfields hasc hplain fun n v hset now hnow hget => ?_
    obtain ⟨f, j, -, hkind, -, hwrite, hj⟩ := exists_write_of_composed? hfields hraw hset
    have hfield : (e.schema.adaptField target n (v.adaptWire n)).Ends now
        (Edit.OnlyAt n (e.SendsField target n v) now) fun _ => True := by
      refine Schema.adaptField_ends hschema hnow (hget.trans hj) (fun _ => trivial)
        (fun table htable _ hnone => ⟨table, htable, Or.inl ⟨hnone, rfl⟩⟩)
        fun table goal htable _ hgoal => ?_
      unfold JsonEdit.Ends
      rcases hadapt : v.adaptWire n goal (table.isPast target) j with ⟨err | ⟨⟩, j'⟩
      · trivial
      · exact ⟨table, htable, Or.inr ⟨goal, j', hgoal, rfl,
          Value.sends_of_adaptWire hkind hwrite hadapt⟩⟩
    refine Edit.ends_mono hfield ?_
    rintro data ⟨hdata, hother, hentry⟩
    refine ⟨hdata, hother, ?_⟩
    rw [Sends, hset]
    exact hentry
  rw [makeCompatible_eq] at hrun
  obtain ⟨⟨⟩, slots, hwalk, hhook⟩ := ExceptT.bind_eq_ok_iff.mp hrun
  unfold Edit.Ends at hends
  rw [hwalk] at hends
  exact ⟨slots, hends.1, hends.2, hhook⟩

/-- Where no hook runs, this is what adapting does. -/
theorem Entity.sends_of_makeCompatible {e : Entity} (hschema : e.schema.WellFormed)
    (hhook : e.schema.hook? = none) {raw data : Members} (hraw : e.data = .ok raw)
    {target : Version} (hrun : e.makeCompatible target raw = (.ok (), data)) (n : String) :
    e.Sends target raw n (Record.get? data n) := by
  obtain ⟨slots, -, hsends, hdone⟩ := exists_slots_of_makeCompatible hschema hraw hrun
  rw [Schema.runHook, hhook] at hdone
  cases hdone
  exact hsends n

/-- An entry that is sent is that of a declared and set field, and was written. -/
theorem Entity.Sends.exists_written {e : Entity} (hschema : e.schema.WellFormed) {raw : Members}
    (hraw : e.data = .ok raw) {target : Version} {n : String} {j : Json}
    (h : e.Sends target raw n (some j)) :
    ∃ f v written, e.schema.field? n = some f ∧ Record.get? e.values n = some v ∧
      v.write n f.kind = .ok written ∧ Record.get? raw n = some written := by
  cases hset : e.composed? n with
  | some v =>
      obtain ⟨f, written, hf, -, hv, hwrite, hwritten⟩ :=
        exists_write_of_composed? hschema.fields hraw hset
      exact ⟨f, v, written, hf, hv, hwrite, hwritten⟩
  | none =>
      rw [Sends, hset] at h
      obtain ⟨f, v, hf, hv, hwrite⟩ := exists_of_get?_data hschema.fields hraw h.symm
      exact ⟨f, v, j, hf, hv, hwrite, h.symm⟩

/-- A field that is sent is declared and set, and was written. -/
theorem Entity.exists_written_of_sent {e : Entity} (hschema : e.schema.WellFormed)
    (hhook : e.schema.hook? = none) {raw data : Members} (hraw : e.data = .ok raw)
    {target : Version} (hrun : e.makeCompatible target raw = (.ok (), data)) {n : String} {j : Json}
    (hsent : Record.get? data n = some j) :
    ∃ f v written, e.schema.field? n = some f ∧ Record.get? e.values n = some v ∧
      v.write n f.kind = .ok written ∧ Record.get? raw n = some written := by
  have hentry := sends_of_makeCompatible hschema hhook hraw hrun n
  rw [hsent] at hentry
  exact hentry.exists_written hschema hraw

end

end Skew

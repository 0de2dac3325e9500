import Skew.Proofs.Documents
import Skew.Proofs.Edits
import Skew.Proofs.Storage
import Skew.Proofs.Thresholds

/-!
# What a backport sends

`Entity.Slots` says field by field what the data of an entity is before its hook, in terms
of the relationship tables alone: fields that compose nothing stay as they are written, a
composed field is missing where the target is older than its first threshold, and
otherwise each child in it travels at the child version of the last threshold reached
(`Entity.Travels`): left alone, stamped, or adapted in the same way and stamped.
`Entity.Blocked` lists what can be in the way: a composed field without a table, or a
hook that fails.

The walk that edits the written document in place does exactly this
(`Entity.writeAt_backport`). The document of a child is always the one that the child was
written as, because nobody else edits the entry it stands in; so the walk never meets a
document of another form.
-/

namespace Skew

/-! ## What the tables say -/

/-- The value of a field that composes entities, if it is set. -/
def Entity.composed? (e : Entity) (name : String) : Option Value :=
  (e.schema.field? name).bind fun f =>
    if f.kind.isObject then Record.get? e.values name else none

/-- The entity in a value, or those of a list. -/
def Value.children : Value → List Entity
  | .entity d => [d]
  | .list vs => vs.filterMap Value.entity?
  | _ => []

/-- The hook of a schema, which does nothing where there is none. -/
def Schema.runHook (s : Schema) (target : Version) : Edit Unit :=
  match s.hook? with
  | some hook => hook target
  | none => pure ()

namespace Primitive

/-- The members of a primitive whose data was adapted: the change markers that are left
name data, and there is a list of them if there was one. -/
def adaptedMembers (p : Primitive) (goal : Version) (data : Members) : Members :=
  (if p.changes.isEmpty then []
    else [(changesKey, Json.arr ((p.changes.filter (Record.contains data)).map .str))]) ++
  [(dataKey, .obj data), (nameKey, .str p.name), (spaceKey, .str p.space),
    (versionKey, .str goal.text)]

def adapted (p : Primitive) (goal : Version) (data : Members) : Json :=
  .obj (p.adaptedMembers goal data)

theorem get?_adaptedMembers_version (p : Primitive) (goal : Version) (data : Members) :
    Record.get? (p.adaptedMembers goal data) versionKey = some (.str goal.text) := by
  unfold adaptedMembers
  split <;> rfl

theorem get?_adaptedMembers_data (p : Primitive) (goal : Version) (data : Members) :
    Record.get? (p.adaptedMembers goal data) dataKey = some (.obj data) := by
  unfold adaptedMembers
  split <;> rfl

end Primitive

/-- A child is adapted unless it is left alone or already at the goal. -/
def Entity.IsAdapted (d : Entity) (past : Bool) (goal : Version) : Prop :=
  ¬ (past = true ∧ d.version.release ≤ goal.release) ∧ d.version.isExactly goal = false

section

variable [Codecs]

mutual

/-- The data of an entity for a target version, before the hook. -/
inductive Entity.Slots : Entity → Version → Members → Prop
  | intro {e : Entity} {target : Version} {raw slots : Members} (hraw : e.data = .ok raw)
      (hslots : Record.Ascending slots)
      (hplain : ∀ n, e.composed? n = none → Record.get? slots n = Record.get? raw n)
      (htable : ∀ n v, e.composed? n = some v →
        ∃ table, e.schema.relationship? n = some table ∧ table ≠ [])
      (hcomposed : ∀ n v table, e.composed? n = some v → e.schema.relationship? n = some table →
        Value.Slot table target v (Record.get? slots n)) :
      Entity.Slots e target slots

/-- The entry of a composed field whose table is given. -/
inductive Value.Slot : Relationship → Version → Value → Option Json → Prop
  | absent {table : Relationship} {target : Version} {v : Value}
      (hfirst : table.startsAfter target) : Value.Slot table target v none
  | null {table : Relationship} {target goal : Version}
      (hgoal : table.childAt? target = some goal) : Value.Slot table target .null (some .null)
  | entity {table : Relationship} {target goal : Version} {d : Entity} {j : Json}
      (hgoal : table.childAt? target = some goal)
      (hchild : Entity.Travels (table.isPast target) goal d j) :
      Value.Slot table target (.entity d) (some j)
  | list {table : Relationship} {target goal : Version} {ds : List Entity} {js : List Json}
      (hgoal : table.childAt? target = some goal) (hlength : ds.length = js.length)
      (hchild : ∀ d j, (d, j) ∈ ds.zip js → Entity.Travels (table.isPast target) goal d j) :
      Value.Slot table target (.list (ds.map .entity)) (some (.arr js))

/-- The document of a child that is to travel at a version. Past the last threshold a child
that is no newer is left alone. -/
inductive Entity.Travels : Bool → Version → Entity → Json → Prop
  | left {goal : Version} {d : Entity} {p : Primitive} (hwrite : d.write = .ok p)
      (hbound : d.version.release ≤ goal.release) : Entity.Travels true goal d p.toJson
  | stamped {past : Bool} {goal : Version} {d : Entity} {p : Primitive} (hwrite : d.write = .ok p)
      (hbound : ¬ (past = true ∧ d.version.release ≤ goal.release))
      (hexact : d.version.isExactly goal = true) :
      Entity.Travels past goal d { p with version := goal.text }.toJson
  | adapted {past : Bool} {goal : Version} {d : Entity} {p : Primitive} {slots data : Members}
      (hwrite : d.write = .ok p) (hadapted : d.IsAdapted past goal)
      (hslots : Entity.Slots d goal slots) (hhook : d.schema.runHook goal slots = (.ok (), data)) :
      Entity.Travels past goal d (p.adapted goal data)

end

/-- The data of an entity for a target version. -/
def Entity.Backport (e : Entity) (target : Version) (data : Members) : Prop :=
  ∃ slots, e.Slots target slots ∧ e.schema.runHook target slots = (.ok (), data)

/-- What keeps an entity from being adapted. -/
inductive Entity.Blocked : Entity → Version → EntityError → Prop
  | noRule {e : Entity} {target : Version} {n : String} {v : Value} (hset : e.composed? n = some v)
      (htable : (e.schema.relationship? n).getD [] = []) :
      Blocked e target (.action "make_compatible" (.noRule n))
  | child {e : Entity} {target : Version} {n : String} {v : Value} {table : Relationship}
      {goal : Version} {d : Entity} {err : EntityError} (hset : e.composed? n = some v)
      (htable : e.schema.relationship? n = some table)
      (hgoal : table.childAt? target = some goal) (hd : d ∈ v.children)
      (hadapted : d.IsAdapted (table.isPast target) goal) (herr : Blocked d goal err) :
      Blocked e target err
  | hook {e : Entity} {target : Version} {slots data : Members} {err : EntityError}
      (hslots : e.Slots target slots)
      (hhook : e.schema.runHook target slots = (.error err, data)) : Blocked e target err

/-! ## Documents of children -/

omit [Codecs] in
theorem Primitive.stamp_members (p : Primitive) (goal : Version) :
    stamp p.members goal = { p with version := goal.text }.toJson := by
  obtain ⟨space, name, version, data, changes⟩ := p
  cases changes <;> rfl

omit [Codecs] in
theorem Primitive.insert_members_data (p : Primitive) (data : Members) :
    Record.insert p.members dataKey (.obj data) = { p with data := data }.members := by
  obtain ⟨space, name, version, data, changes⟩ := p
  cases changes <;> rfl

omit [Codecs] in
theorem Primitive.stamp_keepChanges (p : Primitive) (goal : Version) (data : Members) :
    stamp (keepChanges { p with data := data }.members data) goal = p.adapted goal data := by
  obtain ⟨space, name, version, old, changes⟩ := p
  cases changes with
  | nil => rfl
  | cons n names =>
      have hfilter : ((n :: names).map Json.str).filter
          (fun j => (j.str?.map (Record.contains data)).getD false) =
          ((n :: names).filter (Record.contains data)).map Json.str := by
        rw [List.filter_map]
        rfl
      have hkeep : keepChanges (members ⟨space, name, version, data, n :: names⟩) data =
          Record.insert (members ⟨space, name, version, data, n :: names⟩) changesKey
            (.arr (((n :: names).filter (Record.contains data)).map Json.str)) :=
        congrArg (fun js => Record.insert _ changesKey (Json.arr js)) hfilter
      rw [hkeep]
      rfl

omit [Codecs] in
/-- A document that is stamped with a version is adapted by that version. -/
theorem Primitive.adaptChild_toJson {p : Primitive} {version : Version}
    (hversion : p.version = version.text) (adapt : Version → Edit Unit) (goal : Version)
    (past : Bool) :
    adaptChild version adapt goal past p.toJson =
      if past = true ∧ version.release ≤ goal.release then (.ok (), p.toJson)
      else if version.isExactly goal then (.ok (), { p with version := goal.text }.toJson)
      else match adapt goal p.data with
        | (.error err, data) => (.error err, { p with data := data }.toJson)
        | (.ok (), data) => (.ok (), p.adapted goal data) := by
  have hstamped : stampedVersion p.members version = .ok version := by
    rw [stampedVersion, get?_members_version, hversion]
    exact Version.ofText_text version
  rw [toJson_eq, adaptChild, hstamped]
  simp only [get?_members_data, insert_members_data, stamp_keepChanges, stamp_members]
  rfl

/-- The document of a child is adapted as the child travels; only what blocks the child
stops it. -/
theorem Primitive.adaptChild_ends {d : Entity} {p : Primitive} (hwrite : d.write = .ok p)
    (past : Bool) {goal : Version}
    (hd : ∀ data, d.data = .ok data →
      (d.makeCompatible goal).Ends data (d.Backport goal) (d.Blocked goal)) :
    JsonEdit.Ends (adaptChild d.version d.makeCompatible goal past) p.toJson
      (d.Travels past goal) (fun err => d.IsAdapted past goal ∧ d.Blocked goal err) := by
  obtain ⟨data, hdata, hp⟩ : ∃ data, d.data = .ok data ∧ d.wrap d.version data = p :=
    Except.map_eq_ok_iff.mp (d.write_eq ▸ hwrite)
  unfold JsonEdit.Ends
  rw [adaptChild_toJson (congrArg Primitive.version hp.symm)]
  by_cases hbound : past = true ∧ d.version.release ≤ goal.release
  · rw [if_pos hbound]
    obtain ⟨rfl, hle⟩ := hbound
    exact .left hwrite hle
  · rw [if_neg hbound]
    cases hexact : d.version.isExactly goal with
    | true =>
        rw [if_pos rfl]
        exact .stamped hwrite hbound hexact
    | false =>
        rw [if_neg Bool.false_ne_true]
        have hends : (d.makeCompatible goal).Ends p.data (d.Backport goal) (d.Blocked goal) :=
          hp ▸ hd data hdata
        unfold Edit.Ends at hends
        rcases hend : d.makeCompatible goal p.data with ⟨err | ⟨⟩, data'⟩
        · rw [hend] at hends
          exact ⟨⟨hbound, hexact⟩, hends⟩
        · rw [hend] at hends
          obtain ⟨slots, hslots, hhook⟩ := hends
          exact .adapted hwrite ⟨hbound, hexact⟩ hslots hhook

/-- The documents of the children in a list are adapted one by one, until one is blocked. -/
theorem Value.adaptItems_ends {ds : List Entity} {js : List Json}
    (hwrite : List.Forall₂ (fun d j => ∃ p, d.write = .ok p ∧ j = p.toJson) ds js)
    (past : Bool) {goal : Version}
    (hd : ∀ d ∈ ds, ∀ data, d.data = .ok data →
      (d.makeCompatible goal).Ends data (d.Backport goal) (d.Blocked goal)) :
    match Value.adaptItems (ds.map .entity) goal past js with
    | (.ok (), js') => List.Forall₂ (Entity.Travels past goal) ds js'
    | (.error err, _) => ∃ d ∈ ds, d.IsAdapted past goal ∧ d.Blocked goal err := by
  induction hwrite with
  | nil => exact .nil
  | @cons d j ds js hj _ ih =>
      obtain ⟨p, hp, rfl⟩ := hj
      obtain ⟨hhead, htail⟩ := List.forall_mem_cons.mp hd
      have hchild := Primitive.adaptChild_ends hp past hhead
      have hrest := ih htail
      unfold JsonEdit.Ends at hchild
      rw [List.map_cons, Value.adaptItems]
      rcases hone : Primitive.adaptChild d.version d.makeCompatible goal past p.toJson
        with ⟨err | ⟨⟩, j'⟩
      · rw [hone] at hchild
        exact ⟨d, List.mem_cons_self, hchild⟩
      · rw [hone] at hchild
        rcases hmany : Value.adaptItems (ds.map .entity) goal past js with ⟨err | ⟨⟩, js'⟩
        · rw [hmany] at hrest
          obtain ⟨x, hx, hblocked⟩ := hrest
          exact ⟨x, List.mem_cons_of_mem _ hx, hblocked⟩
        · rw [hmany] at hrest
          exact .cons hchild hrest

/-! ## Composed fields -/

/-- The values of an entity are null, or what their fields coerce to themselves. -/
structure Entity.InForm (e : Entity) : Prop where
  wellFormed : e.WellFormed
  stored : ∀ p ∈ e.values, ∀ f, e.schema.field? p.1 = some f →
    p.2.isNull = true ∨ f.coerce p.2 = .ok p.2

/-- A stored value of a composed field and the document it was written as. -/
inductive Value.Composes : Value → Json → Prop
  | null : Composes .null .null
  | entity {d : Entity} {p : Primitive} (hwrite : d.write = .ok p) : Composes (.entity d) p.toJson
  | list {ds : List Entity} {js : List Json}
      (hwrite : List.Forall₂ (fun d j => ∃ p, d.write = .ok p ∧ j = p.toJson) ds js) :
      Composes (.list (ds.map .entity)) (.arr js)

/-- What a composed field stores is null, an entity, or a list of entities, and is written
as such. -/
theorem Field.composes {f : Field} {v : Value} {name : String} {j : Json}
    (hkind : f.kind.isObject = true) (hform : v.isNull = true ∨ f.coerce v = .ok v)
    (hwrite : v.write name f.kind = .ok j) : v.Composes j := by
  cases hnull : v.isNull with
  | true =>
      cases v with
      | null => cases hwrite; exact .null
      | _ => cases hnull
  | false =>
      have hcoerce : f.coerce v = .ok v := hform.resolve_left (hnull ▸ Bool.false_ne_true)
      rw [Field.coerce, hnull, if_neg Bool.false_ne_true] at hcoerce
      have hstores := Kind.stores_of_coerce hcoerce
      generalize f.kind = kind at hkind hwrite hstores
      cases hstores with
      | @object d =>
          obtain ⟨p, hp, rfl⟩ := Except.map_eq_ok_iff.mp hwrite
          exact .entity hp
      | @listOfObjects type vs hvs =>
          obtain ⟨ds, rfl⟩ := Value.exists_entities fun v hv => (hvs v hv).imp fun _ h => h.1
          obtain ⟨js, hjs, rfl⟩ := Except.map_eq_ok_iff.mp hwrite
          rw [Value.writeObjects_entities, List.mapM_eq_ok_iff] at hjs
          refine .list (hjs.imp fun d j hj => ?_)
          obtain ⟨p, hp, rfl⟩ := Except.map_eq_ok_iff.mp hj
          exact ⟨p, hp, rfl⟩
      | _ => cases hkind

omit [Codecs] in
theorem Value.children_list (ds : List Entity) : (Value.list (ds.map .entity)).children = ds := by
  rw [children, List.filterMap_map]
  exact List.filterMap_some

theorem Value.adaptWire_ends {v : Value} {j : Json} (hv : v.Composes j) (name : String)
    {table : Relationship} {target goal : Version} (hgoal : table.childAt? target = some goal)
    (hd : ∀ d ∈ v.children, ∀ data, d.data = .ok data →
      (d.makeCompatible goal).Ends data (d.Backport goal) (d.Blocked goal)) :
    JsonEdit.Ends (v.adaptWire name goal (table.isPast target)) j
      (fun j' => Value.Slot table target v (some j'))
      (fun err =>
        ∃ d ∈ v.children, d.IsAdapted (table.isPast target) goal ∧ d.Blocked goal err) := by
  cases hv with
  | null => exact .null hgoal
  | @entity d p hwrite =>
      have hchild := Primitive.adaptChild_ends hwrite (table.isPast target)
        (hd d List.mem_cons_self)
      unfold JsonEdit.Ends at hchild ⊢
      rw [Value.adaptWire]
      split at hchild
      · exact .entity hgoal hchild
      · exact ⟨d, List.mem_cons_self, hchild⟩
  | @list ds js hwrite =>
      rw [children_list] at hd ⊢
      have hitems := Value.adaptItems_ends hwrite (table.isPast target) hd
      unfold JsonEdit.Ends
      rw [Value.adaptWire]
      rcases hmany : Value.adaptItems (ds.map .entity) goal (table.isPast target) js
        with ⟨err | ⟨⟩, js'⟩
      · rw [hmany] at hitems
        exact hitems
      · rw [hmany] at hitems
        exact .list hgoal hitems.length_eq fun d j h => List.forall₂_zip hitems h

omit [Codecs] in
theorem Value.mem_graph_of_mem_children {v : Value} {d : Entity} (hd : d ∈ v.children) :
    d ∈ v.graph := by
  cases v with
  | entity e =>
      rw [List.mem_singleton.mp hd]
      exact e.self_mem_graph
  | list vs =>
      obtain ⟨w, hw, hd⟩ := List.mem_filterMap.mp hd
      rw [graph, itemGraph_eq, List.mem_flatMap]
      refine ⟨w, hw, ?_⟩
      cases w with
      | entity e => cases hd; exact Entity.self_mem_graph _
      | _ => cases hd
  | _ => cases hd

/-! ## The walk -/

omit [Codecs] in
theorem Entity.childAdapters_eq (es : List (String × Value)) :
    Entity.childAdapters es = es.map fun e => (e.1, e.2.adaptWire e.1) := by
  induction es with
  | nil => rfl
  | cons e es ih => rw [Entity.childAdapters, ih, List.map_cons]

/-- The entry of a field once it is visited. -/
def Entity.Visited (e : Entity) (target : Version) (raw : Members) (n : String)
    (slot : Option Json) : Prop :=
  match e.composed? n with
  | some v => ∃ table, e.schema.relationship? n = some table ∧ table ≠ [] ∧
      Value.Slot table target v slot
  | none => slot = Record.get? raw n

/-- The step of the walk for one field. -/
def Schema.visit (s : Schema) (children : Record ChildAdapter) (target : Version)
    (p : String × Field) : Edit Unit :=
  match p.2.kind.isObject, Record.get? children p.1 with
  | true, some adapter => s.adaptField target p.1 adapter
  | _, _ => pure ()

omit [Codecs] in
theorem Entity.makeCompatible_eq (e : Entity) (target : Version) :
    e.makeCompatible target =
      e.schema.fields.forM (e.schema.visit (Entity.childAdapters e.values) target) >>= fun _ =>
        e.schema.runHook target := by
  cases e
  rfl

omit [Codecs] in
theorem Entity.visit_eq {e : Entity} (hfields : e.schema.fieldNames.Nodup) (target : Version)
    {p : String × Field} (hp : p ∈ e.schema.fields) :
    e.schema.visit (Entity.childAdapters e.values) target p =
      match e.composed? p.1 with
      | some v => e.schema.adaptField target p.1 (v.adaptWire p.1)
      | none => pure () := by
  have hfield : e.schema.field? p.1 = some p.2 := Record.get?_of_mem hfields hp
  have hget : Record.get? (Entity.childAdapters e.values) p.1 =
      (Record.get? e.values p.1).map fun v => v.adaptWire p.1 := by
    rw [childAdapters_eq, ← Record.get?_map fun n v => Value.adaptWire v n]
  rw [Schema.visit, hget, composed?, hfield]
  cases hkind : p.2.kind.isObject with
  | false => simp [hkind]
  | true => cases Record.get? e.values p.1 <;> simp [hkind]

omit [Codecs] in
/-- With one field, which composes entities, and no hook, the walk is the rule of that field. -/
theorem Entity.makeCompatible_single {e : Entity} {n : String} {f : Field} {v : Value}
    (hfields : e.schema.fields = [(n, f)]) (hhook : e.schema.hook? = none)
    (hset : e.composed? n = some v) {target : Version} {ms ms' : Members}
    (hfield : e.schema.adaptField target n (v.adaptWire n) ms = (.ok (), ms')) :
    e.makeCompatible target ms = (.ok (), ms') := by
  have hnodup : e.schema.fieldNames.Nodup := by
    rw [Schema.fieldNames, hfields]
    exact List.nodup_cons.mpr ⟨nofun, List.nodup_nil⟩
  have hvisit := visit_eq hnodup target (p := (n, f)) (hfields ▸ List.mem_cons_self)
  rw [hset] at hvisit
  rw [makeCompatible_eq, hfields, Schema.runHook, hhook]
  show ((e.schema.visit (childAdapters e.values) target (n, f) >>= fun _ => pure ()) >>=
    fun _ => pure ()) ms = _
  rw [hvisit]
  rw [ExceptT.bind_ok ((ExceptT.bind_ok hfield).trans rfl)]
  rfl

omit [Codecs] in
/-- The rule of a field edits the entry of the field by what its table gives: nothing is left of
it, or it is what the adapter makes of it. -/
theorem Schema.adaptField_ends {s : Schema} (hs : s.WellFormed) {target : Version} {n : String}
    {adapter : ChildAdapter} {now : Members} (hnow : Record.Ascending now) {j : Json}
    (hget : Record.get? now n = some j) {slot : Option Json → Prop} {bad : EntityError → Prop}
    (hnone : (s.relationship? n).getD [] = [] → bad (.action "make_compatible" (.noRule n)))
    (habsent : ∀ table, s.relationship? n = some table → table ≠ [] →
      table.childAt? target = none → slot none)
    (hsent : ∀ table goal, s.relationship? n = some table → table ≠ [] →
      table.childAt? target = some goal →
      JsonEdit.Ends (adapter goal (table.isPast target)) j (fun j' => slot (some j')) bad) :
    (s.adaptField target n adapter).Ends now (Edit.OnlyAt n slot now) bad := by
  unfold Schema.adaptField
  cases htable : s.relationship? n with
  | none => exact Edit.ends_throw (hnone (by rw [htable]; rfl))
  | some table =>
      rw [Option.bind_some]
      by_cases hempty : table = []
      · subst hempty
        exact Edit.ends_throw (hnone (by rw [htable]; rfl))
      · rw [Relationship.rule?_eq (hs.relationship htable) hempty]
        cases hchild : table.childAt? target with
        | none =>
            refine Edit.ends_mono Edit.ends_erase ?_
            intro ms' hms'
            rw [hms']
            exact Edit.onlyAt_erase hnow (habsent table htable hempty hchild)
        | some goal =>
            have hends : (Edit.member n (adapter goal (table.isPast target))).Ends now
                (Edit.OnlyAt n slot now) bad := by
              refine Edit.ends_mono (Edit.ends_member hget (hsent table goal htable hempty hchild)) ?_
              intro ms' hmember
              obtain ⟨j', hj', rfl⟩ := hmember
              exact Edit.onlyAt_insert hnow hj'
            cases hpast : table.isPast target with
            | true => rw [hpast] at hends; exact hends
            | false => rw [hpast] at hends; exact hends

omit [Codecs] in
/-- The walk leaves the entries of the composed fields as their rules end, each as if it had been
visited alone, and every other entry as it is. -/
theorem Entity.walk_ends {e : Entity} (hfields : e.schema.fieldNames.Nodup) {target : Version}
    {raw : Members} (hraw : Record.Ascending raw) {visited : String → Option Json → Prop}
    {bad : EntityError → Prop}
    (hplain : ∀ n, e.composed? n = none → visited n (Record.get? raw n))
    (hcomposed : ∀ n v, e.composed? n = some v → ∀ now, Record.Ascending now →
      Record.get? now n = Record.get? raw n →
      (e.schema.adaptField target n (v.adaptWire n)).Ends now (Edit.OnlyAt n (visited n) now) bad) :
    (e.schema.fields.forM (e.schema.visit (Entity.childAdapters e.values) target)).Ends raw
      (fun slots => Record.Ascending slots ∧ ∀ n, visited n (Record.get? slots n)) bad := by
  have hstep (p : String × Field) (hp : p ∈ e.schema.fields) (now : Members)
      (hnow : Record.Ascending now) (hget : Record.get? now p.1 = Record.get? raw p.1) :
      (e.schema.visit (Entity.childAdapters e.values) target p).Ends now
        (Edit.OnlyAt p.1 (visited p.1) now) bad := by
    rw [Entity.visit_eq hfields target hp]
    cases hset : e.composed? p.1 with
    | none => exact Edit.ends_pure (Edit.onlyAt_self hnow (hget ▸ hplain p.1 hset))
    | some v => exact hcomposed p.1 v hset now hnow hget
  refine Edit.ends_mono (Edit.ends_forM hfields hraw hstep) ?_
  rintro slots ⟨hslots, hother, hvisited⟩
  refine ⟨hslots, fun n => ?_⟩
  by_cases hn : n ∈ e.schema.fieldNames
  · obtain ⟨p, hp, rfl⟩ := List.mem_map.mp hn
    exact hvisited p hp
  · have hunset : e.composed? n = none := by
      rw [composed?, show e.schema.field? n = none from Record.get?_eq_none_iff.mpr hn]
      rfl
    exact hother n hn ▸ hplain n hunset

omit [Codecs] in
theorem Entity.composed?_eq_some_iff {e : Entity} {n : String} {v : Value} :
    e.composed? n = some v ↔
      ∃ f, e.schema.field? n = some f ∧ f.kind.isObject = true ∧ Record.get? e.values n = some v := by
  rw [composed?, Option.bind_eq_some_iff]
  refine exists_congr fun f => and_congr_right fun _ => ?_
  cases f.kind.isObject <;> simp

/-- A composed field that is set is written as its kind writes it. -/
theorem Entity.exists_write_of_composed? {e : Entity} (hfields : e.schema.fieldNames.Nodup)
    {raw : Members} (hraw : e.data = .ok raw) {n : String} {v : Value}
    (hset : e.composed? n = some v) :
    ∃ f j, e.schema.field? n = some f ∧ f.kind.isObject = true ∧ Record.get? e.values n = some v ∧
      v.write n f.kind = .ok j ∧ Record.get? raw n = some j := by
  obtain ⟨f, hf, hkind, hv⟩ := composed?_eq_some_iff.mp hset
  have hwrite : (Record.get? raw n).map Except.ok = some (v.write n f.kind) := by
    rw [get?_data hfields hraw hf, hv]
    rfl
  obtain ⟨j, hj, hok⟩ := Option.map_eq_some_iff.mp hwrite
  exact ⟨f, j, hf, hkind, hv, hok.symm, hj⟩

/-- The rule of a composed field edits the entry of the field as its table says. -/
theorem Entity.adaptField_ends {e : Entity} (hschema : e.schema.WellFormed) (target : Version)
    {n : String} {v : Value} (hset : e.composed? n = some v) {j : Json} (hj : v.Composes j)
    (hd : ∀ d ∈ v.children, ∀ goal data, d.data = .ok data →
      (d.makeCompatible goal).Ends data (d.Backport goal) (d.Blocked goal))
    {now : Members} (hnow : Record.Ascending now) (hget : Record.get? now n = some j) :
    (e.schema.adaptField target n (v.adaptWire n)).Ends now
      (Edit.OnlyAt n (fun slot => ∃ table, e.schema.relationship? n = some table ∧ table ≠ [] ∧
        Value.Slot table target v slot) now) (e.Blocked target) := by
  refine Schema.adaptField_ends hschema hnow hget (.noRule hset) ?_ ?_
  · intro table htable hne hchild
    have hasc := hschema.relationship htable
    exact ⟨table, htable, hne, .absent ((Relationship.childAt?_eq_none_iff hasc).mp hchild)⟩
  · intro table goal htable hne hchild
    have hwire := Value.adaptWire_ends hj n hchild fun d hd' => hd d hd' goal
    unfold JsonEdit.Ends at hwire ⊢
    split at hwire
    · exact ⟨table, htable, hne, hwire⟩
    · obtain ⟨d, hd', hadapted, herr⟩ := hwire
      exact .child hset htable hchild hd' hadapted herr

/-- The walk makes of written data what the tables say, or meets what blocks it. -/
theorem Entity.makeCompatible_ends {e : Entity} (h : ∀ d ∈ e.graph, d.InForm) (target : Version)
    {raw : Members} (hraw : e.data = .ok raw) :
    (e.makeCompatible target).Ends raw (e.Backport target) (e.Blocked target) := by
  induction e using Entity.nested generalizing target raw with
  | h e ih =>
      have he : e.InForm := h e e.self_mem_graph
      have hfields := he.wellFormed.schema.fields
      obtain ⟨hasc, -, -⟩ := (Entity.data_eq_ok_iff hfields).mp hraw
      have hd (q : String × Value) (hq : q ∈ e.values) (d : Entity) (hd : d ∈ q.2.graph)
          (goal : Version) (data : Members) (hdata : d.data = .ok data) :
          (d.makeCompatible goal).Ends data (d.Backport goal) (d.Blocked goal) :=
        ih q hq d hd (fun x hx => Entity.forall_graph_values h q hq x (Value.graph_trans hd hx))
          goal hdata
      have hplain (n : String) (hn : e.composed? n = none) :
          e.Visited target raw n (Record.get? raw n) := by
        rw [Visited, hn]
      rw [makeCompatible_eq]
      refine Edit.ends_bind (Entity.walk_ends hfields hasc hplain fun n v hset now hnow hget => ?_)
        fun slots hwalk => ?_
      · obtain ⟨f, j, hf, hkind, hv, hwrite, hj⟩ := exists_write_of_composed? hfields hraw hset
        have hmem : (n, v) ∈ e.values := Record.mem_of_get? hv
        have hcomposes := Field.composes hkind (he.stored _ hmem f hf) hwrite
        have hends := Entity.adaptField_ends he.wellFormed.schema target hset hcomposes
          (fun d hd' => hd _ hmem d (Value.mem_graph_of_mem_children hd')) hnow (hget.trans hj)
        refine Edit.ends_mono hends ?_
        rintro ms' ⟨hms', hother, hslot⟩
        refine ⟨hms', hother, ?_⟩
        rw [Visited, hset]
        exact hslot
      · obtain ⟨hslots, hentry⟩ := hwalk
        have hbefore : e.Slots target slots := by
          refine .intro hraw hslots (fun n hn => ?_) (fun n v hv => ?_) fun n v table hv htable => ?_
          · have h := hentry n
            rwa [Visited, hn] at h
          · have h := hentry n
            rw [Visited, hv] at h
            obtain ⟨table, htable, hne, -⟩ := h
            exact ⟨table, htable, hne⟩
          · have h := hentry n
            rw [Visited, hv] at h
            obtain ⟨table', htable', -, hslot⟩ := h
            cases htable.symm.trans htable'
            exact hslot
        unfold Edit.Ends
        split
        · next data hhook => exact ⟨slots, hbefore, hhook⟩
        · next err data hhook => exact .hook hbefore hhook

theorem Entity.writeAt_eq {e : Entity} {raw : Members} (hraw : e.data = .ok raw)
    (target : Version) : e.writeAt target = match e.makeCompatible target raw with
      | (.ok (), data) => .ok (e.wrap target data)
      | (.error err, _) => .error err := by
  rw [writeAt, hraw]
  rfl

/-- What is sent at a version was written and then adapted. -/
theorem Entity.exists_run_of_writeAt {e : Entity} {target : Version} {p : Primitive}
    (h : e.writeAt target = .ok p) :
    ∃ raw data, e.data = .ok raw ∧ e.makeCompatible target raw = (.ok (), data) ∧
      e.wrap target data = p := by
  obtain ⟨raw, hraw, -⟩ := Except.bind_eq_ok_iff.mp h
  rw [writeAt_eq hraw] at h
  rcases hrun : e.makeCompatible target raw with ⟨err | ⟨⟩, data⟩
  · rw [hrun] at h
    cases h
  · rw [hrun] at h
    cases h
    exact ⟨raw, data, hraw, hrun, rfl⟩

/-- **A backport is what the tables say.** An entity that can be written is sent to an
older or newer peer with the peer's version, the data that the tables and hooks make of it
at every depth, and the change markers that still name data; or it is blocked by a field
without a table or by a hook. -/
theorem Entity.writeAt_backport (e : Entity) (h : ∀ d ∈ e.graph, d.InForm)
    (hwrite : ∃ p, e.writeFor none = .ok p) (target : Version) :
    (∃ q, e.writeAt target = .ok q ∧ q.space = Primitive.entitySpace ∧ q.name = e.schema.name ∧
      q.version = target.text ∧ e.Backport target q.data ∧
      q.changes = e.whatChanged.filter (Record.contains q.data)) ∨
    ∃ err, e.writeAt target = .error err ∧ e.Blocked target err := by
  obtain ⟨p, hp⟩ := hwrite
  obtain ⟨raw, hraw, -⟩ := Except.map_eq_ok_iff.mp (e.write_eq.symm.trans hp)
  have hends := Entity.makeCompatible_ends h target hraw
  have hrun := Entity.writeAt_eq hraw target
  unfold Edit.Ends at hends
  rcases hend : e.makeCompatible target raw with ⟨err | ⟨⟩, data⟩
  · rw [hend] at hends hrun
    exact Or.inr ⟨err, hrun, hends⟩
  · rw [hend] at hends hrun
    exact Or.inl ⟨e.wrap target data, hrun, rfl, rfl, rfl, hends, rfl⟩

end

/-! ## A shelf of books

A shelf of the first version holds a book that its table does not give yet; sent at its own
version, the shelf brings the book down. -/

namespace Library

attribute [local instance] Codecs.none

def bookSchema : Schema := ⟨"Book", ⟨1, 1, none⟩, [("title", ⟨.string, false, none⟩)], [], [], none⟩

def shelfSchema : Schema :=
  ⟨"Shelf", ⟨1, 0, none⟩, [("objects", ⟨.listOfObjects "Book", false, none⟩)],
    [("objects", [(⟨1, 0, none⟩, ⟨1, 0, none⟩)])], [], none⟩

def book : Entity := ⟨bookSchema, ⟨1, 1, none⟩, none, [("title", .str "t")], []⟩

def shelf : Entity := ⟨shelfSchema, ⟨1, 0, none⟩, none, [("objects", .list [.entity book])], []⟩

theorem book_inForm : book.InForm :=
  ⟨by decide, List.forall_mem_cons.mpr ⟨fun _ hf => by cases hf; exact Or.inr rfl, nofun⟩⟩

theorem shelf_inForm : shelf.InForm :=
  ⟨by decide, List.forall_mem_cons.mpr ⟨fun _ hf => by cases hf; exact Or.inr rfl, nofun⟩⟩

theorem shelf_backport :
    (∀ d ∈ shelf.graph, d.InForm) ∧ (∃ p, shelf.writeFor none = .ok p) ∧
    ((∃ q, shelf.writeAt ⟨1, 0, none⟩ = .ok q ∧ q.space = Primitive.entitySpace ∧
      q.name = shelf.schema.name ∧ q.version = Version.text ⟨1, 0, none⟩ ∧
      shelf.Backport ⟨1, 0, none⟩ q.data ∧
      q.changes = shelf.whatChanged.filter (Record.contains q.data)) ∨
    ∃ err, shelf.writeAt ⟨1, 0, none⟩ = .error err ∧ shelf.Blocked ⟨1, 0, none⟩ err) := by
  have hform : ∀ d ∈ shelf.graph, d.InForm :=
    List.forall_mem_cons.mpr ⟨shelf_inForm, List.forall_mem_cons.mpr ⟨book_inForm, nofun⟩⟩
  have hwrite : ∃ p, shelf.writeFor none = .ok p := ⟨_, rfl⟩
  exact ⟨hform, hwrite, shelf.writeAt_backport hform hwrite ⟨1, 0, none⟩⟩

end Library

end Skew

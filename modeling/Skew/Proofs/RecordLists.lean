import Skew.Proofs.ListGrowth
import Skew.Proofs.Propagation

/-!
# Lists built from records

`EntityList.ofRecords` builds, settles and appends one item after another, and settles the list
at the end. Building does not look at the list, and of the list appending uses only what the
items field holds, so the loop is a pass over the records (`EntityList.pushRecords_matches`):
each is made an item of its own, the first that has a fault ends it, and without a fault the
items stand in the list in the order of the records.

An item is what its building made, in everything but marks (`EntityList.ofRecords_faithful`).
The marks are gone from the entities that a reset reaches, those composed directly or in a list
of entities. In the other containers nothing looks for changes, and nothing takes them away:
what `Value.Shelters` places there stands in the list as building left it, marks and all.
-/

namespace Skew

open Schema (itemsField)

/-! ## Out of reach of a reset -/

/-- At the address in the first value stands the second, inside a tuple, a set, a map or an
element of a list that is no entity. -/
inductive Value.Shelters : Value → List Hop → Value → Prop
  | tuple {vs : List Value} {q : List Hop} {w : Value} (h : (Value.tuple vs).at? q = some w) :
      Shelters (.tuple vs) q w
  | set {vs : List Value} {q : List Hop} {w : Value} (h : (Value.set vs).at? q = some w) :
      Shelters (.set vs) q w
  | map {es : Record Value} {q : List Hop} {w : Value} (h : (Value.map es).at? q = some w) :
      Shelters (.map es) q w
  | item {vs : List Value} {i : Nat} {u w : Value} {q : List Hop} (hi : vs[i]? = some u)
      (hu : u.entity? = none) (h : u.at? q = some w) : Shelters (.list vs) (.item i :: q) w
  | element {vs : List Value} {i : Nat} {d : Entity} {q : List Hop} {w : Value}
      (hi : vs[i]? = some (.entity d)) (h : Shelters (.entity d) q w) :
      Shelters (.list vs) (.item i :: q) w
  | field {e : Entity} {n : String} {v w : Value} {q : List Hop}
      (hn : Record.get? e.values n = some v) (h : Shelters v q w) :
      Shelters (.entity e) (.field n :: q) w

/-- What is sheltered stays as it is. -/
theorem Value.Shelters.settled {v w : Value} {q : List Hop} (h : v.Shelters q w) :
    v.settled.at? q = some w := by
  induction h with
  | tuple h | set h | map h => exact h
  | @item vs i u w q hi hu h =>
      have hitem : (Value.list vs).settled.hop? (.item i) = some u := by
        rw [Value.settled, settledItems_eq, hop?, List.getElem?_map, hi]
        cases u with
        | entity e => cases hu
        | _ => rfl
      rw [at?_cons, hitem]
      exact h
  | @element vs i d q w hi _ ih =>
      have hitem : (Value.list vs).settled.hop? (.item i) = some (.entity d.settled) := by
        rw [Value.settled, settledItems_eq, hop?, List.getElem?_map, hi]
        rfl
      rw [at?_cons, hitem]
      exact ih
  | @field e n v w q hn _ ih =>
      have hfield : (Value.entity e).settled.hop? (.field n) = some v.settled := by
        rw [Value.settled, hop?, Entity.settled_values, Record.get?_map fun _ => Value.settled, hn]
        rfl
      rw [at?_cons, hfield]
      exact ih

namespace EntityList

variable {ρ : Type} (c : Context) (list item : Schema) (build : ρ → Update Unit)

/-! ## One record -/

/-- What building makes of a fresh item. -/
def built (r : ρ) : Outcome Entity :=
  match build r ((Entity.ofSchema item).bound c) with
  | (.ok (), e) => .ok e
  | (.error err, _) => .error err

/-- The item of a record, for a list with elements of the given type. -/
def itemOf (type : String) (r : ρ) : Outcome Entity := do
  let e ← built c item build r
  if e.typeName = type then .ok e
  else .error (.invalidValue itemsField (.wrongType type e.typeName))

/-- What is wrong with a record: building fails, or makes an entity of another type. -/
inductive Fault (type : String) (r : ρ) : EntityError → Prop
  | failed {err : EntityError} (h : built c item build r = .error err) : Fault type r err
  | mistyped {e : Entity} (h : built c item build r = .ok e) (htype : e.typeName ≠ type) :
      Fault type r (.invalidValue itemsField (.wrongType type e.typeName))

variable {c item build} {type : String} {r : ρ}

theorem itemOf_eq_ok_iff {e : Entity} :
    itemOf c item build type r = .ok e ↔ built c item build r = .ok e ∧ e.typeName = type := by
  rw [itemOf, Except.bind_eq_ok_iff]
  constructor
  · rintro ⟨d, hd, h⟩
    split at h
    · next htype =>
        cases h
        exact ⟨hd, htype⟩
    · cases h
  · rintro ⟨he, htype⟩
    exact ⟨e, he, if_pos htype⟩

theorem itemOf_eq_error_iff {err : EntityError} :
    itemOf c item build type r = .error err ↔ Fault c item build type r err := by
  constructor
  · intro h
    rw [itemOf] at h
    cases hbuilt : built c item build r with
    | error err' =>
        rw [hbuilt] at h
        cases h
        exact .failed hbuilt
    | ok e =>
        rw [hbuilt, Except.ok_bind] at h
        split at h
        · cases h
        · next htype =>
            cases h
            exact .mistyped hbuilt htype
  · intro h
    cases h with
    | failed h =>
        rw [itemOf, h]
        rfl
    | mistyped h htype => rw [itemOf, h, Except.ok_bind, if_neg htype]

/-! ## The loop -/

theorem itemType_eq {l : EntityList} (h : l.inner.schema.itemType? = some type) :
    l.itemType = type := by
  obtain ⟨isNullable, default?, hfields⟩ := Schema.itemType?_eq_some_iff.mp h
  rw [itemType, Schema.field?, hfields, Record.get?, if_pos rfl]

/-- One list is the other with these elements, and marks of its own. -/
def Refilled (l l' : EntityList) (vs : List Value) : Prop :=
  ∃ changed, l'.inner = { l.inner with values := [(itemsField, .list vs)], changed := changed }

section

variable {l : EntityList} (hschema : l.inner.schema.itemType? = some type) {vs : List Value}
  (hvalues : l.inner.values = [(itemsField, .list vs)])
include hschema hvalues

/-- One turn of the loop appends the item of the record, settled. -/
theorem push_matches (r : ρ) :
    (built c item build r >>= fun e => l.push e.settled).Matching
      (fun l' e => l.Refilled l' (vs ++ [.entity e.settled])) (itemOf c item build type r) := by
  have hget : Record.get? l.inner.values itemsField = some (.list vs) := by
    rw [hvalues]
    rfl
  have hwraps : l.Wraps :=
    ⟨Option.isSome_iff_exists.mpr ⟨type, hschema⟩, Record.contains_iff.mpr ⟨_, hget⟩⟩
  rw [itemOf]
  cases built c item build r with
  | error err => exact .error err
  | ok e =>
      have hname : e.settled.typeName = e.typeName := by
        cases e
        rfl
      simp only [Except.ok_bind]
      by_cases htype : e.typeName = type
      · rw [if_pos htype,
          push_of_holdsList hwraps hget ((hname.trans htype).trans (itemType_eq hschema).symm)]
        refine .ok ⟨NameSet.insert l.inner.changed itemsField, ?_⟩
        rw [Entity.assigned, Entity.storeCoerced, hvalues]
        rfl
      · have hne : e.settled.typeName ≠ l.itemType := by
          rwa [hname, itemType_eq hschema]
        rw [if_neg htype, push_of_ne hne, hname, itemType_eq hschema]
        exact .error _

/-- The loop is a pass over the records. -/
theorem pushRecords_matches (c : Context) (item : Schema) (build : ρ → Update Unit)
    (records : List ρ) :
    (pushRecords c item build records l).Matching
      (fun l' es => l.Refilled l' (vs ++ es.map fun e => .entity e.settled))
      (records.mapM (itemOf c item build type)) := by
  induction records generalizing l vs with
  | nil =>
      obtain ⟨⟨schema, version, context?, values, changed⟩⟩ := l
      cases hvalues
      refine .ok ⟨changed, ?_⟩
      rw [List.reverse_nil, List.map_nil, List.append_nil]
  | cons r records ih =>
      have hloop : pushRecords c item build (r :: records) l =
          (built c item build r >>= fun e => l.push e.settled) >>=
            pushRecords c item build records := by
        rw [pushRecords, built]
        rcases build r ((Entity.ofSchema item).bound c) with ⟨_ | _, e⟩ <;> rfl
      rw [hloop, List.mapM_cons]
      refine (push_matches hschema hvalues r).bind ?_
      rintro l' e ⟨changed, hl'⟩
      have hvalues' : l'.inner.values = [(itemsField, .list (vs ++ [.entity e.settled]))] := by
        rw [hl']
      have hrest := ih (l := l') (hl' ▸ hschema) hvalues'
      rw [← bind_pure (pushRecords c item build records l')]
      refine hrest.bind ?_
      rintro l'' es ⟨changed', hl''⟩
      refine .ok ⟨changed', ?_⟩
      rw [hl'', hl', List.map_cons, List.append_assoc]
      rfl

end

/-! ## The list -/

/-- The list of these entities, bound to the context and settled. -/
def ofItems (c : Context) (list : Schema) (es : List Entity) : EntityList :=
  ⟨Entity.settled ⟨list, list.version, some c, [(itemsField, .list (es.map .entity))], []⟩⟩

theorem items_ofItems {list : Schema} (h : list.itemType? = some type) (es : List Entity) :
    (ofItems c list es).items = es.map fun e => .entity e.settled := by
  have hget : Record.get? (ofItems c list es).inner.values itemsField =
      some (.list (es.map fun e => .entity e.settled)) :=
    congrArg (fun vs => some (Value.list vs)) (Value.settledItems_entities es)
  exact items_of_holdsList ⟨Option.isSome_iff_exists.mpr ⟨type, h⟩, rfl⟩ hget

variable {list : Schema} {records : List ρ}

/-- The items are bound to the context as their building leaves them. -/
theorem context_of_mem_ofItems (h : list.itemType? = some type) {es : List Entity}
    (hes : List.Forall₂ (fun r e => itemOf c item build type r = .ok e) records es)
    (hcontext : ∀ r ∈ records, ∀ e, built c item build r = .ok e → e.context? = some c)
    {d : Entity} (hd : d ∈ (ofItems c list es).entities) : d.context? = some c := by
  rw [entities, items_ofItems h, List.mem_filterMap] at hd
  obtain ⟨v, hv, hd⟩ := hd
  obtain ⟨e, he, rfl⟩ := List.mem_map.mp hv
  cases hd
  obtain ⟨r, hr, hitem⟩ := List.exists_of_mem_forall₂ hes he
  have hkept := hcontext r hr e (itemOf_eq_ok_iff.mp hitem).1
  cases e
  exact hkept

variable [Codecs]

theorem ofSchema_eq {s : Schema} (h : s.itemType? = some type) :
    ofSchema s = .ok ⟨(Entity.ofSchema s).storeCoerced itemsField (.list [])⟩ := by
  obtain ⟨isNullable, default?, hfields⟩ := Schema.itemType?_eq_some_iff.mp h
  obtain ⟨name, version, fields, relationships, methods, hook?⟩ := s
  cases hfields
  rfl

theorem ofRecords_matches (c : Context) {list : Schema} (h : list.itemType? = some type)
    (item : Schema) (build : ρ → Update Unit) (records : List ρ) :
    (ofRecords c list item records build).Matching (fun l es => l = ofItems c list es)
      (records.mapM (itemOf c item build type)) := by
  have hloop := pushRecords_matches
    (l := ⟨(Entity.ofSchema list).storeCoerced itemsField (.list [])⟩) h rfl c item build records
  rw [ofRecords, ofSchema_eq h, Except.ok_bind, ← bind_pure (records.mapM _)]
  refine hloop.bind ?_
  rintro l es ⟨changed, hl⟩
  refine .ok ?_
  have hagain : Value.settledItems (es.map fun e => .entity e.settled) =
      Value.settledItems (es.map .entity) := by
    have hes : (es.map fun e => Value.entity e.settled) = (es.map Entity.settled).map .entity :=
      (List.map_map ..).symm
    rw [hes, Value.settledItems_entities, Value.settledItems_entities, List.map_map]
    exact List.map_congr_left fun e _ => congrArg Value.entity e.settled_settled
  rw [hl, ofItems]
  simp only [Entity.bound, Entity.settled, Entity.settledEntries, Value.settled, List.nil_append,
    hagain]
  rfl

/-! ## Where it fails -/

/-- A schema that is no list type is refused before any record is looked at. -/
theorem exists_ofRecords_error (c : Context) (item : Schema) (build : ρ → Update Unit)
    (records : List ρ) (h : list.itemType? = none) :
    ∃ err, ofSchema list = .error err ∧ ofRecords c list item records build = .error err := by
  cases hfirst : ofSchema list with
  | ok l =>
      have htype := isList_of_ofSchema hfirst
      rw [Schema.isList, h] at htype
      cases htype
  | error err =>
      refine ⟨err, rfl, ?_⟩
      rw [ofRecords, hfirst]
      rfl

theorem ofRecords_eq_error_iff (h : list.itemType? = some type) {err : EntityError} :
    ofRecords c list item records build = .error err ↔
      ∃ before r after, records = before ++ r :: after ∧
        (∀ r' ∈ before, ∃ e, built c item build r' = .ok e ∧ e.typeName = type) ∧
        Fault c item build type r err := by
  simp only [(ofRecords_matches c h item build records).eq_error_iff, List.mapM_eq_error_iff,
    itemOf_eq_ok_iff, itemOf_eq_error_iff]

theorem ofRecords_fails_iff (h : list.itemType? = some type) :
    (∃ err, ofRecords c list item records build = .error err) ↔
      ∃ r ∈ records, ∃ err, Fault c item build type r err := by
  simp only [(ofRecords_matches c h item build records).eq_error_iff, ← itemOf_eq_error_iff,
    Except.exists_eq_error_iff, List.exists_mapM_eq_ok_iff, not_forall, exists_prop]

/-- Where building keeps the type of the item, that type is wrong for all records or for none. -/
theorem ofRecords_fails_iff_of_typed
    (hname : ∀ r ∈ records, ∀ e, built c item build r = .ok e → e.typeName = item.name) :
    (∃ err, ofRecords c list item records build = .error err) ↔
      list.itemType? = none ∨ list.itemType? ≠ some item.name ∧ records ≠ [] ∨
        ∃ r ∈ records, ∃ err, built c item build r = .error err := by
  cases hlist : list.itemType? with
  | none =>
      obtain ⟨err, -, herr⟩ := exists_ofRecords_error c item build records hlist
      exact iff_of_true ⟨err, herr⟩ (Or.inl rfl)
  | some type =>
      rw [ofRecords_fails_iff hlist]
      constructor
      · rintro ⟨r, hr, err, hfault⟩
        cases hfault with
        | failed h => exact Or.inr (Or.inr ⟨r, hr, err, h⟩)
        | mistyped h htype =>
            refine Or.inr (Or.inl ⟨fun hsame => htype ?_, List.ne_nil_of_mem hr⟩)
            rw [hname r hr _ h, Option.some.inj hsame]
      · rintro (hcause | ⟨htype, hrecords⟩ | ⟨r, hr, err, herr⟩)
        · cases hcause
        · obtain ⟨r, hr⟩ := List.exists_mem_of_ne_nil records hrecords
          cases hbuilt : built c item build r with
          | error err => exact ⟨r, hr, err, .failed hbuilt⟩
          | ok e =>
              refine ⟨r, hr, _, .mistyped hbuilt fun hsame => htype ?_⟩
              rw [← hsame, hname r hr e hbuilt]
        · exact ⟨r, hr, err, .failed herr⟩

/-! ## What it makes -/

/-- A list with one item for each record, in order: what building made, in everything but
marks. The list is bound to the context, and no entity composed in it has changes. What an item
shelters is what building put there. -/
structure Faithful (c : Context) (list item : Schema) (build : ρ → Update Unit) (records : List ρ)
    (l : EntityList) : Prop where
  size : l.size = records.length
  items : ∀ i r, records[i]? = some r →
    ∃ e d, built c item build r = .ok e ∧ l.get? i = some d ∧ e.DiffersInMarks d ∧
      ∀ q w, (Value.entity e).Shelters q w → (Value.entity d).at? q = some w
  schema : l.inner.schema = list
  bound : l.inner.context? = some c
  clean : ∀ d, (Value.entity l.inner).Owns d → d.whatChanged = []

omit [Codecs] in
theorem faithful_ofItems (h : list.itemType? = some type) {es : List Entity}
    (hes : List.Forall₂ (fun r e => itemOf c item build type r = .ok e) records es) :
    Faithful c list item build records (ofItems c list es) := by
  refine ⟨?_, fun i r hr => ?_, rfl, rfl, fun d hd => ?_⟩
  · rw [size, items_ofItems h, List.length_map, hes.length_eq]
  · obtain ⟨hi, rfl⟩ := List.getElem?_eq_some_iff.mp hr
    have hi' : i < es.length := hes.length_eq ▸ hi
    have hitem := hes.get hi hi'
    refine ⟨es[i], es[i].settled, (itemOf_eq_ok_iff.mp hitem).1, ?_, ?_, fun _ _ h => h.settled⟩
    · rw [get?, items_ofItems h, List.getElem?_map, List.getElem?_eq_getElem hi']
      rfl
    · rw [Entity.settled_eq]
      exact Entity.differsInMarks_of_unmarked (es[i].resetChanges_unmarked none true)
  · have hsettled : (Value.entity (ofItems c list es).inner).settled =
        .entity (ofItems c list es).inner := Value.settled_settled (.entity _)
    rw [← hsettled] at hd
    exact hd.whatChanged_eq_nil

/-- **Lists from records.** Over a schema that is no list type, building a list fails at once.
Over a list type it fails exactly as the first record with a fault does. Otherwise the list is
faithful, and its items are bound to the context. Where building keeps the type of the item,
the list fails only for its schema, for the type of the item, or for a failed building. -/
theorem ofRecords_faithful (c : Context) (list item : Schema) (build : ρ → Update Unit)
    (records : List ρ)
    (hcontext : ∀ r ∈ records, ∀ e, built c item build r = .ok e → e.context? = some c) :
    (list.itemType? = none →
      ∃ err, ofSchema list = .error err ∧ ofRecords c list item records build = .error err) ∧
    (∀ type, list.itemType? = some type → ∀ err,
      ofRecords c list item records build = .error err ↔
        ∃ before r after, records = before ++ r :: after ∧
          (∀ r' ∈ before, ∃ e, built c item build r' = .ok e ∧ e.typeName = type) ∧
          Fault c item build type r err) ∧
    (∀ l, ofRecords c list item records build = .ok l →
      Faithful c list item build records l ∧ ∀ d ∈ l.entities, d.context? = some c) ∧
    ((∀ r ∈ records, ∀ e, built c item build r = .ok e → e.typeName = item.name) →
      ((∃ err, ofRecords c list item records build = .error err) ↔
        list.itemType? = none ∨ list.itemType? ≠ some item.name ∧ records ≠ [] ∨
          ∃ r ∈ records, ∃ err, built c item build r = .error err)) := by
  refine ⟨exists_ofRecords_error c item build records,
    fun type htype err => ofRecords_eq_error_iff htype, fun l hl => ?_, ofRecords_fails_iff_of_typed⟩
  cases hlist : list.itemType? with
  | none =>
      obtain ⟨err, -, herr⟩ := exists_ofRecords_error c item build records hlist
      rw [hl] at herr
      cases herr
  | some type =>
      obtain ⟨es, hes, rfl⟩ := (hl ▸ ofRecords_matches c hlist item build records).exists_of_ok
      have hbeside := List.mapM_eq_ok_iff.mp hes
      exact ⟨faithful_ofItems hlist hbeside, fun d => context_of_mem_ofItems hlist hbeside hcontext⟩

end EntityList

/-! ## A toolbox

A tool is built by assigning its fields. The saw comes with a part that was changed, in a map. -/

namespace Toolbox

attribute [local instance] Codecs.none

def partSchema : Schema :=
  ⟨"Part", ⟨1, 0, none⟩, [("code", ⟨.string, false, none⟩)], [], [], none⟩

def part : Entity := ⟨partSchema, ⟨1, 0, none⟩, none, [("code", .str "b7")], ["code"]⟩

def toolSchema : Schema :=
  ⟨"Tool", ⟨1, 0, none⟩,
    [("name", ⟨.string, false, none⟩), ("parts", ⟨.dict (.object "Part"), true, none⟩)], [], [],
    none⟩

def schema : Schema :=
  ⟨"Toolbox", ⟨1, 0, none⟩, [(itemsField, ⟨.listOfObjects "Tool", false, some (.list [])⟩)], [],
    [], none⟩

def owner : Context := .ofUser "r1" "ada" "shop"

def records : List (List (String × Value)) :=
  [[("name", .str "drill")], [("name", .str "saw"), ("parts", .map [("blade", .entity part)])]]

theorem tools_bound : ∀ r ∈ records, ∀ e,
    EntityList.built owner toolSchema Update.setAll r = .ok e → e.context? = some owner :=
  List.forall_mem_cons.mpr ⟨fun e he => by cases he; rfl,
    List.forall_mem_cons.mpr ⟨fun e he => by cases he; rfl, nofun⟩⟩

theorem toolbox_faithful :
    (∀ r ∈ records, ∀ e,
      EntityList.built owner toolSchema Update.setAll r = .ok e → e.context? = some owner) ∧
    ∃ l, EntityList.ofRecords owner schema toolSchema records Update.setAll = .ok l ∧
      EntityList.Faithful owner schema toolSchema Update.setAll records l ∧
      ∀ d ∈ l.entities, d.context? = some owner :=
  ⟨tools_bound, _, rfl, (EntityList.ofRecords_faithful owner schema toolSchema Update.setAll
    records tools_bound).2.2.1 _ rfl⟩

/-- The part of the saw keeps its mark. -/
theorem part_stays_changed :
    (∀ r ∈ records, ∀ e,
      EntityList.built owner toolSchema Update.setAll r = .ok e → e.context? = some owner) ∧
    ∃ l, EntityList.ofRecords owner schema toolSchema records Update.setAll = .ok l ∧
      part ∈ l.inner.graph ∧ part.whatChanged ≠ [] := by
  refine ⟨tools_bound, _, rfl, ?_, by decide⟩
  exact List.mem_cons_of_mem _ (List.mem_cons_of_mem _ (List.mem_cons_of_mem _ List.mem_cons_self))

end Toolbox

end Skew

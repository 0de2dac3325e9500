import Skew.Proofs.Resetting
import Skew.Proofs.Sending

/-!
# Growth of lists

A list type has one field, and an `EntityList` appends to the list that this field holds.
Whether there is a list is settled when the entity is wrapped: wrapping looks at the schema
only, and puts a list where the field is unset. From then on an attempt to append leaves the
schema alone, and a list a list, so there are three ways such an attempt can end
(`EntityList.Appends`): it is refused for the type of the entity; or the list has grown by it;
or the field holds something that is no list, and then the entity is lost although the attempt
counts as a success.

By induction on the entities that are offered, a list gathers those of its own type, in order,
and sends them all, while a field without a list keeps what it holds
(`EntityList.growth`). A field comes to hold something that is no list only where null is
stored in it, as it is or as the default in its place.
-/

namespace Skew

open Schema (itemsField)

/-- What a list type stores is a list, unless null was assigned. -/
theorem Schema.stored_of_isList [Codecs] {s : Schema} (h : s.isList = true) {f : Field}
    (hf : s.field? itemsField = some f) {v w : Value} (hw : f.coerce v = .ok w) :
    (∃ vs, w = .list vs) ∨ v = .null ∧
      (f.isNullable = true ∧ w = .null ∨ f.isNullable = false ∧ f.default? = some w) := by
  obtain ⟨type, isNullable, default?, hfields⟩ := exists_itemsField h
  rw [field?, hfields, Record.get?, if_pos rfl] at hf
  cases hf
  rw [Field.coerce] at hw
  split at hw
  · next hnull =>
      have hv : v = .null := by
        cases v <;> first | rfl | cases hnull
      refine Or.inr ⟨hv, ?_⟩
      split at hw
      · next hnullable => exact Or.inl ⟨hnullable, (Except.ok.inj hw).symm⟩
      · next hnullable =>
          split at hw
          · next hdefault =>
              cases hw
              exact Or.inr ⟨Bool.not_eq_true _ ▸ hnullable, hdefault⟩
          · cases hw
  · left
    cases v with
    | list vs | tuple vs =>
        obtain ⟨ws, -, rfl⟩ := Except.map_eq_ok_iff.mp hw
        exact ⟨ws, rfl⟩
    | _ => cases hw

namespace EntityList

/-! ## Appending once -/

/-- The entity is one of a list type whose field is set. -/
structure Wraps (l : EntityList) : Prop where
  isList : l.inner.schema.isList = true
  isSet : l.inner.isSet itemsField = true

/-- The field holds a list. -/
def HoldsList (l : EntityList) : Prop :=
  ∃ vs, Record.get? l.inner.values itemsField = some (.list vs)

/-- One list is the other with an entity at its end, and counts as changed. -/
structure Grown (l : EntityList) (item : Entity) (l' : EntityList) : Prop where
  items : l'.items = l.items ++ [.entity item]
  size : l'.size = l.size + 1
  last : l'.get? l.size = some item
  earlier : ∀ i < l.size, l'.get? i = l.get? i
  changed : itemsField ∈ l'.inner.whatChanged

/-- The ways an attempt to append an entity can end. -/
inductive Appends (l : EntityList) (item : Entity) : Outcome EntityList → Prop
  | refused (htype : item.typeName ≠ l.itemType) :
      Appends l item (.error (.invalidValue itemsField (.wrongType l.itemType item.typeName)))
  | grown {l' : EntityList} (htype : item.typeName = l.itemType) (hlist : l.HoldsList)
      (hlist' : l'.HoldsList) (h : l.Grown item l') : Appends l item (.ok l')
  | lost {l' : EntityList} (htype : item.typeName = l.itemType) (hlist : ¬ l.HoldsList)
      (hvalues : l'.inner.values = l.inner.values) (hchanged : itemsField ∈ l'.inner.whatChanged) :
      Appends l item (.ok l')

theorem get_of_wraps {l : EntityList} (h : l.Wraps) {v : Value}
    (hv : Record.get? l.inner.values itemsField = some v) : l.inner.get itemsField = .ok v := by
  obtain ⟨type, isNullable, default?, hfields⟩ := Schema.exists_itemsField h.isList
  refine Entity.get_eq_ok_iff.mpr ⟨⟨⟨.listOfObjects type, isNullable, default?⟩, ?_⟩, hv⟩
  rw [Schema.field?, hfields, Record.get?, if_pos rfl]

theorem items_of_holdsList {l : EntityList} (h : l.Wraps) {vs : List Value}
    (hvs : Record.get? l.inner.values itemsField = some (.list vs)) : l.items = vs := by
  rw [items, get_of_wraps h hvs]
  rfl

theorem push_of_ne {l : EntityList} {item : Entity} (htype : item.typeName ≠ l.itemType) :
    l.push item =
      .error (.invalidValue itemsField (.wrongType l.itemType item.typeName)) := by
  rw [push, if_pos htype]
  rfl

theorem push_of_holdsList {l : EntityList} (h : l.Wraps) {vs : List Value}
    (hvs : Record.get? l.inner.values itemsField = some (.list vs)) {item : Entity}
    (htype : item.typeName = l.itemType) :
    l.push item = .ok ⟨l.inner.assigned itemsField (.list (vs ++ [.entity item]))⟩ := by
  have hset : Record.contains (Record.insert l.inner.values itemsField
      (.list (vs ++ [.entity item]))) itemsField = true := by
    rw [Record.contains, Record.get?_insert_self]
    rfl
  rw [push, if_neg (not_not.mpr htype), get_of_wraps h hvs]
  simp only [Entity.markChanged, Entity.storeCoerced, Except.ok_bind, hset, if_true]
  rfl

theorem push_of_not_holdsList {l : EntityList} (h : l.Wraps) (hlist : ¬ l.HoldsList)
    {item : Entity} (htype : item.typeName = l.itemType) :
    l.push item =
      .ok ⟨{ l.inner with changed := NameSet.insert l.inner.changed itemsField }⟩ := by
  obtain ⟨v, hv⟩ := Record.contains_iff.mp h.isSet
  have hset : Record.contains l.inner.values itemsField = true := h.isSet
  rw [push, if_neg (not_not.mpr htype), get_of_wraps h hv]
  cases v with
  | list vs => exact absurd ⟨vs, hv⟩ hlist
  | _ => simp only [Entity.markChanged, Except.ok_bind, hset, if_true]

/-- An attempt to append ends in one of the three ways. -/
theorem push_appends {l : EntityList} (h : l.Wraps) (item : Entity) :
    l.Appends item (l.push item) := by
  by_cases htype : item.typeName = l.itemType
  · by_cases hlist : l.HoldsList
    · obtain ⟨vs, hvs⟩ := hlist
      let l' : EntityList := ⟨l.inner.assigned itemsField (.list (vs ++ [.entity item]))⟩
      have hget : Record.get? l'.inner.values itemsField =
          some (.list (vs ++ [.entity item])) := Record.get?_insert_self _ _ _
      have hwraps : l'.Wraps := ⟨h.isList, Record.contains_iff.mpr ⟨_, hget⟩⟩
      have hitems : l.items = vs := items_of_holdsList h hvs
      have hitems' : l'.items = vs ++ [.entity item] := items_of_holdsList hwraps hget
      rw [push_of_holdsList h hvs htype]
      refine .grown htype ⟨vs, hvs⟩ ⟨_, hget⟩ ⟨?_, ?_, ?_, fun i hi => ?_, ?_⟩
      · rw [hitems', hitems]
      · rw [size, size, hitems', hitems, List.length_append, List.length_singleton]
      · rw [get?, size, hitems', hitems, List.getElem?_concat_length]
        rfl
      · rw [size, hitems] at hi
        rw [get?, get?, hitems', hitems, List.getElem?_append_left hi]
      · exact Entity.mem_whatChanged_assigned.mpr (Or.inl rfl)
    · rw [push_of_not_holdsList h hlist htype]
      refine .lost htype hlist rfl ((Entity.mem_whatChanged_iff_within _ _).mpr (Or.inl ?_))
      exact NameSet.mem_insert.mpr (Or.inl rfl)
  · rw [push_of_ne htype]
    exact .refused htype

/-! ## Appending again and again -/

/-- The list after an attempt to append, which leaves it alone if it is refused. -/
def offer (l : EntityList) (item : Entity) : EntityList :=
  match l.push item with
  | .ok l' => l'
  | .error _ => l

def offerAll (l : EntityList) (offered : List Entity) : EntityList := offered.foldl offer l

/-- What no attempt to append changes. -/
structure Keeps (l l' : EntityList) : Prop where
  wraps : l'.Wraps
  schema : l'.inner.schema = l.inner.schema
  holds : l'.HoldsList ↔ l.HoldsList
  lost : ¬ l.HoldsList → l'.inner.values = l.inner.values

theorem Keeps.itemType {l l' : EntityList} (h : l.Keeps l') : l'.itemType = l.itemType := by
  rw [EntityList.itemType, h.schema]
  rfl

theorem Keeps.trans {l l' l'' : EntityList} (h : l.Keeps l') (h' : l'.Keeps l'') : l.Keeps l'' where
  wraps := h'.wraps
  schema := h'.schema.trans h.schema
  holds := h'.holds.trans h.holds
  lost hlist := (h'.lost (h.holds.not.mpr hlist)).trans (h.lost hlist)

/-- One attempt: entities of another type and fields without a list change nothing. -/
theorem offer_keeps {l : EntityList} (h : l.Wraps) (item : Entity) :
    l.Keeps (l.offer item) ∧ (l.HoldsList → (l.offer item).items =
      l.items ++ ([item].filter fun d => d.typeName = l.itemType).map Value.entity) := by
  have hcourse := push_appends h item
  have hschema (l' : EntityList) (hpush : l.push item = .ok l') :
      l'.inner.schema = l.inner.schema := (push_step hpush).schema
  rw [offer]
  generalize l.push item = outcome at hcourse hschema
  cases hcourse with
  | refused htype =>
      refine ⟨⟨h, rfl, Iff.rfl, fun _ => rfl⟩, fun _ => ?_⟩
      rw [List.filter_singleton, decide_eq_false htype]
      exact (List.append_nil l.items).symm
  | grown htype hlist hlist' hgrown =>
      obtain ⟨vs, hvs⟩ := hlist'
      have hsame := hschema _ rfl
      refine ⟨⟨⟨hsame ▸ h.isList, Record.contains_iff.mpr ⟨_, hvs⟩⟩, hsame,
        iff_of_true ⟨vs, hvs⟩ hlist, absurd hlist⟩, fun _ => ?_⟩
      rw [hgrown.items, List.filter_singleton, decide_eq_true htype]
      rfl
  | lost htype hlist hvalues _ =>
      have hsame := hschema _ rfl
      refine ⟨⟨⟨hsame ▸ h.isList, ?_⟩, hsame, ?_, fun _ => hvalues⟩,
        fun hholds => absurd hholds hlist⟩
      · rw [Entity.isSet, hvalues]
        exact h.isSet
      · rw [HoldsList, HoldsList, hvalues]

theorem offerAll_keeps {l : EntityList} (h : l.Wraps) (offered : List Entity) :
    l.Keeps (l.offerAll offered) ∧ (l.HoldsList → (l.offerAll offered).items =
      l.items ++ (offered.filter fun d => d.typeName = l.itemType).map Value.entity) := by
  induction offered generalizing l with
  | nil => exact ⟨⟨h, rfl, Iff.rfl, fun _ => rfl⟩, fun _ => (List.append_nil l.items).symm⟩
  | cons item offered ih =>
      obtain ⟨hkeeps, hitems⟩ := offer_keeps h item
      obtain ⟨hkeepsAll, hitemsAll⟩ := ih hkeeps.wraps
      refine ⟨hkeeps.trans hkeepsAll, fun hlist => ?_⟩
      have hrest := hitemsAll (hkeeps.holds.mpr hlist)
      rw [hitems hlist, hkeeps.itemType, List.append_assoc, ← List.map_append,
        ← List.filter_append] at hrest
      exact hrest

/-! ## Wrapped entities -/

section

variable [Codecs]

theorem wraps_of_ofEntity {e : Entity} {l : EntityList} (h : ofEntity e = .ok l) :
    l.Wraps ∧
      (l.HoldsList ↔ ∀ v, Record.get? e.values itemsField = some v → ∃ vs, v = .list vs) := by
  have hlist := isList_of_ofEntity h
  rw [ofEntity, if_neg (not_not.mpr hlist)] at h
  split at h
  · next hset =>
      cases h
      obtain ⟨v, hv⟩ := Record.contains_iff.mp hset
      refine ⟨⟨hlist, hset⟩, ?_⟩
      rw [HoldsList, hv]
      simp only [Option.some.injEq, forall_eq']
  · next hset =>
      obtain ⟨e', he', rfl⟩ := Except.map_eq_ok_iff.mp h
      rw [store_nil hlist he']
      have hget : Record.get? (e.storeCoerced itemsField (.list [])).values itemsField =
          some (.list []) := Record.get?_insert_self _ _ _
      refine ⟨⟨hlist, Record.contains_iff.mpr ⟨_, hget⟩⟩, iff_of_true ⟨[], hget⟩ fun v hv => ?_⟩
      exact absurd (Record.contains_iff.mpr ⟨v, hv⟩) hset

/-- The list has these elements, can be sent if all of them are entities that can, and then
sends the documents of all of them, in order. -/
structure Carries (l : EntityList) (vs : List Value) : Prop where
  items : l.items = vs
  sent : (∀ v ∈ vs, ∃ d, v = .entity d ∧ ∃ p, d.write = .ok p) → ∃ p, l.inner.write = .ok p
  documents : ∀ p, l.inner.write = .ok p → ∃ ds js, vs = ds.map .entity ∧
    p.data = [(itemsField, .arr js)] ∧ List.Forall₂ Entity.WrittenAs ds js

theorem carries_items {l : EntityList} (h : l.Wraps) (hlist : l.HoldsList) :
    l.Carries l.items := by
  obtain ⟨vs, hvs⟩ := hlist
  obtain ⟨type, isNullable, default?, hfields⟩ := Schema.exists_itemsField h.isList
  have hdata := Entity.data_of_single hfields hvs
  rw [items_of_holdsList h hvs]
  refine ⟨items_of_holdsList h hvs, fun hsends => ?_, fun p hp => ?_⟩
  · have hitems : (Value.list vs).items? = some vs := rfl
    obtain ⟨j, hj⟩ := (Value.exists_write_listOfObjects_iff hitems).mpr hsends
    rw [Entity.write_eq, hdata, hj]
    exact ⟨_, rfl⟩
  · rw [Entity.write_eq, hdata] at hp
    obtain ⟨data, hdata, rfl⟩ := Except.map_eq_ok_iff.mp hp
    obtain ⟨j, hj, rfl⟩ := Except.map_eq_ok_iff.mp hdata
    obtain ⟨hnull, -⟩ | ⟨d, hd, -⟩ | ⟨ds, js, hitems, rfl, hds⟩ :=
      Value.written_of_isObject rfl hj
    · cases hnull
    · cases hd
    · cases hitems
      exact ⟨ds, js, rfl, rfl, hds⟩

/-- **Growth.** Whatever entity a list was made of, and whatever was offered to it before, the
next attempt to append ends in one of the three ways. If the entity held a list, or nothing,
the list then carries its own elements and all entities of its type that were offered, in
order; if not, it holds and sends what it held. The entity holds something else only if null
was stored in its field. -/
theorem growth {e : Entity} {l : EntityList} (h : ofEntity e = .ok l) (offered : List Entity) :
    (∀ item, (l.offerAll offered).Appends item ((l.offerAll offered).push item)) ∧
    (l.HoldsList → (l.offerAll offered).Carries
      (l.items ++ (offered.filter fun d => d.typeName = l.itemType).map Value.entity)) ∧
    (¬ l.HoldsList → (l.offerAll offered).inner.values = l.inner.values ∧
      (l.offerAll offered).inner.data = l.inner.data) ∧
    (l.HoldsList ↔ ∀ v, Record.get? e.values itemsField = some v → ∃ vs, v = .list vs) ∧
    ∀ f v w, e.schema.field? itemsField = some f → f.coerce v = .ok w →
      (∃ vs, w = .list vs) ∨ v = .null ∧
        (f.isNullable = true ∧ w = .null ∨ f.isNullable = false ∧ f.default? = some w) := by
  obtain ⟨hwraps, hholds⟩ := wraps_of_ofEntity h
  obtain ⟨hkeeps, hitems⟩ := offerAll_keeps hwraps offered
  refine ⟨push_appends hkeeps.wraps, fun hlist => ?_, fun hlist => ?_, hholds, fun f v w => ?_⟩
  · exact hitems hlist ▸ carries_items hkeeps.wraps (hkeeps.holds.mpr hlist)
  · have hvalues := hkeeps.lost hlist
    refine ⟨hvalues, ?_⟩
    rw [Entity.data, Entity.data, hkeeps.schema, hvalues]
  · exact fun hf => Schema.stored_of_isList (isList_of_ofEntity h) hf

end

end EntityList

/-! ## A playlist

The songs of a playlist may be null, and `silent` stores that. In `surprise` they may not, and
what stands in for null is no list either. -/

namespace Playlist

attribute [local instance] Codecs.none

def songSchema : Schema :=
  ⟨"Song", ⟨1, 0, none⟩, [("title", ⟨.string, false, none⟩)], [], [], none⟩

def song (title : String) : Entity :=
  ⟨songSchema, ⟨1, 0, none⟩, none, [("title", .str title)], ["title"]⟩

def schema (isNullable : Bool) : Schema :=
  ⟨"Playlist", ⟨1, 0, none⟩,
    [(itemsField, ⟨.listOfObjects "Song", isNullable, some (.tuple [])⟩)], [], [], none⟩

def playlist : EntityList := ⟨(Entity.ofSchema (schema true)).storeCoerced itemsField (.list [])⟩

theorem playlist_grows :
    EntityList.ofEntity (Entity.ofSchema (schema true)) = .ok playlist ∧ playlist.HoldsList ∧
    (playlist.offerAll [song "dawn", Entity.ofSchema (schema true), song "dusk"]).Carries
      [.entity (song "dawn"), .entity (song "dusk")] ∧
    ∃ p, (playlist.offerAll
      [song "dawn", Entity.ofSchema (schema true), song "dusk"]).inner.write = .ok p := by
  have hwrapped : EntityList.ofEntity (Entity.ofSchema (schema true)) = .ok playlist := rfl
  have hlist : playlist.HoldsList := ⟨[], rfl⟩
  have hcarries := (EntityList.growth hwrapped
    [song "dawn", Entity.ofSchema (schema true), song "dusk"]).2.1 hlist
  refine ⟨hwrapped, hlist, hcarries, hcarries.sent ?_⟩
  exact List.forall_mem_cons.mpr ⟨⟨_, rfl, _, rfl⟩,
    List.forall_mem_cons.mpr ⟨⟨_, rfl, _, rfl⟩, nofun⟩⟩

/-- The field holds null, or the default that stands in for it, and takes no element. -/
def silent (isNullable : Bool) : Outcome Entity :=
  (Entity.ofSchema (schema isNullable)).set itemsField .null

/-- A song that is pushed is reported as taken, and is lost. -/
def LosesSong (isNullable : Bool) : Prop :=
  ∃ e l l', silent isNullable = .ok e ∧ EntityList.ofEntity e = .ok l ∧
    l.push (song "dawn") = .ok l' ∧ l'.size = 0 ∧ l'.get? l.size = none ∧
    itemsField ∈ l'.inner.whatChanged

theorem pushed_song_lost : LosesSong true ∧ LosesSong false :=
  ⟨⟨_, _, _, rfl, rfl, rfl, rfl, rfl, by decide⟩, ⟨_, _, _, rfl, rfl, rfl, rfl, rfl, by decide⟩⟩

end Playlist

end Skew

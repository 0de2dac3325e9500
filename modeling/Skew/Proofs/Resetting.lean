import Skew.Proofs.Admission
import Skew.Proofs.Marks
import Skew.Proofs.Soundness

/-!
# Forgetting changes

A reset with `deep` and the question what changed both walk the entities composed in a
field, through entities and lists of entities. `Value.Owns` says which these are, at any
depth, and after a deep reset none of them has changes (`Value.Owns.whatChanged_eq_nil`). Without
`deep` a field goes on counting as changed as long as an entity in it has changes.

Either way marks are all that is gone (`Entity.resetChanges_unmarked`), so whatever does
not see marks does not see the reset.
-/

namespace Skew

/-! ## Settling -/

/-- The entity is composed in the value: it is the value or an element of it, or composed in
a field of such an entity. -/
inductive Value.Owns : Value → Entity → Prop
  | child {v : Value} {d : Entity} (h : d ∈ v.children) : Owns v d
  | nested {v : Value} {d x : Entity} {p : String × Value} (h : d ∈ v.children)
      (hp : p ∈ d.values) (hx : Owns p.2 x) : Owns v x

theorem Value.children_settled (v : Value) :
    v.settled.children = v.children.map Entity.settled := by
  cases v with
  | list vs =>
      rw [settled, settledItems_eq, children, children, List.filterMap_map, List.map_filterMap]
      refine List.filterMap_congr fun v _ => ?_
      cases v <;> rfl
  | _ => rfl

theorem Entity.settled_values (e : Entity) :
    e.settled.values = e.values.map fun p => (p.1, p.2.settled) := by
  cases e
  rw [settled, settledEntries_eq]

theorem Value.hasChanges_settled_of {v : Value}
    (h : ∀ d ∈ v.children, d.settled.whatChanged = []) : v.settled.hasChanges = false := by
  rw [← Bool.not_eq_true, hasChanges_iff, children_settled]
  rintro ⟨d, hd, hchanged⟩
  obtain ⟨c, hc, rfl⟩ := List.mem_map.mp hd
  exact hchanged (h c hc)

theorem Entity.whatChanged_settled (e : Entity) : e.settled.whatChanged = [] := by
  induction e using Entity.nested with
  | h e ih =>
      have hentries : changedEntries e.settled.values = [] := by
        rw [settled_values, changedEntries_eq, List.map_eq_nil_iff, List.filter_eq_nil_iff]
        intro p hp
        obtain ⟨q, hq, rfl⟩ := List.mem_map.mp hp
        rw [Value.hasChanges_settled_of fun d hd =>
          ih q hq d (Value.mem_graph_of_mem_children hd)]
        exact Bool.false_ne_true
      rw [whatChanged_eq, hentries]
      cases e
      rfl

theorem Value.hasChanges_settled (v : Value) : v.settled.hasChanges = false :=
  hasChanges_settled_of fun d _ => d.whatChanged_settled

/-- No entity composed in a settled value has changes. -/
theorem Value.Owns.whatChanged_eq_nil {v : Value} {x : Entity} (h : v.settled.Owns x) :
    x.whatChanged = [] := by
  generalize hw : v.settled = w at h
  induction h generalizing v with
  | child h =>
      rw [← hw, children_settled] at h
      obtain ⟨c, -, rfl⟩ := List.mem_map.mp h
      exact c.whatChanged_settled
  | nested h hp _ ih =>
      rw [← hw, children_settled] at h
      obtain ⟨c, -, rfl⟩ := List.mem_map.mp h
      rw [Entity.settled_values] at hp
      obtain ⟨q, -, rfl⟩ := List.mem_map.mp hp
      exact ih rfl

theorem Value.settled_settled (v : Value) : v.settled.settled = v.settled := by
  induction v using Value.nested with
  | list vs ih =>
      simp only [settled, settledItems_eq, List.map_map]
      refine congrArg _ (List.map_congr_left fun v hv => ?_)
      cases v with
      | entity e => exact ih _ hv
      | _ => rfl
  | entity e ih =>
      obtain ⟨schema, version, context?, values, changed⟩ := e
      simp only [settled, Entity.settled, Entity.settledEntries_eq, List.map_map]
      have hvalues : values.map ((fun p : String × Value => (p.1, p.2.settled)) ∘
          fun p => (p.1, p.2.settled)) = values.map fun p => (p.1, p.2.settled) :=
        List.map_congr_left fun p hp => congrArg _ (ih p hp)
      rw [hvalues]
  | _ => rfl

/-- There is nothing to settle in a value that holds no entities. -/
theorem Value.settled_of_graph_nil {v : Value} (h : v.graph = []) : v.settled = v := by
  cases v with
  | entity e => rw [graph, Entity.graph_eq] at h; cases h
  | list vs =>
      rw [graph, itemGraph_eq, List.flatMap_eq_nil_iff] at h
      rw [settled, settledItems_eq]
      refine congrArg Value.list ((List.map_congr_left fun w hw => ?_).trans (List.map_id vs))
      have hgraph := h w hw
      cases w with
      | entity e => rw [graph, Entity.graph_eq] at hgraph; cases hgraph
      | _ => rfl
  | _ => rfl

theorem Entity.settled_settled (e : Entity) : e.settled.settled = e.settled :=
  Value.entity.inj (Value.settled_settled (.entity e))

theorem Value.settled_unmarked (v : Value) : v.settled.unmarked = v.unmarked := by
  induction v using Value.nested with
  | list vs ih =>
      simp only [settled, unmarked, settledItems_eq, unmarkedItems_eq, List.map_map]
      refine congrArg _ (List.map_congr_left fun v hv => ?_)
      cases v with
      | entity e => exact ih _ hv
      | _ => rfl
  | entity e ih =>
      obtain ⟨schema, version, context?, values, changed⟩ := e
      simp only [settled, unmarked, Entity.settled, Entity.unmarked, Entity.settledEntries_eq,
        unmarkedEntries_eq, List.map_map]
      have hvalues : values.map ((fun p : String × Value => (p.1, p.2.unmarked)) ∘
          fun p => (p.1, p.2.settled)) = values.map fun p => (p.1, p.2.unmarked) :=
        List.map_congr_left fun p hp => congrArg _ (ih p hp)
      rw [hvalues]
  | _ => rfl

/-! ## Resetting -/

namespace Entity

variable (e : Entity) (fields? : Option (List String))

/-- Some entity composed in the field has changes. -/
def ChangedWithin (n : String) : Prop :=
  ∃ v, (n, v) ∈ e.values ∧ ∃ d ∈ v.children, d.whatChanged ≠ []

theorem resetChanges_marks (deep : Bool) :
    (e.resetChanges fields? deep).changed = e.changed.filter fun n => !resets fields? n := rfl

theorem resetChanges_get? (n : String) :
    Record.get? (e.resetChanges fields? true).values n =
      (Record.get? e.values n).map fun v => if resets fields? n then v.settled else v := by
  rw [resetChanges_values]
  exact Record.get?_map (fun n v => if resets fields? n then v.settled else v) e.values n

/-- A field that counts as changed is marked or has changes within. -/
theorem mem_whatChanged_iff_within (n : String) :
    n ∈ e.whatChanged ↔ n ∈ e.changed ∨ e.ChangedWithin n := by
  rw [whatChanged_eq, NameSet.mem_union, changedEntries_eq, List.mem_map]
  refine or_congr_right ⟨?_, ?_⟩
  · rintro ⟨p, hp, rfl⟩
    obtain ⟨hp, hchanges⟩ := List.mem_filter.mp hp
    exact ⟨p.2, hp, Value.hasChanges_iff.mp hchanges⟩
  · rintro ⟨v, hv, hchanges⟩
    exact ⟨(n, v), List.mem_filter.mpr ⟨hv, Value.hasChanges_iff.mpr hchanges⟩, rfl⟩

/-- After a deep reset there are changes within the other fields only. -/
theorem changedWithin_resetChanges (n : String) :
    (e.resetChanges fields? true).ChangedWithin n ↔
      e.ChangedWithin n ∧ resets fields? n = false := by
  rw [ChangedWithin, resetChanges_values]
  constructor
  · rintro ⟨v, hv, hchanges⟩
    obtain ⟨p, hp, hpv⟩ := List.mem_map.mp hv
    obtain ⟨rfl, rfl⟩ := Prod.mk.inj hpv
    cases hresets : resets fields? p.1 with
    | true =>
        rw [if_pos hresets, ← Value.hasChanges_iff, Value.hasChanges_settled] at hchanges
        exact absurd hchanges Bool.false_ne_true
    | false =>
        rw [if_neg (by rw [hresets]; exact Bool.false_ne_true)] at hchanges
        exact ⟨⟨p.2, hp, hchanges⟩, rfl⟩
  · rintro ⟨⟨v, hv, hchanges⟩, hresets⟩
    refine ⟨v, List.mem_map.mpr ⟨(n, v), hv, ?_⟩, hchanges⟩
    rw [hresets, if_neg Bool.false_ne_true]

/-- A reset takes away marks and nothing else. -/
theorem resetChanges_unmarked (deep : Bool) :
    (e.resetChanges fields? deep).unmarked = e.unmarked := by
  have hvalues : (e.resetChanges fields? deep).values.map (fun p => (p.1, p.2.unmarked)) =
      e.values.map fun p => (p.1, p.2.unmarked) := by
    cases deep with
    | false => rfl
    | true =>
        rw [resetChanges_values, List.map_map]
        refine List.map_congr_left fun p _ => congrArg (p.1, ·) ?_
        dsimp only
        split
        · exact p.2.settled_unmarked
        · rfl
  rw [unmarked_eq, unmarked_eq, hvalues]
  rfl

theorem resetChanges_again (deep : Bool) :
    (e.resetChanges fields? deep).resetChanges fields? deep = e.resetChanges fields? deep := by
  have hmarks : ((e.resetChanges fields? deep).changed.filter fun n => !resets fields? n) =
      (e.resetChanges fields? deep).changed := by
    rw [List.filter_eq_self]
    exact fun n hn => (List.mem_filter.mp hn).2
  have hvalues : ((e.resetChanges fields? true).values.map fun p =>
      (p.1, if resets fields? p.1 then p.2.settled else p.2)) =
      (e.resetChanges fields? true).values := by
    rw [resetChanges_values, List.map_map]
    refine List.map_congr_left fun p _ => congrArg (p.1, ·) ?_
    dsimp only
    split
    · exact p.2.settled_settled
    · rfl
  cases deep with
  | false => exact congrArg (fun marks => { e with changed := marks }) hmarks
  | true =>
      exact congrArg₂ (fun values marks => { e with values := values, changed := marks })
        hvalues hmarks

/-- What a deep reset does: the fields that were asked for no longer count as changed, nor does
any field of an entity composed in them; the other fields are as they were. -/
structure ResetDeep (e' : Entity) : Prop where
  changed : ∀ n, n ∈ e'.whatChanged ↔ n ∈ e.whatChanged ∧ resets fields? n = false
  composed : ∀ n v, resets fields? n = true → Record.get? e'.values n = some v →
    ∀ d, v.Owns d → d.whatChanged = []
  others : ∀ n, resets fields? n = false → Record.get? e'.values n = Record.get? e.values n

/-- What a reset of the entity alone does: of the fields that were asked for, those no longer
count as changed that have no changes within; the values are as they were. -/
structure ResetShallow (e' : Entity) : Prop where
  changed : ∀ n, n ∈ e'.whatChanged ↔
    n ∈ e.whatChanged ∧ (resets fields? n = true → e.ChangedWithin n)
  values : e'.values = e.values

/-- Two entities that differ in marks at most, at any depth: schema, version, context and set
fields are the same, and the values cannot be told apart by comparing them with any value. -/
structure DiffersInMarks (e' : Entity) : Prop where
  unmarked : e'.unmarked = e.unmarked
  schema : e'.schema = e.schema
  version : e'.version = e.version
  context : e'.context? = e.context?
  set : ∀ n, e'.isSet n = e.isSet n
  equal : ∀ n v v', Record.get? e.values n = some v → Record.get? e'.values n = some v' →
    ∀ u, (v' == u) = (v == u) ∧ (u == v') = (u == v)

theorem resetDeep_resetChanges : e.ResetDeep fields? (e.resetChanges fields? true) where
  changed n := by
    rw [mem_whatChanged_iff_within, mem_whatChanged_iff_within, changedWithin_resetChanges,
      resetChanges_marks, List.mem_filter, Bool.not_eq_true', or_and_right]
  composed n v hn hv d hd := by
    rw [resetChanges_get?, Option.map_eq_some_iff] at hv
    obtain ⟨w, -, rfl⟩ := hv
    rw [if_pos hn] at hd
    exact hd.whatChanged_eq_nil
  others n hn := by
    simp only [resetChanges_get?, hn, Bool.false_eq_true, if_false, Option.map_id']

theorem resetShallow_resetChanges : e.ResetShallow fields? (e.resetChanges fields? false) where
  changed n := by
    have hwithin : (e.resetChanges fields? false).ChangedWithin n ↔ e.ChangedWithin n := Iff.rfl
    rw [mem_whatChanged_iff_within, mem_whatChanged_iff_within, hwithin, resetChanges_marks,
      List.mem_filter]
    cases resets fields? n with
    | false => simp
    | true => simpa using Or.inr
  values := rfl

theorem isSet_of_unmarked {e e' : Entity} (h : e'.unmarked = e.unmarked) (n : String) :
    e'.isSet n = e.isSet n := by
  have hset (d : Entity) : d.unmarked.isSet n = d.isSet n := by
    rw [isSet, isSet, Record.contains, Record.contains, unmarked_get?, Option.isSome_map]
  rw [← hset e', h, hset e]

theorem differsInMarks_of_unmarked {e e' : Entity} (h : e'.unmarked = e.unmarked) :
    e.DiffersInMarks e' where
  unmarked := h
  schema := by rw [← e'.unmarked_schema, h, e.unmarked_schema]
  version := by rw [← e'.unmarked_version, h, e.unmarked_version]
  context := by rw [← e'.unmarked_context?, h, e.unmarked_context?]
  set := isSet_of_unmarked h
  equal n v v' hv hv' u := by
    have hsame : v'.unmarked = v.unmarked := by
      have hget := congrArg (fun d => Record.get? d.values n) h
      simpa only [unmarked_get?, hv, hv', Option.map_some, Option.some.injEq] using hget
    constructor
    · exact (Value.beq_unmarked v' u).symm.trans (hsame ▸ Value.beq_unmarked v u)
    · exact (Value.beq_unmarked u v').symm.trans (hsame ▸ Value.beq_unmarked u v)

/-- **The effect of a reset**, deep and shallow. Either way it takes away marks only, and done
again it changes nothing. If the codecs in the entity are impartial and it can be written, its
primitive before the reset and the one after are equal. -/
theorem resetChanges_effect [Codecs] :
    e.ResetDeep fields? (e.resetChanges fields? true) ∧
    e.ResetShallow fields? (e.resetChanges fields? false) ∧
    (∀ deep, e.DiffersInMarks (e.resetChanges fields? deep) ∧
      (e.resetChanges fields? deep).resetChanges fields? deep = e.resetChanges fields? deep) ∧
    ((∀ d ∈ e.graph, ∀ p ∈ d.schema.fields, p.2.kind.Impartial) → ∀ p, e.write = .ok p →
      ∀ deep ignore, e.equalPrimitives (e.resetChanges fields? deep) ignore = .ok true ∧
        (e.resetChanges fields? deep).equalPrimitives e ignore = .ok true) :=
  ⟨e.resetDeep_resetChanges fields?, e.resetShallow_resetChanges fields?, fun deep =>
    ⟨differsInMarks_of_unmarked (e.resetChanges_unmarked fields? deep),
      e.resetChanges_again fields? deep⟩, fun hkinds _ hp deep ignore =>
    equalPrimitives_of_unmarked (e.resetChanges_unmarked fields? deep) hkinds hp ignore⟩

end Entity

/-! ## A choir

A voice was named and the hall was set. The voices are reset, the hall is not. -/

namespace Choir

def voiceSchema : Schema :=
  ⟨"Voice", ⟨1, 0, none⟩, [("name", ⟨.string, false, none⟩)], [], [], none⟩

def voice : Entity := ⟨voiceSchema, ⟨1, 0, none⟩, none, [("name", .str "alto")], ["name"]⟩

section

attribute [local instance] Codecs.none

def schema : Schema :=
  ⟨"Choir", ⟨1, 0, none⟩,
    [("hall", ⟨.string, true, none⟩), ("voices", ⟨.listOfObjects "Voice", false, none⟩)], [], [],
    none⟩

def choir : Entity :=
  ⟨schema, ⟨1, 0, none⟩, none, [("hall", .str "north"), ("voices", .list [.entity voice])],
    ["hall"]⟩

def sent : Primitive :=
  choir.wrap ⟨1, 0, none⟩ [("hall", .str "north"),
    ("voices", .arr [(voice.wrap ⟨1, 0, none⟩ [("name", .str "alto")]).toJson])]

theorem choir_kinds : ∀ d ∈ choir.graph, ∀ p ∈ d.schema.fields, p.2.kind.Impartial :=
  List.forall_mem_cons.mpr
    ⟨List.forall_mem_cons.mpr ⟨trivial, List.forall_mem_cons.mpr ⟨trivial, nofun⟩⟩,
      List.forall_mem_cons.mpr ⟨List.forall_mem_cons.mpr ⟨trivial, nofun⟩, nofun⟩⟩

theorem choir_written : choir.write = .ok sent := rfl

theorem choir_reset :
    (∀ d ∈ choir.graph, ∀ p ∈ d.schema.fields, p.2.kind.Impartial) ∧ choir.write = .ok sent ∧
    choir.whatChanged = ["hall", "voices"] ∧
    choir.ResetDeep (some ["voices"]) (choir.resetChanges (some ["voices"]) true) ∧
    choir.equalPrimitives (choir.resetChanges (some ["voices"]) true) [] = .ok true := by
  obtain ⟨hdeep, -, -, hequal⟩ := choir.resetChanges_effect (some ["voices"])
  exact ⟨choir_kinds, choir_written, by decide, hdeep,
    (hequal choir_kinds sent choir_written true []).1⟩

end

section

attribute [local instance] Codecs.sealing

/-- A choir whose voices are written by a codec. -/
def sealedChoir : Entity :=
  ⟨⟨"Choir", ⟨1, 0, none⟩, [("voices", ⟨.custom "sealed", false, none⟩)], [], [], none⟩,
    ⟨1, 0, none⟩, none, [("voices", .list [.entity voice])], []⟩

/-- An organ whose pitch is indeterminate. -/
def organ : Entity :=
  ⟨⟨"Organ", ⟨1, 0, none⟩, [("pitch", ⟨.float false, false, none⟩)], [], [], none⟩, ⟨1, 0, none⟩,
    none, [("pitch", .float (0.0 / 0.0))], ["pitch"]⟩

/-- Where a codec looks at marks a reset shows in the primitive, and an indeterminate number is
not equal to what it was before. -/
theorem reset_shows :
    (sealedChoir.equalPrimitives sealedChoir [] = .ok true ∧
      sealedChoir.equalPrimitives (sealedChoir.resetChanges none true) [] = .ok false) ∧
    ∃ v v', Record.get? organ.values "pitch" = some v ∧
      Record.get? (organ.resetChanges none true).values "pitch" = some v' ∧ (v' == v) = false :=
  ⟨⟨rfl, rfl⟩, _, _, rfl, rfl, by decide⟩

end

end Choir

end Skew

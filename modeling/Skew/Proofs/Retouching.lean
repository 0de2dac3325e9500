import Mathlib.Logic.Relation
import Skew.Proofs.Resetting
import Skew.Proofs.Twins

/-!
# Retouched entities

An entity is retouched by resets and by assignments of equal values, made on it or on any entity
nested in it, wherever that stands. One such step leaves a twin (`Value.Retouch.twin`), so any
number of them does, and the comparison of primitives does not see the difference
(`Entity.equalPrimitives_retouched`).

Equality alone would not do for the assigned value. It does not look at the versions of entities,
which are written, so the entities in the value have to be of the same types as those they replace.
And the replaced value has to be one that the field itself would store, since what is assigned is
coerced.
-/

namespace Skew

/-- An entry that is replaced stays in its place, whatever it is replaced by. -/
theorem Record.exists_insert_eq {α : Type} {r : Record α} (hr : Ascending r) {n : String} {a : α}
    (ha : get? r n = some a) : ∃ before after, r = before ++ (n, a) :: after ∧
      ∀ b, insert r n b = before ++ (n, b) :: after := by
  induction r with
  | nil => cases ha
  | cons p r ih =>
      obtain ⟨m, c⟩ := p
      rw [get?] at ha
      split at ha
      · next hm =>
          subst hm
          cases ha
          exact ⟨[], r, rfl, fun b => if_pos rfl⟩
      · next hm =>
          have hlt : m < n := (List.pairwise_cons.mp hr).1 _ (mem_of_get? ha)
          obtain ⟨before, after, rfl, hinsert⟩ := ih hr.tail ha
          refine ⟨(m, c) :: before, after, rfl, fun b => ?_⟩
          rw [insert, if_neg hm, if_neg (String.lt_asymm hlt), hinsert]
          rfl

section

variable [Codecs]

/-- The codecs of the fields are evenhanded. -/
def Schema.Evenhanded (s : Schema) : Prop := ∀ p ∈ s.fields, p.2.kind.Evenhanded

/-- One step on the value or on an entity that stands in it, at any depth: the changes of the
entity are reset, or a field is assigned a value equal to the one it has. That one is stored by
the field as it is, and the entities in it are of the types of those that replace them. -/
inductive Value.Retouch : Value → Value → Prop
  | reset (e : Entity) (fields? : Option (List String)) (deep : Bool) :
      Retouch (.entity e) (.entity (e.resetChanges fields? deep))
  | assign {e e' : Entity} {n : String} {f : Field} {v u : Value}
      (hvalues : Record.Ascending e.values) (hfield : e.schema.field? n = some f)
      (hv : Record.get? e.values n = some v) (hstored : f.coerce v = .ok v)
      (hequal : (v == u) = true) (htypes : List.Forall₂ Entity.SameType v.graph u.graph)
      (hset : e.set n u = .ok e') : Retouch (.entity e) (.entity e')
  | field {e : Entity} {before after : List (String × Value)} {n : String} {v w : Value}
      (hvalues : e.values = before ++ (n, v) :: after) (h : Retouch v w) :
      Retouch (.entity e) (.entity { e with values := before ++ (n, w) :: after })
  | list {before after : List Value} {v w : Value} (h : Retouch v w) :
      Retouch (.list (before ++ v :: after)) (.list (before ++ w :: after))
  | tuple {before after : List Value} {v w : Value} (h : Retouch v w) :
      Retouch (.tuple (before ++ v :: after)) (.tuple (before ++ w :: after))
  | set {before after : List Value} {v w : Value} (h : Retouch v w) :
      Retouch (.set (before ++ v :: after)) (.set (before ++ w :: after))
  | map {before after : List (String × Value)} {k : String} {v w : Value} (h : Retouch v w) :
      Retouch (.map (before ++ (k, v) :: after)) (.map (before ++ (k, w) :: after))

/-- Any number of such steps on an entity and on those nested in it. -/
def Entity.Retouched (e d : Entity) : Prop :=
  Relation.ReflTransGen Value.Retouch (.entity e) (.entity d)

/-! ## Retouched entities are twins -/

/-- A step leaves a twin. -/
theorem Value.Retouch.twin {v w : Value} (h : v.Retouch w)
    (hkinds : ∀ d ∈ v.graph, d.schema.Evenhanded) : v.Twin w := by
  have hitems {before after : List Value} {v w : Value} (h : v.Twin w) :
      List.Forall₂ Twin (before ++ v :: after) (before ++ w :: after) :=
    List.rel_append (List.forall₂_same.mpr fun x _ => .refl x)
      (.cons h (List.forall₂_same.mpr fun x _ => .refl x))
  have hentries {before after : List (String × Value)} {k : String} {v w : Value} (h : v.Twin w) :
      List.Forall₂ (fun p q => p.1 = q.1 ∧ Twin p.2 q.2) (before ++ (k, v) :: after)
        (before ++ (k, w) :: after) :=
    List.rel_append (List.forall₂_same.mpr fun p _ => ⟨rfl, .refl p.2⟩)
      (.cons ⟨rfl, h⟩ (List.forall₂_same.mpr fun p _ => ⟨rfl, .refl p.2⟩))
  induction h with
  | reset e fields? deep =>
      refine .of_unmarked ?_
      rw [unmarked, unmarked, e.resetChanges_unmarked]
  | @assign e e' n f v u hvalues hfield hv hstored hequal htypes hset =>
      obtain ⟨g, w, hg, hw, rfl⟩ := Entity.set_eq_ok_iff.mp hset
      cases hfield.symm.trans hg
      have hkind : f.kind.Evenhanded :=
        hkinds e e.self_mem_graph _ (Record.mem_of_get? hfield)
      have htwin : v.Twin w := Field.coerce_twin hkind hstored (.of_beq hequal htypes) hw
      obtain ⟨before, after, heq, hinsert⟩ := Record.exists_insert_eq hvalues hv
      refine Twin.entity_iff.mpr ⟨⟨rfl, rfl⟩, ?_⟩
      rw [Entity.assigned, Entity.storeCoerced, hinsert, heq]
      exact hentries htwin
  | @field e before after n v w hvalues _ ih =>
      refine Twin.entity_iff.mpr ⟨⟨rfl, rfl⟩, ?_⟩
      rw [hvalues]
      have hmem : (n, v) ∈ e.values := hvalues ▸ List.mem_append_right before List.mem_cons_self
      exact hentries (ih (Entity.forall_graph_values hkinds _ hmem))
  | list _ ih =>
      exact .list (hitems (ih (forall_graph_items hkinds _
        (List.mem_append_right _ List.mem_cons_self))))
  | tuple _ ih =>
      exact .tuple (hitems (ih (forall_graph_items hkinds _
        (List.mem_append_right _ List.mem_cons_self))))
  | set _ ih =>
      exact .set (hitems (ih (forall_graph_items hkinds _
        (List.mem_append_right _ List.mem_cons_self))))
  | @map before after k v w _ ih =>
      have hmem : (k, v) ∈ before ++ (k, v) :: after :=
        List.mem_append_right before List.mem_cons_self
      exact Twin.map_iff.mpr (hentries (ih (forall_graph_entries hkinds _ hmem)))

/-- Any number of steps leaves a twin. -/
theorem Value.Retouch.run_twin {v w : Value} (h : Relation.ReflTransGen Retouch v w)
    (hkinds : ∀ d ∈ v.graph, d.schema.Evenhanded) : v.Twin w := by
  induction h with
  | refl => exact .refl v
  | tail _ hstep ih =>
      refine ih.trans (hstep.twin fun d hd => ?_)
      obtain ⟨c, hc, htype⟩ := List.exists_of_mem_forall₂ ih.graph hd
      exact htype.schema ▸ hkinds c hc

namespace Entity

variable {a b c : Entity} {ignore : List String}

theorem equalPrimitives_eq_true_iff : a.equalPrimitives b ignore = .ok true ↔
    ∃ p q, a.write = .ok p ∧ b.write = .ok q ∧
      Json.EqualWithout (Primitive.changesKey :: ignore) p.toJson q.toJson := by
  rw [equalPrimitives, Except.bind_eq_ok_iff]
  constructor
  · rintro ⟨p, hp, h⟩
    obtain ⟨q, hq, h⟩ := Except.bind_eq_ok_iff.mp h
    exact ⟨p, q, hp, hq, Except.ok.inj h⟩
  · rintro ⟨p, q, hp, hq, h⟩
    exact ⟨p, hp, Except.bind_eq_ok_iff.mpr ⟨q, hq, congrArg Except.ok h⟩⟩

/-- Retouching does not show in the comparison of primitives. -/
theorem equalPrimitives_retouched {a' b' : Entity} (hkindsA : ∀ d ∈ a.graph, d.schema.Evenhanded)
    (hkindsB : ∀ d ∈ b.graph, d.schema.Evenhanded) (ha : a.Retouched a') (hb : b.Retouched b') :
    a'.equalPrimitives b' ignore = a.equalPrimitives b ignore := by
  have hnames : Primitive.changesKey ∈ Primitive.changesKey :: ignore := List.mem_cons_self
  have hwriteA := write_of_twin hnames (Value.Retouch.run_twin ha hkindsA) hkindsA
  have hwriteB := write_of_twin hnames (Value.Retouch.run_twin hb hkindsB) hkindsB
  rw [equalPrimitives, equalPrimitives]
  generalize a.write = x, a'.write = x', b.write = y, b'.write = y' at hwriteA hwriteB
  cases hwriteA with
  | error err => rfl
  | ok hp =>
      cases hwriteB with
      | error err => rfl
      | ok hq =>
          refine congrArg Except.ok (Bool.eq_iff_iff.mpr ⟨fun h => ?_, fun h => ?_⟩)
          · exact hp.trans (Json.EqualWithout.trans h hq.symm)
          · exact hp.symm.trans (Json.EqualWithout.trans h hq)

theorem equalPrimitives_symm (h : a.equalPrimitives b ignore = .ok true) :
    b.equalPrimitives a ignore = .ok true := by
  obtain ⟨p, q, hp, hq, hpq⟩ := equalPrimitives_eq_true_iff.mp h
  exact equalPrimitives_eq_true_iff.mpr ⟨q, p, hq, hp, hpq.symm⟩

theorem equalPrimitives_trans (hab : a.equalPrimitives b ignore = .ok true)
    (hbc : b.equalPrimitives c ignore = .ok true) : a.equalPrimitives c ignore = .ok true := by
  obtain ⟨p, q, hp, hq, hpq⟩ := equalPrimitives_eq_true_iff.mp hab
  obtain ⟨q', r, hq', hr, hqr⟩ := equalPrimitives_eq_true_iff.mp hbc
  cases hq.symm.trans hq'
  exact equalPrimitives_eq_true_iff.mpr ⟨p, r, hp, hr, hpq.trans hqr⟩

end Entity

end

end Skew

import Skew.Proofs.Invariants
import Skew.Proofs.Storage

/-!
# Values that look alike

Values are alike when they arrive as the same value. What may differ is what a trip
rewrites: where nested entities are bound, and which of their changed fields they list
themselves. Nothing that stores or compares values sees such a difference, as long as
no codec is involved: `Kind.coerce_received` says so for coercion, and `Entity.set_alike`
for assignment, the one operation by which methods write.
-/

namespace Skew

def Value.Alike (v w : Value) : Prop := v.received none = w.received none

namespace Value.Alike

theorem refl (v : Value) : v.Alike v := rfl

theorem symm {v w : Value} (h : v.Alike w) : w.Alike v := Eq.symm h

theorem trans {u v w : Value} (h : u.Alike v) (h' : v.Alike w) : u.Alike w := Eq.trans h h'

/-- Comparing does not tell alike values apart. -/
theorem beq {v v' w w' : Value} (hv : v.Alike v') (hw : w.Alike w') :
    Value.beq v w = Value.beq v' w' := by
  rw [← Value.beq_received none none v w, hv, hw, Value.beq_received]

theorem isNull {v w : Value} (h : v.Alike w) : v.isNull = w.isNull := by
  rw [← v.isNull_received none, h, w.isNull_received]

theorem hasChanges {v w : Value} (h : v.Alike w) : v.hasChanges = w.hasChanges := by
  rw [← v.hasChanges_received none, h, w.hasChanges_received]

end Value.Alike

theorem Value.alike_received (v : Value) (c? : Option Context) : v.Alike (v.received c?) :=
  (v.received_received c? none).symm

/-- Entities are alike when they are under the same context and arrive as the same. -/
structure Entity.Alike (d e : Entity) : Prop where
  context : d.context? = e.context?
  arrival : d.received none = e.received none

theorem Entity.received_eq (e : Entity) (c? : Option Context) :
    e.received c? = ⟨e.schema, e.version, c?, e.values.map fun p => (p.1, p.2.received c?),
      NameSet.ofList e.whatChanged⟩ := by
  rw [← e.received_values c?]
  cases e
  rfl

namespace Entity.Alike

variable {d e : Entity} (h : d.Alike e)
include h

theorem schema : d.schema = e.schema := by
  rw [← d.received_schema none, h.arrival, e.received_schema]

theorem version : d.version = e.version := by
  rw [← d.received_version none, h.arrival, e.received_version]

theorem value : (Value.entity d).Alike (.entity e) := congrArg Value.entity h.arrival

theorem get? (n : String) : (Record.get? d.values n).map (Value.received none) =
    (Record.get? e.values n).map (Value.received none) := by
  rw [← d.received_get? none, h.arrival, e.received_get?]

theorem mem_whatChanged (n : String) : n ∈ d.whatChanged ↔ n ∈ e.whatChanged := by
  have hchanged := congrArg Entity.changed h.arrival
  rw [received_changed, received_changed] at hchanged
  exact NameSet.ofList_eq_ofList_iff.mp hchanged n

end Entity.Alike

/-- An entity and its arrival under its own context are alike. -/
theorem Entity.alike_received {e : Entity} {c? : Option Context} (h : e.context? = c?) :
    e.Alike (e.received c?) where
  context := h.trans (e.received_context? c?).symm
  arrival := (e.received_received c? none).symm

/-! ## Coercion -/

/-- No codec is involved in the kind. -/
def Kind.Plain : Kind → Prop
  | .custom _ => False
  | .list k | .set k | .dict k | .nullable k => k.Plain
  | _ => True

theorem Kind.Plain.bare {k : Kind} (h : k.Plain) : k.bare.Plain := by
  induction k with
  | nullable k ih => exact ih h
  | _ => exact h

section

variable [Codecs]

theorem Kind.Plain.lossless {k : Kind} (h : k.Plain) : k.Lossless := by
  induction k with
  | list k ih | set k ih | dict k ih | nullable k ih => exact ih h
  | custom c => cases h
  | _ => trivial

variable (c? : Option Context)

omit [Codecs]

theorem coerceInteger_received (nonNegative : Bool) (v : Value) :
    coerceInteger nonNegative (v.received c?) =
      (coerceInteger nonNegative v).map (Value.received c?) := by
  have hv : (v.received c?).toInteger (.integer nonNegative) =
      v.toInteger (.integer nonNegative) := by cases v <;> rfl
  rw [coerceInteger, coerceInteger, hv]
  cases v.toInteger (.integer nonNegative) with
  | error err => rfl
  | ok n =>
      rw [Except.ok_bind]
      split <;> rfl

theorem coerceFloat_received (nonNegative : Bool) (v : Value) :
    coerceFloat nonNegative (v.received c?) =
      (coerceFloat nonNegative v).map (Value.received c?) := by
  have hv : (v.received c?).toFloat (.float nonNegative) = v.toFloat (.float nonNegative) := by
    cases v <;> rfl
  rw [coerceFloat, coerceFloat, hv]
  cases v.toFloat (.float nonNegative) with
  | error err => rfl
  | ok x =>
      rw [Except.ok_bind]
      split <;> rfl

theorem coerceString_received (v : Value) :
    coerceString (v.received c?) = coerceString v := by
  cases v <;> rfl

theorem coerceEnum_received (valid : List String) (v : Value) :
    coerceEnum valid (v.received c?) = (coerceEnum valid v).map (Value.received c?) := by
  rw [coerceEnum, coerceEnum, coerceString_received]
  cases coerceString v with
  | error err => rfl
  | ok s =>
      rw [Except.ok_bind]
      split <;> rfl

theorem coerceObject_received (type : String) (v : Value) :
    coerceObject type (v.received c?) = (coerceObject type v).map (Value.received c?) := by
  cases v with
  | entity e =>
      rw [Value.received, coerceObject, coerceObject, e.received_schema]
      split <;> rfl
  | _ => rfl

theorem coerceObjects_received (type : String) (v : Value) :
    coerceObjects type (v.received c?) = (coerceObjects type v).map (Value.received c?) := by
  cases v with
  | list vs | tuple vs =>
      rw [Value.received, Value.receivedItems_eq, coerceObjects, coerceObjects,
        List.mapM_map_comm fun v _ => coerceObject_received c? type v]
      cases vs.mapM (coerceObject type) with
      | error err => rfl
      | ok ws => simp only [Except.ok_map, Value.received, Value.receivedItems_eq]
  | _ => rfl

theorem Value.items?_received (v : Value) :
    (v.received c?).items? = v.items?.map (List.map (Value.received c?)) := by
  cases v <;> simp only [received, items?, receivedItems_eq, Option.map]

theorem Value.entries?_received (v : Value) :
    (v.received c?).entries? =
      v.entries?.map (List.map fun e => (e.1, e.2.received c?)) := by
  cases v <;> simp only [received, entries?, receivedEntries_eq, Option.map]

variable [Codecs]

/-- Coercion treats what arrives as it treated what was sent. -/
theorem Kind.coerce_received {k : Kind} (hk : k.Plain) (v : Value) :
    k.coerce (v.received c?) = (k.coerce v).map (Value.received c?) := by
  induction k generalizing v with
  | integer nonNegative => exact coerceInteger_received c? nonNegative v
  | float nonNegative => exact coerceFloat_received c? nonNegative v
  | string =>
      rw [Kind.coerce, Kind.coerce, coerceString_received]
      cases coerceString v <;> rfl
  | boolean => simp only [Kind.coerce, v.isTruthy_received, Except.ok_map, Value.received]
  | datetime =>
      cases v with
      | str s =>
          simp only [Kind.coerce, Value.received, coerceDatetime]
          split <;> rfl
      | _ => rfl
  | uuid =>
      cases v with
      | str s =>
          simp only [Kind.coerce, Value.received, coerceUuid]
          split <;> rfl
      | _ => rfl
  | address =>
      cases v with
      | str s =>
          simp only [Kind.coerce, Value.received, coerceAddress]
          split <;> rfl
      | _ => rfl
  | enum valid => exact coerceEnum_received c? valid v
  | list k ih =>
      simp only [Kind.coerce, v.items?_received, v.shape_received]
      cases v.items? with
      | none => rfl
      | some vs =>
          simp only [Option.map_some, List.mapM_map_comm fun v _ => ih hk v]
          cases vs.mapM k.coerce with
          | error err => rfl
          | ok ws => simp only [Except.ok_map, Value.received, Value.receivedItems_eq]
  | set k ih =>
      simp only [Kind.coerce, v.items?_received, v.shape_received]
      cases v.items? with
      | none => rfl
      | some vs =>
          simp only [Option.map_some, List.mapM_map_comm fun v _ => ih hk v]
          cases vs.mapM k.coerce with
          | error err => rfl
          | ok ws =>
              simp only [Except.ok_map, Value.setOf, Value.dedup_received, Value.received,
                Value.receivedItems_eq]
  | dict k ih =>
      simp only [Kind.coerce, v.entries?_received, v.shape_received]
      cases v.entries? with
      | none => rfl
      | some es =>
          simp only [Option.map_some, mapEntriesM_map_comm fun e _ => ih hk e.2]
          cases mapEntriesM k.coerce es with
          | error err => rfl
          | ok ds => simp only [Except.ok_map, Value.received, Value.receivedEntries_eq]
  | nullable k ih =>
      rw [Kind.coerce, Kind.coerce, v.isNull_received]
      split
      · rfl
      · exact ih hk v
  | object type => exact coerceObject_received c? type v
  | listOfObjects type => exact coerceObjects_received c? type v
  | custom c => cases hk

/-- Alike values are refused in the same way, or stored as alike values. -/
theorem Field.coerce_alike {f : Field} (hk : f.kind.Plain) {v w : Value} (h : v.Alike w) :
    (f.coerce v).Matching Value.Alike (f.coerce w) := by
  cases hnull : v.isNull with
  | true =>
      rw [Field.coerce, Field.coerce, ← h.isNull, hnull, if_pos rfl, if_pos rfl]
      split
      · exact .ok (.refl _)
      · split
        · exact .ok (.refl _)
        · exact .error _
  | false =>
      rw [f.coerce_of_not_null hnull, f.coerce_of_not_null (h.isNull ▸ hnull)]
      refine Except.Matching.of_map_eq ?_
      rw [← Kind.coerce_received none hk, ← Kind.coerce_received none hk, h]

end

/-! ## Assignment -/

namespace Entity

/-- Alike values put into alike entities. -/
theorem Alike.assigned {d e : Entity} (h : d.Alike e) {v w : Value} (hv : v.Alike w)
    (n : String) : (d.assigned n v).Alike (e.assigned n w) where
  context := h.context
  arrival := by
    have hvalues : (d.assigned n v).values.map (fun p => (p.1, p.2.received none)) =
        (e.assigned n w).values.map fun p => (p.1, p.2.received none) := by
      have hbefore := congrArg Entity.values h.arrival
      rw [received_values, received_values] at hbefore
      rw [Entity.assigned, Entity.assigned, storeCoerced, storeCoerced]
      rw [Record.map_insert (Value.received none), Record.map_insert (Value.received none),
        hbefore, hv]
    have hchanged : NameSet.ofList (d.assigned n v).whatChanged =
        NameSet.ofList (e.assigned n w).whatChanged :=
      NameSet.ofList_eq_ofList_iff.mpr fun m => by
        rw [mem_whatChanged_assigned, mem_whatChanged_assigned, h.mem_whatChanged]
    have hschema : (d.assigned n v).schema = (e.assigned n w).schema := h.schema
    have hversion : (d.assigned n v).version = (e.assigned n w).version := h.version
    rw [received_eq, received_eq, hvalues, hchanged, hschema, hversion]

/-- Assigning alike values to alike entities: the same refusal, or alike entities. -/
theorem set_alike [Codecs] {d e : Entity} (hplain : ∀ p ∈ e.schema.fields, p.2.kind.Plain)
    (h : d.Alike e) {v w : Value} (hv : v.Alike w) (n : String) :
    (d.set n v).Matching Alike (e.set n w) := by
  rw [set_eq, set_eq, h.schema]
  cases hf : e.schema.requireField n with
  | error err => exact .error err
  | ok f =>
      have hkind : f.kind.Plain := hplain _ (Record.mem_of_get? (requireField_eq_ok_iff.mp hf))
      exact ((Field.coerce_alike hkind hv).mapError _).bind fun u x hux => .ok (h.assigned hux n)

end Entity

end Skew

import Mathlib.Data.List.Basic
import Skew.Entity.Fields
import Skew.Proofs.Nesting
import Skew.Proofs.Records

/-!
# What arrives

`Entity.received` is what an entity looks like after a trip: every entity in its
graph carries the context of the receiving end, and lists as its own changes what
had changed in it before, the changes of composed entities included. Nothing else
is touched, and whatever compares values or asks for changes cannot tell the two
apart. A second trip has the effect of the last one alone.
-/

namespace Skew

mutual

/-- The value with every entity in it as it arrives under a context. -/
def Value.received (c? : Option Context) : Value → Value
  | .list vs => .list (Value.receivedItems c? vs)
  | .tuple vs => .tuple (Value.receivedItems c? vs)
  | .set vs => .set (Value.receivedItems c? vs)
  | .map es => .map (Value.receivedEntries c? es)
  | .entity e => .entity (Entity.received c? e)
  | .null => .null
  | .bool b => .bool b
  | .int n => .int n
  | .float x => .float x
  | .str s => .str s
  | .datetime t => .datetime t

def Value.receivedItems (c? : Option Context) : List Value → List Value
  | [] => []
  | v :: vs => v.received c? :: Value.receivedItems c? vs

def Value.receivedEntries (c? : Option Context) : List (String × Value) → List (String × Value)
  | [] => []
  | (n, v) :: es => (n, v.received c?) :: Value.receivedEntries c? es

/-- The entity as it arrives under a context. -/
def Entity.received (c? : Option Context) : Entity → Entity
  | ⟨schema, version, context?, values, changed⟩ =>
    ⟨schema, version, c?, Value.receivedEntries c? values,
      NameSet.ofList (Entity.whatChanged ⟨schema, version, context?, values, changed⟩)⟩

end

section

-- The equations of the trip are derived here, once, and not in each of the proofs below.
attribute [local simp] Value.received

variable (c? d? : Option Context)

theorem Value.receivedItems_eq (vs : List Value) :
    Value.receivedItems c? vs = vs.map (Value.received c?) := by
  induction vs with
  | nil => rfl
  | cons v vs ih => rw [Value.receivedItems, ih, List.map_cons]

theorem Value.receivedEntries_eq (es : List (String × Value)) :
    Value.receivedEntries c? es = es.map fun e => (e.1, e.2.received c?) := by
  induction es with
  | nil => rfl
  | cons e es ih => rw [Value.receivedEntries, ih, List.map_cons]

namespace Entity

variable (e : Entity)

@[simp] theorem received_schema : (e.received c?).schema = e.schema := by
  cases e; rfl

@[simp] theorem received_version : (e.received c?).version = e.version := by
  cases e; rfl

@[simp] theorem received_context? : (e.received c?).context? = c? := by
  cases e; rfl

@[simp] theorem received_changed : (e.received c?).changed = NameSet.ofList e.whatChanged := by
  cases e; rfl

theorem received_values :
    (e.received c?).values = e.values.map fun p => (p.1, p.2.received c?) := by
  cases e
  rw [received, Value.receivedEntries_eq]

theorem received_get? (n : String) :
    Record.get? (e.received c?).values n = (Record.get? e.values n).map (Value.received c?) := by
  rw [received_values]
  exact Record.get?_map (fun _ => Value.received c?) e.values n

@[simp] theorem received_isSet (n : String) : (e.received c?).isSet n = e.isSet n := by
  rw [isSet, isSet, Record.contains, received_get?, Option.isSome_map, Record.contains]

end Entity

/-! ## Shapes and graphs -/

@[simp] theorem Value.shape_received (v : Value) : (v.received c?).shape = v.shape := by
  cases v <;> rfl

@[simp] theorem Value.isNull_received (v : Value) : (v.received c?).isNull = v.isNull := by
  cases v <;> rfl

@[simp] theorem Value.isTruthy_received (v : Value) : (v.received c?).isTruthy = v.isTruthy := by
  cases v <;> simp [isTruthy, receivedItems_eq, receivedEntries_eq]

/-- What arrives has a counterpart at every place of the graph, in the same order. -/
theorem Value.graph_received (v : Value) :
    (v.received c?).graph = v.graph.map (Entity.received c?) := by
  induction v using Value.nested with
  | null | bool | int | float | str | datetime => rfl
  | list vs ih | tuple vs ih | set vs ih =>
      simp only [received, graph, receivedItems_eq, itemGraph_eq, List.map_flatMap,
        List.flatMap_map]
      exact List.flatMap_congr ih
  | map es ih =>
      simp only [received, graph, receivedEntries_eq, entryGraph_eq, List.map_flatMap,
        List.flatMap_map]
      exact List.flatMap_congr ih
  | entity e ih =>
      simp only [received, graph, Entity.graph_eq, Entity.received_values, List.map_cons,
        List.map_flatMap, List.flatMap_map]
      rw [List.flatMap_congr ih]

theorem Entity.graph_received (e : Entity) :
    (e.received c?).graph = e.graph.map (Entity.received c?) := by
  have h := Value.graph_received c? (.entity e)
  rwa [Value.received, Value.graph, Value.graph] at h

theorem Value.atoms_received (v : Value) :
    (v.received c?).atoms = v.atoms.map (received c?) := by
  induction v using Value.nested with
  | null | bool | int | float | str | datetime | entity => rfl
  | list vs ih | tuple vs ih | set vs ih =>
      simp only [received, atoms, receivedItems_eq, itemAtoms_eq, List.map_flatMap,
        List.flatMap_map]
      exact List.flatMap_congr ih
  | map es ih =>
      simp only [received, atoms, receivedEntries_eq, entryAtoms_eq, List.map_flatMap,
        List.flatMap_map]
      exact List.flatMap_congr ih

/-- A value without entities arrives as it is. -/
theorem Value.received_of_graph_nil {v : Value} (h : v.graph = []) : v.received c? = v := by
  induction v using Value.nested with
  | null | bool | int | float | str | datetime => rfl
  | list vs ih | tuple vs ih | set vs ih =>
      rw [graph, itemGraph_eq, List.flatMap_eq_nil_iff] at h
      rw [received, receivedItems_eq, List.map_congr_left fun v hv => ih v hv (h v hv),
        List.map_id']
  | map es ih =>
      rw [graph, entryGraph_eq, List.flatMap_eq_nil_iff] at h
      have hes : es.map (fun p => (p.1, p.2.received c?)) = es.map id :=
        List.map_congr_left fun p hp => congrArg _ (ih p hp (h p hp))
      rw [received, receivedEntries_eq, hes, List.map_id]
  | entity e ih => rw [graph, Entity.graph_eq] at h; cases h

/-! ## Changes -/

theorem Entity.whatChanged_eq (e : Entity) :
    e.whatChanged = NameSet.union e.changed (Entity.changedEntries e.values) := by
  cases e; rfl

theorem Entity.changedEntries_eq (es : List (String × Value)) :
    Entity.changedEntries es = (es.filter fun p => p.2.hasChanges).map (·.1) := by
  induction es with
  | nil => rfl
  | cons p es ih =>
      obtain ⟨n, v⟩ := p
      rw [Entity.changedEntries, List.filter_cons, ih]
      cases v.hasChanges <;> rfl

theorem Value.anyChanges_eq (vs : List Value) :
    Value.anyChanges vs = vs.any fun v => match v with
      | .entity e => !e.whatChanged.isEmpty
      | _ => false := by
  induction vs with
  | nil => rfl
  | cons v vs ih => cases v <;> simp [anyChanges, ih]

theorem NameSet.isEmpty_ofList (names : List String) :
    (NameSet.ofList names).isEmpty = names.isEmpty := by
  rw [Bool.eq_iff_iff, List.isEmpty_iff, List.isEmpty_iff, List.eq_nil_iff_forall_not_mem,
    List.eq_nil_iff_forall_not_mem]
  exact forall_congr' fun _ => not_congr mem_ofList

/-- A value keeps its changes when the entities in it do. -/
theorem Value.hasChanges_received_of (v : Value)
    (h : ∀ d ∈ v.graph, (d.received c?).whatChanged.isEmpty = d.whatChanged.isEmpty) :
    (v.received c?).hasChanges = v.hasChanges := by
  cases v with
  | entity e => simp only [received, hasChanges, h e e.self_mem_graph]
  | list vs =>
      simp only [received, hasChanges, anyChanges_eq, receivedItems_eq, List.any_map]
      rw [Bool.eq_iff_iff, List.any_eq_true, List.any_eq_true]
      refine exists_congr fun v => and_congr_right ?_
      intro hv
      cases v with
      | entity e =>
          have he := forall_graph_items h _ hv e e.self_mem_graph
          simp only [Function.comp_apply, received, he]
      | _ => rfl
  | _ => rfl

/-- The fields of what arrives that count as changed are those that counted before. -/
theorem Entity.whatChanged_received (e : Entity) :
    (e.received c?).whatChanged = NameSet.ofList e.whatChanged := by
  induction e using Entity.nested with
  | h e ih =>
      have hkeep (p : String × Value) (hp : p ∈ e.values) :
          (p.2.received c?).hasChanges = p.2.hasChanges :=
        p.2.hasChanges_received_of c? fun d hd => by
          rw [ih p hp d hd, NameSet.isEmpty_ofList]
      have hentries : Entity.changedEntries (e.received c?).values =
          Entity.changedEntries e.values := by
        rw [received_values, changedEntries_eq, changedEntries_eq, List.filter_map, List.map_map]
        exact congrArg _ (List.filter_congr hkeep)
      rw [whatChanged_eq, hentries, received_changed]
      refine NameSet.union_eq_self (NameSet.ascending_ofList _) ?_
      intro n hn
      rw [NameSet.mem_ofList, whatChanged_eq, NameSet.mem_union]
      exact Or.inr hn

@[simp] theorem Value.hasChanges_received (v : Value) :
    (v.received c?).hasChanges = v.hasChanges :=
  v.hasChanges_received_of c? fun d _ => by
    rw [d.whatChanged_received, NameSet.isEmpty_ofList]

/-! ## A second trip -/

theorem Value.received_received (v : Value) :
    (v.received c?).received d? = v.received d? := by
  induction v using Value.nested with
  | null | bool | int | float | str | datetime => rfl
  | list vs ih | tuple vs ih | set vs ih =>
      simp only [received, receivedItems_eq, List.map_map]
      exact congrArg _ (List.map_congr_left ih)
  | map es ih =>
      simp only [received, receivedEntries_eq, List.map_map]
      exact congrArg _ (List.map_congr_left fun p hp => congrArg _ (ih p hp))
  | entity e ih =>
      obtain ⟨schema, version, context?, values, changed⟩ := e
      have hchanged := Entity.whatChanged_received c? ⟨schema, version, context?, values, changed⟩
      have hvalues : values.map (fun p => (p.1, (p.2.received c?).received d?)) =
          values.map fun p => (p.1, p.2.received d?) :=
        List.map_congr_left fun p hp => congrArg _ (ih p hp)
      simp only [received, Entity.received, receivedEntries_eq, List.map_map] at hchanged ⊢
      simp only [hchanged, Function.comp_def, hvalues,
        NameSet.ofList_eq_self (NameSet.ascending_ofList _)]

theorem Entity.received_received (e : Entity) :
    (e.received c?).received d? = e.received d? := by
  have h := Value.received_received c? d? (.entity e)
  simpa only [Value.received, Value.entity.injEq] using h

/-! ## Equality -/

theorem Value.beqItems_self {vs : List Value} (h : ∀ v ∈ vs, Value.beq v v = true) :
    Value.beqItems vs vs = true := by
  induction vs with
  | nil => rfl
  | cons v vs ih =>
      obtain ⟨hv, hvs⟩ := List.forall_mem_cons.mp h
      simp only [beqItems, hv, ih hvs, Bool.and_self]

theorem Value.beqEntries_self {es : List (String × Value)}
    (h : ∀ p ∈ es, Value.beq p.2 p.2 = true) : Value.beqEntries es es = true := by
  induction es with
  | nil => rfl
  | cons e es ih =>
      obtain ⟨he, hes⟩ := List.forall_mem_cons.mp h
      simp only [beqEntries, he, ih hes, beq_self_eq_true, Bool.and_self]

/-- Lists are compared alike under maps that keep comparisons of their elements. -/
theorem Value.beqItems_map_map {f g : Value → Value} {vs : List Value}
    (h : ∀ v ∈ vs, ∀ w, Value.beq (f v) (g w) = Value.beq v w) (ws : List Value) :
    Value.beqItems (vs.map f) (ws.map g) = Value.beqItems vs ws := by
  induction vs generalizing ws with
  | nil => cases ws <;> rfl
  | cons v vs ih =>
      obtain ⟨hv, hvs⟩ := List.forall_mem_cons.mp h
      cases ws with
      | nil => rfl
      | cons w ws => simp only [List.map_cons, beqItems, hv, ih hvs]

theorem Value.beqEntries_map_map {f g : Value → Value} {es : List (String × Value)}
    (h : ∀ p ∈ es, ∀ w, Value.beq (f p.2) (g w) = Value.beq p.2 w)
    (ds : List (String × Value)) :
    Value.beqEntries (es.map fun p => (p.1, f p.2)) (ds.map fun p => (p.1, g p.2)) =
      Value.beqEntries es ds := by
  induction es generalizing ds with
  | nil => cases ds <;> rfl
  | cons e es ih =>
      obtain ⟨he, hes⟩ := List.forall_mem_cons.mp h
      cases ds with
      | nil => rfl
      | cons d ds => simp only [List.map_cons, beqEntries, he, ih hes]

/-- A trip neither joins nor separates values. -/
theorem Value.beq_received (v w : Value) :
    Value.beq (v.received c?) (w.received d?) = Value.beq v w := by
  induction v using Value.nested generalizing w with
  | null | bool | int | float | str | datetime => cases w <;> rfl
  | list vs ih | tuple vs ih | set vs ih =>
      cases w <;> simp only [received, beq, receivedItems_eq, beqItems_map_map ih]
  | map es ih =>
      cases w <;>
        simp only [received, beq, receivedEntries_eq, beqEntries_map_map ih]
  | entity e ih =>
      cases w with
      | entity d =>
          obtain ⟨s, version, context?, values, changed⟩ := e
          obtain ⟨t, version', context?', values', changed'⟩ := d
          simp only [received, Entity.received, beq, Entity.beq, receivedEntries_eq,
            beqEntries_map_map ih]
      | _ => rfl

theorem Value.dedup_received (vs : List Value) :
    dedup (vs.map (received c?)) = (dedup vs).map (received c?) := by
  have hstep (kept : List Value) : (vs.map (received c?)).foldl
      (fun kept v => if kept.any (· == v) then kept else kept ++ [v]) (kept.map (received c?)) =
      (vs.foldl (fun kept v => if kept.any (· == v) then kept else kept ++ [v]) kept).map
        (received c?) := by
    induction vs generalizing kept with
    | nil => rfl
    | cons v vs ih =>
        have hany : (kept.map (received c?)).any (· == v.received c?) = kept.any (· == v) := by
          rw [List.any_map]
          exact congrArg kept.any (funext fun w => Value.beq_received c? c? w v)
        simp only [List.map_cons, List.foldl_cons, hany]
        split
        · exact ih kept
        · rw [← ih, List.map_append, List.map_singleton]
  exact hstep []

end

end Skew

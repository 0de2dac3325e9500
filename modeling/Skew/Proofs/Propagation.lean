import Skew.Entity.Path
import Skew.Proofs.Programs
import Skew.Proofs.Replies

/-!
# Changes along a path

An assignment deep inside marks one field, that of the entity it is made on. The owners
of that entity learn of it because what changed is asked for anew: a field that holds an
entity with changes, or a list with one, counts as changed. So along the path each owner
gains the field through which the path leaves it, and nothing beside the path is touched.

`Value.at?` says what stands at an address: a list of hops into fields, sequences and
maps. Beside the path are the addresses that neither lead to the assigned value nor pass
through it.
-/

namespace Skew

/-! ## Addresses -/

/-- One step into a value: to a field of an entity, an element of a sequence, or an entry
of a map. -/
inductive Hop where
  | field (name : String)
  | item (index : Nat)
  | entry (key : String)

namespace Value

/-- What stands one step inside. -/
def hop? : Hop → Value → Option Value
  | .field n, .entity e => Record.get? e.values n
  | .item i, .list vs | .item i, .tuple vs | .item i, .set vs => vs[i]?
  | .entry k, .map es => Record.get? es k
  | _, _ => none

/-- What stands at an address. -/
def at? : List Hop → Value → Option Value
  | [], v => some v
  | h :: q, v => (v.hop? h).bind (at? q)

theorem at?_cons (h : Hop) (q : List Hop) (v : Value) : v.at? (h :: q) = (v.hop? h).bind (at? q) :=
  rfl

end Value

/-- The hops of a step: into the field, and to the element if there is an index. -/
def PathStep.hops (step : PathStep) : List Hop :=
  .field step.field :: (step.index?.map Hop.item).toList

/-- The address of the field of a name on the entity that a path leads to. -/
def PathStep.fieldAddress (steps : List PathStep) (name : String) : List Hop :=
  steps.flatMap PathStep.hops ++ [.field name]

namespace Entity

/-- The path leads to this entity: every field on the way is declared and set, and holds an
entity, or a list with an entity at the index. -/
inductive Walks : Entity → List PathStep → Entity → Prop where
  | here (e : Entity) : Walks e [] e
  | field {e c d : Entity} {f : String} {steps : List PathStep} (h : e.get f = .ok (.entity c))
      (hwalk : Walks c steps d) : Walks e (⟨f, none⟩ :: steps) d
  | item {e c d : Entity} {f : String} {i : Nat} {vs : List Value} {steps : List PathStep}
      (h : e.get f = .ok (.list vs)) (hi : vs[i]? = some (.entity c))
      (hwalk : Walks c steps d) : Walks e (⟨f, some i⟩ :: steps) d

/-! ## One step -/

section

variable {e c c' : Entity} {f : String}

theorem get_storeCoerced {v w : Value} (h : e.get f = .ok v) :
    (e.storeCoerced f w).get f = .ok w := by
  obtain ⟨hf, -⟩ := get_eq_ok_iff.mp h
  exact get_eq_ok_iff.mpr ⟨hf, Record.get?_insert_self e.values f w⟩

/-- A value with changes of its own adds its field to the changed ones, and no other. -/
theorem mem_whatChanged_storeCoerced {v : Value} (h : v.hasChanges = true) (m : String) :
    m ∈ (e.storeCoerced f v).whatChanged ↔ m ∈ e.whatChanged ∨ m = f := by
  by_cases hm : m = f
  · subst hm
    have hmem : (m, v) ∈ (e.storeCoerced m v).values :=
      Record.mem_of_get? (Record.get?_insert_self e.values m v)
    simp only [or_true, iff_true, whatChanged_eq, changedEntries_eq, NameSet.mem_union]
    exact Or.inr (List.mem_map.mpr ⟨(m, v), List.mem_filter.mpr ⟨hmem, h⟩, rfl⟩)
  · -- An assignment would mark the field as well; for other fields there is no difference.
    have hassigned := mem_whatChanged_assigned (e := e) (n := f) (m := m) (v := v)
    simp only [whatChanged_eq, assigned, NameSet.mem_union, NameSet.mem_insert, hm,
      false_or, or_false] at hassigned ⊢
    exact hassigned

theorem hasChanges_of_mem {m : String} (h : m ∈ c.whatChanged) :
    (Value.entity c).hasChanges = true := by
  rw [Value.hasChanges, Bool.not_eq_true', List.isEmpty_eq_false_iff]
  exact List.ne_nil_of_mem h

theorem hasChanges_set_of_mem {vs : List Value} {i : Nat} {m : String} (hi : i < vs.length)
    (h : m ∈ c.whatChanged) : (Value.list (vs.set i (.entity c))).hasChanges = true := by
  rw [Value.hasChanges, Value.anyChanges_eq, List.any_eq_true]
  exact ⟨.entity c, List.mem_set hi _, hasChanges_of_mem h⟩

/-- Hops into other fields lead where they did. -/
theorem hop?_storeCoerced {v : Value} {hop : Hop} (h : hop ≠ .field f) :
    (Value.entity (e.storeCoerced f v)).hop? hop = (Value.entity e).hop? hop := by
  cases hop with
  | field n => exact Record.get?_insert_ne e.values v fun hn => h (hn ▸ rfl)
  | _ => rfl

/-- Beside the field that is put, and outside the value put there, nothing differs. -/
theorem at?_storeCoerced {v w : Value} {q p : List Hop} (hget : e.get f = .ok v)
    (hq : ¬ q <+: .field f :: p) (hp : ¬ .field f :: p <+: q)
    (h : ∀ q, ¬ q <+: p → ¬ p <+: q → w.at? q = v.at? q) :
    (Value.entity (e.storeCoerced f w)).at? q = (Value.entity e).at? q := by
  cases q with
  | nil => exact absurd List.nil_prefix hq
  | cons hop q =>
      rw [Value.at?_cons, Value.at?_cons]
      by_cases hhop : hop = .field f
      · subst hhop
        rw [List.cons_prefix_cons, eq_self, true_and] at hq hp
        rw [Value.hop?, Value.hop?, (get_eq_ok_iff.mp hget).2]
        exact (congrArg (Option.bind · _) (Record.get?_insert_self e.values f w)).trans (h q hq hp)
      · rw [hop?_storeCoerced hhop]

/-- Beside the element that is put, and outside it, nothing differs. -/
theorem at?_list_set {vs : List Value} {i : Nat} {q p : List Hop}
    (hi : vs[i]? = some (.entity c)) (hq : ¬ q <+: .item i :: p) (hp : ¬ .item i :: p <+: q)
    (h : ∀ q, ¬ q <+: p → ¬ p <+: q → (Value.entity c').at? q = (Value.entity c).at? q) :
    (Value.list (vs.set i (.entity c'))).at? q = (Value.list vs).at? q := by
  cases q with
  | nil => exact absurd List.nil_prefix hq
  | cons hop q =>
      rw [Value.at?_cons, Value.at?_cons]
      by_cases hhop : hop = .item i
      · subst hhop
        rw [List.cons_prefix_cons, eq_self, true_and] at hq hp
        have hlt := (List.getElem?_eq_some_iff.mp hi).1
        rw [Value.hop?, Value.hop?, List.getElem?_set_self hlt, hi]
        exact h q hq hp
      · cases hop with
        | item j =>
            have hne : i ≠ j := fun hij => hhop (hij ▸ rfl)
            rw [Value.hop?, Value.hop?, List.getElem?_set_ne hne]
        | _ => rfl

end

/-! ## The whole path -/

/-- How two entities differ after an assignment to the field of a name at the end of a path:
each entity on the path has a new value in the field through which the path leaves it, and
that field counts as changed; what stands at addresses beside the path is the same. -/
structure MarkedAlong (steps : List PathStep) (name : String) (e e' : Entity) : Prop where
  owners : ∀ before step after, steps = before ++ step :: after →
    ∃ a a' v, e.Walks before a ∧ e'.Walks before a' ∧ a' = a.storeCoerced step.field v ∧
      ∀ m, m ∈ a'.whatChanged ↔ m ∈ a.whatChanged ∨ m = step.field
  others : ∀ q, ¬ q <+: PathStep.fieldAddress steps name →
    ¬ PathStep.fieldAddress steps name <+: q →
    (Value.entity e').at? q = (Value.entity e).at? q

/-- Somewhere in an entity on which an assignment was made there is a change. -/
theorem exists_mem_whatChanged {e e' d' : Entity} {steps : List PathStep} {name : String}
    (hmarked : e.MarkedAlong steps name e') (hwalk : e'.Walks steps d')
    (hd' : name ∈ d'.whatChanged) : ∃ m, m ∈ e'.whatChanged := by
  cases steps with
  | nil => cases hwalk; exact ⟨name, hd'⟩
  | cons step steps =>
      obtain ⟨a, a', v, -, hwalk', -, hmem⟩ := hmarked.owners [] step steps rfl
      cases hwalk'
      exact ⟨step.field, (hmem step.field).mpr (Or.inr rfl)⟩

section

variable {e c c' : Entity} {f name : String} {steps : List PathStep}

theorem MarkedAlong.cons {i? : Option Nat} {w : Value}
    (hwalks : ∀ {steps d}, c.Walks steps d → e.Walks (⟨f, i?⟩ :: steps) d)
    (hwalks' : ∀ {steps d}, c'.Walks steps d → (e.storeCoerced f w).Walks (⟨f, i?⟩ :: steps) d)
    (hchanges : w.hasChanges = true) (h : c.MarkedAlong steps name c')
    (hothers : ∀ q, ¬ q <+: PathStep.fieldAddress (⟨f, i?⟩ :: steps) name →
      ¬ PathStep.fieldAddress (⟨f, i?⟩ :: steps) name <+: q →
      (Value.entity (e.storeCoerced f w)).at? q = (Value.entity e).at? q) :
    e.MarkedAlong (⟨f, i?⟩ :: steps) name (e.storeCoerced f w) where
  owners before step after hsteps := by
    cases before with
    | nil =>
        obtain ⟨rfl, rfl⟩ := List.cons.inj hsteps
        exact ⟨e, _, w, .here e, .here _, rfl, mem_whatChanged_storeCoerced hchanges⟩
    | cons first before =>
        obtain ⟨rfl, rfl⟩ := List.cons.inj hsteps
        obtain ⟨a, a', v, ha, ha', hv, hmem⟩ := h.owners before step after rfl
        exact ⟨a, a', v, hwalks ha, hwalks' ha', hv, hmem⟩
  others := hothers

/-- Marks of a composed entity reach its owner. -/
theorem MarkedAlong.field (hget : e.get f = .ok (.entity c)) (h : c.MarkedAlong steps name c')
    {m : String} (hm : m ∈ c'.whatChanged) :
    e.MarkedAlong (⟨f, none⟩ :: steps) name (e.storeCoerced f (.entity c')) :=
  .cons (.field hget) (.field (get_storeCoerced hget)) (hasChanges_of_mem hm) h
    fun _ hq hp => at?_storeCoerced hget hq hp h.others

/-- Marks of an element reach the owner of the list. -/
theorem MarkedAlong.item {vs : List Value} {i : Nat} (hget : e.get f = .ok (.list vs))
    (hi : vs[i]? = some (.entity c)) (h : c.MarkedAlong steps name c')
    {m : String} (hm : m ∈ c'.whatChanged) :
    e.MarkedAlong (⟨f, some i⟩ :: steps) name
      (e.storeCoerced f (.list (vs.set i (.entity c')))) := by
  have hlt := (List.getElem?_eq_some_iff.mp hi).1
  exact .cons (.item hget hi) (.item (get_storeCoerced hget) (List.getElem?_set_self hlt))
    (hasChanges_set_of_mem hlt hm) h
    fun _ hq hp => at?_storeCoerced hget hq hp fun _ hq hp => at?_list_set hi hq hp h.others

end

theorem MarkedAlong.assigned (d : Entity) (name : String) (v : Value) :
    d.MarkedAlong [] name (d.assigned name v) where
  owners before step after hsteps := by simp at hsteps
  others q hq hp := by
    cases q with
    | nil => exact absurd List.nil_prefix hq
    | cons hop q =>
        have hhop : hop ≠ .field name := by
          rintro rfl
          exact hp (List.cons_prefix_cons.mpr ⟨rfl, List.nil_prefix⟩)
        have hmark : (Value.entity (d.assigned name v)).hop? hop =
            (Value.entity (d.storeCoerced name v)).hop? hop := by
          cases hop <;> rfl
        rw [Value.at?_cons, Value.at?_cons, hmark, hop?_storeCoerced hhop]

/-- An assignment to the entity at the end of a path goes through, whatever stands beside the
path, as it would on that entity alone. What changed on it is what had changed and the
assigned field. What changed on each entity on the path is what had changed and the field
through which the path leaves it. Everything beside the path is the same. -/
theorem focus_set_marks_path [Codecs] {e d d' : Entity} {steps : List PathStep} {name : String}
    {v : Value}
    (hwalk : e.Walks steps d) (hset : d.set name v = .ok d') :
    ∃ e', e.focus (Update.set name v) steps = .ok (.ok (), e') ∧ e'.Walks steps d' ∧
      (∀ m, m ∈ d'.whatChanged ↔ m ∈ d.whatChanged ∨ m = name) ∧
      e.MarkedAlong steps name e' := by
  obtain ⟨f, w, -, -, hassigned⟩ := set_eq_ok_iff.mp hset
  have hmem (m : String) : m ∈ d'.whatChanged ↔ m ∈ d.whatChanged ∨ m = name := by
    rw [hassigned, mem_whatChanged_assigned, or_comm]
  have hname : name ∈ d'.whatChanged := (hmem name).mpr (Or.inr rfl)
  induction hwalk with
  | here e =>
      refine ⟨d', ?_, .here d', hmem, hassigned ▸ .assigned e name w⟩
      rw [focus, Update.set_ok hset]
  | @field e c d f steps hget hwalk ih =>
      obtain ⟨c', hfocus, hwalk', -, hmarked⟩ := ih hset hassigned hmem
      obtain ⟨m, hm⟩ := exists_mem_whatChanged hmarked hwalk' hname
      refine ⟨e.storeCoerced f (.entity c'), ?_, .field (get_storeCoerced hget) hwalk', hmem,
        .field hget hmarked hm⟩
      simp only [focus, hget, Except.mapError_ok, Except.ok_bind, Value.focus, hfocus,
        Except.ok_map]
  | @item e c d f i vs steps hget hi hwalk ih =>
      obtain ⟨c', hfocus, hwalk', -, hmarked⟩ := ih hset hassigned hmem
      obtain ⟨m, hm⟩ := exists_mem_whatChanged hmarked hwalk' hname
      have hi' := List.getElem?_set_self (a := .entity c') (List.getElem?_eq_some_iff.mp hi).1
      refine ⟨e.storeCoerced f (.list (vs.set i (.entity c'))), ?_,
        .item (get_storeCoerced hget) hi' hwalk', hmem, .item hget hi hmarked hm⟩
      simp only [focus, hget, Except.mapError_ok, Except.ok_bind, Value.focus, hi, hfocus,
        Except.ok_map]

end Entity

/-! ## A fleet

Two cars with an engine each. Power is assigned to the engine of the second one. -/

namespace Fleet

attribute [local instance] Codecs.none

def engineSchema : Schema :=
  ⟨"Engine", ⟨1, 0, none⟩, [("power", ⟨.integer true, false, none⟩)], [], [], none⟩

def carSchema : Schema :=
  ⟨"Car", ⟨1, 0, none⟩, [("engine", ⟨.object "Engine", false, none⟩)], [], [], none⟩

def schema : Schema :=
  ⟨"Fleet", ⟨1, 0, none⟩, [("cars", ⟨.listOfObjects "Car", false, none⟩)], [], [], none⟩

def engine (power : Int64) : Entity :=
  ⟨engineSchema, ⟨1, 0, none⟩, none, [("power", .int power)], []⟩

def car (power : Int64) : Entity :=
  ⟨carSchema, ⟨1, 0, none⟩, none, [("engine", .entity (engine power))], []⟩

def fleet : Entity :=
  ⟨schema, ⟨1, 0, none⟩, none, [("cars", .list [.entity (car 90), .entity (car 110)])], []⟩

def toEngine : List PathStep := [⟨"cars", some 1⟩, ⟨"engine", none⟩]

theorem walks_toEngine : fleet.Walks toEngine (engine 110) :=
  .item rfl rfl (.field rfl (.here _))

theorem set_power :
    (engine 110).set "power" (.int 120) = .ok ((engine 110).assigned "power" (.int 120)) := rfl

theorem power_marks_path :
    fleet.Walks toEngine (engine 110) ∧
    (engine 110).set "power" (.int 120) = .ok ((engine 110).assigned "power" (.int 120)) ∧
    ∃ e', fleet.focus (Update.set "power" (.int 120)) toEngine = .ok (.ok (), e') ∧
      e'.Walks toEngine ((engine 110).assigned "power" (.int 120)) ∧
      (∀ m, m ∈ ((engine 110).assigned "power" (.int 120)).whatChanged ↔
        m ∈ (engine 110).whatChanged ∨ m = "power") ∧
      fleet.MarkedAlong toEngine "power" e' :=
  ⟨walks_toEngine, set_power, Entity.focus_set_marks_path walks_toEngine set_power⟩

end Fleet

end Skew

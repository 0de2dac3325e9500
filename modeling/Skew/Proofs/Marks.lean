import Skew.Entity.Plain
import Skew.Proofs.Documents
import Skew.Proofs.Likeness
import Skew.Proofs.Origins
import Skew.Proofs.RoundTrip

/-!
# Marks

The marks of an entity are the names it lists as changed. `Entity.unmarked` is the entity
without marks at any depth, so two entities with the same unmarked form differ in marks at
most. Equality does not see marks (`Value.beq_unmarked`). Documents show them, but under
one key only: leaving out that key, entities that differ in marks at most are written
alike (`Entity.write_unmarked`), and so they have equal primitives.
-/

namespace Skew

mutual

/-- The value with every entity in it unmarked. -/
def Value.unmarked : Value → Value
  | .list vs => .list (Value.unmarkedItems vs)
  | .tuple vs => .tuple (Value.unmarkedItems vs)
  | .set vs => .set (Value.unmarkedItems vs)
  | .map es => .map (Value.unmarkedEntries es)
  | .entity e => .entity (Entity.unmarked e)
  | .null => .null
  | .bool b => .bool b
  | .int n => .int n
  | .float x => .float x
  | .str s => .str s
  | .datetime t => .datetime t

def Value.unmarkedItems : List Value → List Value
  | [] => []
  | v :: vs => v.unmarked :: Value.unmarkedItems vs

def Value.unmarkedEntries : List (String × Value) → List (String × Value)
  | [] => []
  | (n, v) :: es => (n, v.unmarked) :: Value.unmarkedEntries es

/-- The entity without marks, at any depth. -/
def Entity.unmarked : Entity → Entity
  | ⟨schema, version, context?, values, _⟩ =>
    ⟨schema, version, context?, Value.unmarkedEntries values, []⟩

end

section

attribute [local simp] Value.unmarked

theorem Value.unmarkedItems_eq (vs : List Value) :
    Value.unmarkedItems vs = vs.map Value.unmarked := by
  induction vs with
  | nil => rfl
  | cons v vs ih => rw [Value.unmarkedItems, ih, List.map_cons]

theorem Value.unmarkedEntries_eq (es : List (String × Value)) :
    Value.unmarkedEntries es = es.map fun e => (e.1, e.2.unmarked) := by
  induction es with
  | nil => rfl
  | cons e es ih => rw [Value.unmarkedEntries, ih, List.map_cons]

theorem Entity.unmarked_eq (e : Entity) : e.unmarked =
    { e with values := e.values.map fun p => (p.1, p.2.unmarked), changed := [] } := by
  cases e
  rw [Entity.unmarked, Value.unmarkedEntries_eq]

@[simp] theorem Entity.unmarked_schema (e : Entity) : e.unmarked.schema = e.schema := by
  cases e; rfl

@[simp] theorem Entity.unmarked_version (e : Entity) : e.unmarked.version = e.version := by
  cases e; rfl

@[simp] theorem Entity.unmarked_context? (e : Entity) : e.unmarked.context? = e.context? := by
  cases e; rfl

theorem Entity.unmarked_get? (e : Entity) (n : String) :
    Record.get? e.unmarked.values n = (Record.get? e.values n).map Value.unmarked := by
  rw [unmarked_eq]
  exact Record.get?_map (fun _ => Value.unmarked) e.values n

@[simp] theorem Value.shape_unmarked (v : Value) : v.unmarked.shape = v.shape := by
  cases v <;> rfl

/-- Equality does not see marks. -/
theorem Value.beq_unmarked (v w : Value) :
    Value.beq v.unmarked w.unmarked = Value.beq v w := by
  induction v using Value.nested generalizing w with
  | null | bool | int | float | str | datetime => cases w <;> rfl
  | list vs ih | tuple vs ih | set vs ih =>
      cases w <;> simp only [unmarked, beq, unmarkedItems_eq, beqItems_map_map ih]
  | map es ih =>
      cases w <;> simp only [unmarked, beq, unmarkedEntries_eq, beqEntries_map_map ih]
  | entity e ih =>
      cases w with
      | entity d =>
          obtain ⟨s, version, context?, values, changed⟩ := e
          obtain ⟨t, version', context?', values', changed'⟩ := d
          simp only [unmarked, Entity.unmarked, beq, Entity.beq, unmarkedEntries_eq,
            beqEntries_map_map ih]
      | _ => rfl

theorem Value.graph_unmarked (v : Value) : v.unmarked.graph = v.graph.map Entity.unmarked := by
  induction v using Value.nested with
  | null | bool | int | float | str | datetime => rfl
  | list vs ih | tuple vs ih | set vs ih =>
      simp only [unmarked, graph, unmarkedItems_eq, itemGraph_eq, List.map_flatMap,
        List.flatMap_map]
      exact List.flatMap_congr ih
  | map es ih =>
      simp only [unmarked, graph, unmarkedEntries_eq, entryGraph_eq, List.map_flatMap,
        List.flatMap_map]
      exact List.flatMap_congr ih
  | entity e ih =>
      simp only [unmarked, graph, Entity.graph_eq, Entity.unmarked_eq, List.map_cons,
        List.map_flatMap, List.flatMap_map]
      rw [List.flatMap_congr ih]

theorem Entity.graph_unmarked (e : Entity) :
    e.unmarked.graph = e.graph.map Entity.unmarked := by
  have h := Value.graph_unmarked (.entity e)
  rwa [Value.unmarked, Value.graph, Value.graph] at h

end

/-! ## Documents without some names -/

/-- The members of a primitive other than its markers. -/
def Primitive.unmarkedMembers (p : Primitive) : Members :=
  [(dataKey, .obj p.data), (nameKey, .str p.name), (spaceKey, .str p.space),
    (versionKey, .str p.version)]

namespace Json

variable {names : List String}

/-- Without the names, the documents are the same, and equal to themselves: no float in them
is indeterminate. -/
def AlikeWithout (names : List String) (i j : Json) : Prop :=
  i.strip names = j.strip names ∧ (j.strip names == j.strip names) = true

theorem AlikeWithout.null : AlikeWithout names .null .null := ⟨rfl, rfl⟩

theorem AlikeWithout.bool (b : Bool) : AlikeWithout names (.bool b) (.bool b) :=
  ⟨rfl, beq_self_eq_true b⟩

theorem AlikeWithout.int (n : Int) : AlikeWithout names (.int n) (.int n) :=
  ⟨rfl, beq_self_eq_true n⟩

theorem AlikeWithout.float {x : Float} (h : x.isFinite = true) :
    AlikeWithout names (.float x) (.float x) :=
  ⟨rfl, Float.beq_self_of_isFinite h⟩

theorem AlikeWithout.str (s : String) : AlikeWithout names (.str s) (.str s) :=
  ⟨rfl, beq_self_eq_true s⟩

theorem AlikeWithout.arr {is js : List Json} (h : List.Forall₂ (AlikeWithout names) is js) :
    AlikeWithout names (.arr is) (.arr js) := by
  have hitems : stripItems names is = stripItems names js ∧
      beqItems (stripItems names js) (stripItems names js) = true := by
    induction h with
    | nil => exact ⟨rfl, rfl⟩
    | cons hij _ ih =>
        rw [stripItems, stripItems, hij.1, ih.1]
        exact ⟨rfl, Bool.and_eq_true_iff.mpr ⟨hij.2, ih.2⟩⟩
  exact ⟨congrArg Json.arr hitems.1, hitems.2⟩

theorem AlikeWithout.obj {ms ns : Members}
    (h : List.Forall₂ (fun m n => m.1 = n.1 ∧ AlikeWithout names m.2 n.2) ms ns) :
    AlikeWithout names (.obj ms) (.obj ns) := by
  have hmembers : stripMembers names ms = stripMembers names ns ∧
      beqMembers (stripMembers names ns) (stripMembers names ns) = true := by
    induction h with
    | nil => exact ⟨rfl, rfl⟩
    | @cons m n ms ns hmn _ ih =>
        obtain ⟨k, i⟩ := m
        obtain ⟨l, j⟩ := n
        obtain ⟨rfl, hij⟩ : k = l ∧ AlikeWithout names i j := hmn
        rw [stripMembers, stripMembers]
        split
        · exact ih
        · rw [hij.1, ih.1]
          refine ⟨rfl, ?_⟩
          rw [beqMembers, beq_self_eq_true, Bool.true_and]
          exact Bool.and_eq_true_iff.mpr ⟨hij.2, ih.2⟩
  exact ⟨congrArg Json.obj hmembers.1, hmembers.2⟩

/-- A primitive without its markers. -/
theorem strip_toJson (h : Primitive.changesKey ∈ names) (p : Primitive) :
    p.toJson.strip names = Json.strip names (.obj p.unmarkedMembers) := by
  rw [Primitive.toJson_eq, Primitive.members]
  split
  · rfl
  · simp only [strip, List.singleton_append, stripMembers, h, if_true]
    rfl

/-- Primitives that differ in their markers only, and in their data as far as the names go. -/
theorem AlikeWithout.toJson (h : Primitive.changesKey ∈ names) {p q : Primitive}
    (hspace : p.space = q.space) (hname : p.name = q.name) (hversion : p.version = q.version)
    (hdata : List.Forall₂ (fun m n => m.1 = n.1 ∧ AlikeWithout names m.2 n.2) p.data q.data) :
    AlikeWithout names p.toJson q.toJson := by
  have hobj : AlikeWithout names (.obj p.unmarkedMembers) (.obj q.unmarkedMembers) := by
    rw [Primitive.unmarkedMembers, Primitive.unmarkedMembers, hspace, hname, hversion]
    exact .obj (.cons ⟨rfl, .obj hdata⟩ (.cons ⟨rfl, .str _⟩ (.cons ⟨rfl, .str _⟩
      (.cons ⟨rfl, .str _⟩ .nil))))
  rw [AlikeWithout, strip_toJson h p, strip_toJson h q]
  exact hobj

/-- Names that are left out later need not be left out before. -/
theorem strip_strip {inner : List String} (h : ∀ n ∈ inner, n ∈ names) (j : Json) :
    (j.strip inner).strip names = j.strip names := by
  induction j using Json.nested with
  | null | bool | int | float | str => rfl
  | arr js ih =>
      have hitems : stripItems names (stripItems inner js) = stripItems names js := by
        induction js with
        | nil => rfl
        | cons j js ihjs =>
            obtain ⟨hj, hjs⟩ := List.forall_mem_cons.mp ih
            rw [stripItems, stripItems, hj, ihjs hjs, stripItems]
      exact congrArg Json.arr hitems
  | obj ms ih =>
      have hmembers : stripMembers names (stripMembers inner ms) = stripMembers names ms := by
        clear * - h ih
        induction ms with
        | nil => rfl
        | cons m ms ihms =>
            obtain ⟨k, j⟩ := m
            obtain ⟨hj, hms⟩ := List.forall_mem_cons.mp ih
            rw [stripMembers, stripMembers]
            split
            · next hk => rw [if_pos (h k hk), ihms hms]
            · rw [stripMembers, hj, ihms hms]
      exact congrArg Json.obj hmembers

/-- A document that equals itself does so without the names. -/
theorem beq_strip_self {j : Json} (h : Json.beq j j = true) :
    Json.beq (j.strip names) (j.strip names) = true := by
  induction j using Json.nested with
  | null | bool | int | float | str => exact h
  | arr js ih =>
      rw [strip, Json.beq]
      rw [Json.beq] at h
      induction js with
      | nil => rfl
      | cons j js ihjs =>
          obtain ⟨hj, hjs⟩ := List.forall_mem_cons.mp ih
          rw [beqItems, Bool.and_eq_true] at h
          rw [stripItems, beqItems, Bool.and_eq_true]
          exact ⟨hj h.1, ihjs hjs h.2⟩
  | obj ms ih =>
      rw [strip, Json.beq]
      rw [Json.beq] at h
      clear * - h ih
      induction ms with
      | nil => rfl
      | cons m ms ihms =>
          obtain ⟨k, j⟩ := m
          obtain ⟨hj, hms⟩ := List.forall_mem_cons.mp ih
          simp only [beqMembers, Bool.and_eq_true] at h
          rw [stripMembers]
          split
          · exact ihms hms h.2
          · simp only [beqMembers, Bool.and_eq_true]
            exact ⟨⟨h.1.1, hj h.1.2⟩, ihms hms h.2⟩

end Json

/-! ## Writing without marks -/

/-- A codec that writes a value alike whatever is marked in it, markers aside, and writes no
indeterminate number. -/
structure Codec.Impartial (c : Codec) : Prop where
  marks : ∀ v : Value, (c.write v.unmarked).map (Json.strip [Primitive.changesKey]) =
    (c.write v).map (Json.strip [Primitive.changesKey])
  determinate : ∀ v j, c.write v = .ok j → (j == j) = true

/-- A codec that is not impartial: for any value it writes whether nothing in it is marked. -/
@[reducible] def Codecs.sealing : Codecs :=
  ⟨fun _ => ⟨.ok, fun v => .ok (.bool (v.graph.all fun d => d.changed.isEmpty)),
    fun _ => .error "never read"⟩⟩

section

variable [Codecs]

/-- The codecs that a kind names are impartial. -/
def Kind.Impartial : Kind → Prop
  | .custom c => (Codecs.codec c).Impartial
  | .list k | .set k | .dict k | .nullable k => k.Impartial
  | _ => True

theorem Kind.Impartial.bare {k : Kind} (h : k.Impartial) : k.bare.Impartial := by
  induction k with
  | nullable k ih => exact ih h
  | _ => exact h

variable {names : List String}

omit [Codecs] in
/-- What is written for a scalar is determinate. -/
theorem Value.alikeWithout_writeScalar {v : Value} {k : Kind} {j : Json}
    (h : v.writeScalar? k = some j) : Json.AlikeWithout names j j := by
  have hfloat {x : Float} (hx : Json.ofFloat? x = some j) : Json.AlikeWithout names j j := by
    obtain ⟨hfinite, rfl⟩ := Json.ofFloat?_eq_some_iff.mp hx
    exact .float hfinite
  cases v with
  | int n => cases k <;> first | exact hfloat h | (cases h; exact .int _) | cases h
  | float x => cases k <;> first | exact hfloat h | cases h
  | str s => cases k <;> first | (cases h; exact .str s) | cases h
  | bool b => cases k <;> first | (cases h; exact .bool b) | cases h
  | datetime t => cases k <;> first | (cases h; exact .str _) | cases h
  | _ => cases h

section

variable (hnames : Primitive.changesKey ∈ names)
include hnames

omit [Codecs] in
theorem Codec.Impartial.write_unmarked {c : Codec} (h : c.Impartial) (v : Value) :
    (c.write v.unmarked).Matching (Json.AlikeWithout names) (c.write v) := by
  have hmarks := Except.Matching.of_map_eq (h.marks v)
  have hdeterminate := h.determinate v
  have hinner : ∀ n ∈ [Primitive.changesKey], n ∈ names := List.forall_mem_singleton.mpr hnames
  generalize c.write v.unmarked = x, c.write v = y at hmarks hdeterminate
  cases hmarks with
  | error err => exact .error err
  | @ok i j hij =>
      refine .ok ⟨?_, Json.beq_strip_self (hdeterminate j rfl)⟩
      rw [← Json.strip_strip hinner i, hij, Json.strip_strip hinner]

theorem Value.writeLeaf_unmarked (v : Value) (field : String) {k : Kind} (hk : k.Impartial) :
    (v.unmarked.writeLeaf field k).Matching (Json.AlikeWithout names) (v.writeLeaf field k) := by
  have hscalar (k : Kind) : v.unmarked.writeScalar? k = v.writeScalar? k := by
    cases v <;> rfl
  cases k with
  | custom c => exact (hk.write_unmarked hnames v).mapError _
  | _ =>
      simp only [writeLeaf, hscalar, shape_unmarked]
      split
      · next hj => exact .ok (alikeWithout_writeScalar hj)
      · exact .error _

/-- A container is written alike if its elements are, as values and as entities. -/
theorem Value.write_unmarked_of_items {v : Value} {vs : List Value} (hv : v.items? = some vs)
    {field : String} (h : ∀ w ∈ vs, ∀ k : Kind, k.Impartial →
      (w.unmarked.write field k).Matching (Json.AlikeWithout names) (w.write field k))
    {k : Kind} (hk : k.Impartial) :
    (v.unmarked.write field k).Matching (Json.AlikeWithout names) (v.write field k) := by
  have hitems {k : Kind} (hk : k.Impartial) :
      ((writeItems (vs.map unmarked) field k).map Json.arr).Matching (Json.AlikeWithout names)
        ((writeItems vs field k).map Json.arr) := by
    rw [writeItems_eq, writeItems_eq]
    refine Except.Matching.map (List.mapM_matching ?_) fun _ _ => Json.AlikeWithout.arr
    exact List.forall₂_map_left_iff.mpr (List.forall₂_same.mpr fun w hw => h w hw k hk)
  have hobjects (mismatch : EntityError) :
      ((writeObjects (vs.map unmarked) mismatch).map Json.arr).Matching (Json.AlikeWithout names)
        ((writeObjects vs mismatch).map Json.arr) := by
    rw [writeObjects_eq, writeObjects_eq]
    refine Except.Matching.map (List.mapM_matching ?_) fun _ _ => Json.AlikeWithout.arr
    refine List.forall₂_map_left_iff.mpr (List.forall₂_same.mpr fun w hw => ?_)
    cases w with
    | entity e => exact h _ hw (.object "") trivial
    | _ => exact .error _
  have hleaf := v.writeLeaf_unmarked hnames field hk.bare
  have hbare := hk.bare
  cases v with
  | list ws | tuple ws | set ws =>
      cases hv
      rw [unmarked, unmarkedItems_eq] at hleaf ⊢
      simp only [write]
      generalize k.bare = bare at hleaf hbare
      cases bare with
      | list k | set k => exact hitems hbare
      | listOfObjects type => exact hobjects _
      | _ => exact hleaf
  | _ => cases hv

omit hnames in
/-- Values of fields that are written alike make data that is alike. -/
theorem Entity.data_unmarked_of {e : Entity}
    (h : ∀ p ∈ e.values, ∀ f : Field, (p.1, f) ∈ e.schema.fields →
      (p.2.unmarked.write p.1 f.kind).Matching (Json.AlikeWithout names) (p.2.write p.1 f.kind)) :
    e.unmarked.data.Matching
      (List.Forall₂ fun m n => m.1 = n.1 ∧ Json.AlikeWithout names m.2 n.2) e.data := by
  rw [data_eq_gather, data_eq_gather, unmarked_schema]
  refine Record.gather_matching (fun p hp => ?_) .nil
  rw [writeField, writeField, unmarked_get?]
  cases hv : Record.get? e.values p.1 with
  | none => exact .none
  | some v => exact .some (h _ (Record.mem_of_get? hv) p.2 hp)

/-- The primitives of an entity with and without marks are alike but for the markers. -/
theorem Entity.write_unmarked_of {e : Entity} (h : e.unmarked.data.Matching
      (List.Forall₂ fun m n => m.1 = n.1 ∧ Json.AlikeWithout names m.2 n.2) e.data) :
    e.unmarked.write.Matching (fun p q => Json.AlikeWithout names p.toJson q.toJson) e.write := by
  rw [write_eq, write_eq, unmarked_version]
  refine h.map fun data data' hdata => .toJson hnames rfl ?_ rfl hdata
  exact congrArg Schema.name e.unmarked_schema

/-- What a value is written as shows its marks under the key of the markers only. -/
theorem Value.write_unmarked {v : Value} (field : String)
    (h : ∀ d ∈ v.graph, ∀ p ∈ d.schema.fields, p.2.kind.Impartial) {k : Kind}
    (hk : k.Impartial) :
    (v.unmarked.write field k).Matching (Json.AlikeWithout names) (v.write field k) := by
  induction v using Value.nested generalizing field k with
  | null => exact .ok .null
  | bool | int | float | str | datetime => exact writeLeaf_unmarked hnames _ field hk.bare
  | list vs ih | tuple vs ih | set vs ih =>
      exact write_unmarked_of_items hnames rfl
        (fun w hw k hk => ih w hw field (forall_graph_items h w hw) hk) hk
  | map es ih =>
      have hentries {k : Kind} (hk : k.Impartial) :
          ((writeEntries (es.map fun e => (e.1, e.2.unmarked)) field k).map Json.obj).Matching
            (Json.AlikeWithout names) ((writeEntries es field k).map Json.obj) := by
        rw [writeEntries_eq, writeEntries_eq, mapEntriesM, mapEntriesM]
        refine Except.Matching.map (List.mapM_matching ?_) fun _ _ => Json.AlikeWithout.obj
        refine List.forall₂_map_left_iff.mpr (List.forall₂_same.mpr fun e he => ?_)
        exact (ih e he field (forall_graph_entries h e he) hk).map fun _ _ hij => ⟨rfl, hij⟩
      have hleaf := writeLeaf_unmarked hnames (.map es) field hk.bare
      have hbare := hk.bare
      rw [unmarked, unmarkedEntries_eq] at hleaf ⊢
      simp only [write]
      generalize k.bare = bare at hleaf hbare
      cases bare with
      | dict k => exact hentries hbare
      | _ => exact hleaf
  | entity e ih =>
      have hwrite := Entity.write_unmarked_of hnames (Entity.data_unmarked_of
        fun p hp f hf => ih p hp p.1 (Entity.forall_graph_values h p hp)
          (h e e.self_mem_graph _ hf))
      have hleaf := writeLeaf_unmarked hnames (.entity e) field hk.bare
      rw [unmarked] at hleaf ⊢
      simp only [write]
      generalize k.bare = bare at hleaf
      cases bare with
      | object type => exact hwrite.map fun _ _ hpq => hpq
      | _ => exact hleaf

theorem Entity.write_unmarked {e : Entity}
    (h : ∀ d ∈ e.graph, ∀ p ∈ d.schema.fields, p.2.kind.Impartial) :
    e.unmarked.write.Matching (fun p q => Json.AlikeWithout names p.toJson q.toJson) e.write :=
  write_unmarked_of hnames (data_unmarked_of fun p hp _ hf =>
    Value.write_unmarked hnames p.1 (forall_graph_values h p hp) (h e e.self_mem_graph _ hf))

end

/-- Entities that differ in marks at most have equal primitives, once one of them can be
written. -/
theorem Entity.equalPrimitives_of_unmarked {e d : Entity} (h : d.unmarked = e.unmarked)
    (hkinds : ∀ d ∈ e.graph, ∀ p ∈ d.schema.fields, p.2.kind.Impartial) {p : Primitive}
    (hp : e.write = .ok p) (ignore : List String) :
    e.equalPrimitives d ignore = .ok true ∧ d.equalPrimitives e ignore = .ok true := by
  have hkinds' : ∀ x ∈ d.graph, ∀ p ∈ x.schema.fields, p.2.kind.Impartial := by
    intro x hx
    have hmem : x.unmarked ∈ e.unmarked.graph :=
      h ▸ d.graph_unmarked ▸ List.mem_map_of_mem hx
    rw [graph_unmarked] at hmem
    obtain ⟨y, hy, hyx⟩ := List.mem_map.mp hmem
    rw [← x.unmarked_schema, ← hyx, y.unmarked_schema]
    exact hkinds y hy
  have hnames : Primitive.changesKey ∈ Primitive.changesKey :: ignore := List.mem_cons_self
  have he := write_unmarked hnames hkinds
  have hd := write_unmarked hnames hkinds'
  rw [hp] at he
  rw [h] at hd
  generalize e.unmarked.write = x, hq : d.write = y at he hd
  cases he with
  | ok hpair =>
      cases hd with
      | ok hpair' =>
          rw [equalPrimitives, equalPrimitives, hp, hq]
          have hsame := hpair.1.symm.trans hpair'.1
          constructor
          · show Except.ok (_ == _) = _
            rw [← hsame, hpair.2]
          · show Except.ok (_ == _) = _
            rw [hsame, hpair'.2]

end

end Skew

import Skew.Proofs.Marks
import Skew.Proofs.Shapes

/-!
# Documents equal without some names

Whether entities have equal primitives is asked of their documents: the names to be left out are
stripped everywhere, and what remains is compared. `Json.EqualWithout` is that question. It is
symmetric and transitive, since the comparison of documents is. It need not be reflexive: an
indeterminate number equals nothing.

Documents that are equal part by part are equal without any names (`EqualWithout.arr`, `obj`,
`toJson`). The converse needs that no name to be left out is the key of something that is to
count (`equalWithout_obj_iff`, `equalWithout_toJson_iff`).
-/

namespace Skew

/-! ## Equal numbers -/

theorem Float.beq_symm {x y : Float} (h : (x == y) = true) : (y == x) = true := by
  rw [beq_iff_compare] at h ⊢
  rcases Model.UnpackedFloat.eq_or_zero_of_compare h with hsame | ⟨s, t, hx, hy⟩
  · rw [hsame] at h ⊢
    exact h
  · rw [hx, hy]
    rfl

theorem Float.isFinite_of_beq {x y : Float} (h : (x == y) = true) : x.isFinite = y.isFinite := by
  show x.toModel.unpack.isFinite = y.toModel.unpack.isFinite
  rw [beq_iff_compare] at h
  rcases Model.UnpackedFloat.eq_or_zero_of_compare h with hsame | ⟨s, t, hx, hy⟩
  · rw [hsame]
  · rw [hx, hy]
    rfl

namespace Json

/-! ## Equal documents -/

theorem beqItems_iff {is js : List Json} :
    beqItems is js = true ↔ List.Forall₂ (fun i j => Json.beq i j = true) is js := by
  induction is generalizing js with
  | nil => cases js <;> simp [beqItems]
  | cons i is ih => cases js <;> simp [beqItems, ih]

theorem beqMembers_iff {ms ns : Members} :
    beqMembers ms ns = true ↔
      List.Forall₂ (fun m n => m.1 = n.1 ∧ Json.beq m.2 n.2 = true) ms ns := by
  induction ms generalizing ns with
  | nil => cases ns <;> simp [beqMembers]
  | cons m ms ih => cases ns <;> simp [beqMembers, ih]

theorem beq_symm {i j : Json} (h : Json.beq i j = true) : Json.beq j i = true := by
  induction i using Json.nested generalizing j with
  | null | bool | int | str =>
      cases j <;> try cases h
      simp_all [Json.beq]
  | float x =>
      cases j <;> try cases h
      next y => exact Float.beq_symm h
  | arr is ih =>
      cases j <;> try cases h
      next js =>
        have hboth := (List.forall₂_and_left is js).mpr ⟨ih, beqItems_iff.mp h⟩
        exact beqItems_iff.mpr (hboth.imp fun i j hij => hij.1 hij.2).flip
  | obj ms ih =>
      cases j <;> try cases h
      next ns =>
        have hboth := (List.forall₂_and_left ms ns).mpr ⟨ih, beqMembers_iff.mp h⟩
        exact beqMembers_iff.mpr (hboth.imp fun m n hmn => ⟨hmn.2.1.symm, hmn.1 hmn.2.2⟩).flip

theorem beq_trans {i j k : Json} (hij : Json.beq i j = true) (hjk : Json.beq j k = true) :
    Json.beq i k = true := by
  induction i using Json.nested generalizing j k with
  | null | bool | int | str =>
      cases j <;> try cases hij
      cases k <;> try cases hjk
      simp_all [Json.beq]
  | float x =>
      cases j <;> try cases hij
      cases k <;> try cases hjk
      exact Float.beq_trans hij hjk
  | arr is ih =>
      cases j <;> try cases hij
      cases k <;> try cases hjk
      exact beqItems_iff.mpr (List.forall₂_of_forall₂ (beqItems_iff.mp hij) (beqItems_iff.mp hjk)
        fun i hi j k hij hjk => ih i hi hij hjk)
  | obj ms ih =>
      cases j <;> try cases hij
      cases k <;> try cases hjk
      exact beqMembers_iff.mpr (List.forall₂_of_forall₂ (beqMembers_iff.mp hij)
        (beqMembers_iff.mp hjk) fun m hm n o hmn hno =>
          ⟨hmn.1.trans hno.1, ih m hm hmn.2 hno.2⟩)

theorem stripItems_eq (names : List String) (js : List Json) :
    stripItems names js = js.map (strip names) := by
  induction js with
  | nil => rfl
  | cons j js ih => rw [stripItems, ih, List.map_cons]

/-- Where no key is to be left out, all members stay. -/
theorem stripMembers_of_notMem {names : List String} {ms : Members} (h : ∀ m ∈ ms, m.1 ∉ names) :
    stripMembers names ms = ms.map fun m => (m.1, m.2.strip names) := by
  induction ms with
  | nil => rfl
  | cons m ms ih =>
      obtain ⟨hm, hms⟩ := List.forall_mem_cons.mp h
      rw [stripMembers, if_neg hm, ih hms, List.map_cons]

/-! ## Equal without names -/

variable {names : List String}

/-- Without the names, wherever they occur, the documents are equal. -/
def EqualWithout (names : List String) (i j : Json) : Prop :=
  (i.strip names == j.strip names) = true

theorem EqualWithout.symm {i j : Json} (h : EqualWithout names i j) : EqualWithout names j i :=
  beq_symm h

theorem EqualWithout.trans {i j k : Json} (hij : EqualWithout names i j)
    (hjk : EqualWithout names j k) : EqualWithout names i k :=
  beq_trans hij hjk

theorem AlikeWithout.equal {i j : Json} (h : AlikeWithout names i j) : EqualWithout names i j := by
  rw [EqualWithout, h.1]
  exact h.2

theorem EqualWithout.null : EqualWithout names .null .null := rfl

theorem EqualWithout.float {x y : Float} (h : (x == y) = true) :
    EqualWithout names (.float x) (.float y) := h

theorem equalWithout_str_iff {s t : String} : EqualWithout names (.str s) (.str t) ↔ s = t := by
  show (s == t) = true ↔ s = t
  exact beq_iff_eq

theorem EqualWithout.eq_str {s : String} {j : Json} (h : EqualWithout names (.str s) j) :
    j = .str s := by
  cases j with
  | str t => rw [equalWithout_str_iff.mp h]
  | _ => cases h

theorem equalWithout_arr_iff {is js : List Json} :
    EqualWithout names (.arr is) (.arr js) ↔ List.Forall₂ (EqualWithout names) is js := by
  show beqItems (stripItems names is) (stripItems names js) = true ↔ _
  rw [stripItems_eq, stripItems_eq, beqItems_iff, List.forall₂_map_left_iff,
    List.forall₂_map_right_iff]
  rfl

theorem EqualWithout.exists_arr {is : List Json} {j : Json} (h : EqualWithout names (.arr is) j) :
    ∃ js, j = .arr js := by
  cases j <;> first | exact ⟨_, rfl⟩ | cases h

theorem EqualWithout.exists_obj {ms : Members} {j : Json} (h : EqualWithout names (.obj ms) j) :
    ∃ ns, j = .obj ns := by
  cases j <;> first | exact ⟨_, rfl⟩ | cases h

theorem EqualWithout.eq_null {j : Json} (h : EqualWithout names .null j) : j = .null := by
  cases j <;> first | rfl | cases h

theorem EqualWithout.arr {is js : List Json} (h : List.Forall₂ (EqualWithout names) is js) :
    EqualWithout names (.arr is) (.arr js) :=
  equalWithout_arr_iff.mpr h

theorem EqualWithout.obj {ms ns : Members}
    (h : List.Forall₂ (fun m n => m.1 = n.1 ∧ EqualWithout names m.2 n.2) ms ns) :
    EqualWithout names (.obj ms) (.obj ns) := by
  show beqMembers (stripMembers names ms) (stripMembers names ns) = true
  rw [beqMembers_iff]
  induction h with
  | nil => exact .nil
  | @cons m n ms ns hmn _ ih =>
      obtain ⟨k, i⟩ := m
      obtain ⟨l, j⟩ := n
      obtain ⟨rfl, hij⟩ : k = l ∧ EqualWithout names i j := hmn
      rw [stripMembers, stripMembers]
      split
      · exact ih
      · exact .cons ⟨rfl, hij⟩ ih

/-- Equal documents are equal without the names. -/
theorem EqualWithout.of_beq {i j : Json} (h : Json.beq i j = true) : EqualWithout names i j := by
  induction i using Json.nested generalizing j with
  | null | bool | int | float | str => cases j <;> exact h
  | arr is ih =>
      cases j <;> try cases h
      next js =>
        have hboth := (List.forall₂_and_left is js).mpr ⟨ih, beqItems_iff.mp h⟩
        exact .arr (hboth.imp fun i j hij => hij.1 hij.2)
  | obj ms ih =>
      cases j <;> try cases h
      next ns =>
        have hboth := (List.forall₂_and_left ms ns).mpr ⟨ih, beqMembers_iff.mp h⟩
        exact .obj (hboth.imp fun m n hmn => ⟨hmn.2.1, hmn.1 hmn.2.2⟩)

/-- Documents that are equal without some names are equal without more of them. -/
theorem EqualWithout.mono {inner : List String} (hinner : ∀ n ∈ inner, n ∈ names) {i j : Json}
    (h : EqualWithout inner i j) : EqualWithout names i j := by
  rw [EqualWithout, ← strip_strip hinner i, ← strip_strip hinner j]
  exact of_beq h

/-- Objects are equal member by member, if no key is to be left out. -/
theorem equalWithout_obj_iff {ms ns : Members} (hms : ∀ m ∈ ms, m.1 ∉ names)
    (hns : ∀ n ∈ ns, n.1 ∉ names) : EqualWithout names (.obj ms) (.obj ns) ↔
      List.Forall₂ (fun m n => m.1 = n.1 ∧ EqualWithout names m.2 n.2) ms ns := by
  show beqMembers (stripMembers names ms) (stripMembers names ns) = true ↔ _
  rw [stripMembers_of_notMem hms, stripMembers_of_notMem hns, beqMembers_iff,
    List.forall₂_map_left_iff, List.forall₂_map_right_iff]
  rfl

/-- Primitives that differ in their markers only, and in their data as far as the names go. -/
theorem EqualWithout.toJson (h : Primitive.changesKey ∈ names) {p q : Primitive}
    (hspace : p.space = q.space) (hname : p.name = q.name) (hversion : p.version = q.version)
    (hdata : EqualWithout names (.obj p.data) (.obj q.data)) :
    EqualWithout names p.toJson q.toJson := by
  rw [EqualWithout, strip_toJson h p, strip_toJson h q, ← EqualWithout]
  exact .obj (.cons ⟨rfl, hdata⟩ (.cons ⟨rfl, equalWithout_str_iff.mpr hname⟩
    (.cons ⟨rfl, equalWithout_str_iff.mpr hspace⟩
      (.cons ⟨rfl, equalWithout_str_iff.mpr hversion⟩ .nil))))

theorem notMem_of_mem_unmarkedMembers (p : Primitive) :
    ∀ m ∈ p.unmarkedMembers, m.1 ∉ [Primitive.changesKey] := by
  simp only [Primitive.unmarkedMembers, List.forall_mem_cons]
  decide

/-- An object without markers is equal to a primitive if it is, member by member. -/
theorem equalWithout_obj_toJson_iff {ms : Members} {p : Primitive}
    (hms : ∀ m ∈ ms, m.1 ∉ [Primitive.changesKey]) :
    EqualWithout [Primitive.changesKey] (.obj ms) p.toJson ↔
      List.Forall₂ (fun m n => m.1 = n.1 ∧ EqualWithout [Primitive.changesKey] m.2 n.2) ms
        p.unmarkedMembers := by
  rw [EqualWithout, strip_toJson List.mem_cons_self p, ← EqualWithout,
    equalWithout_obj_iff hms (notMem_of_mem_unmarkedMembers p)]

/-- Apart from the markers, primitives are equal in what else they consist of. -/
theorem equalWithout_toJson_iff {p q : Primitive} :
    EqualWithout [Primitive.changesKey] p.toJson q.toJson ↔
      EqualWithout [Primitive.changesKey] (.obj p.data) (.obj q.data) ∧ p.name = q.name ∧
        p.space = q.space ∧ p.version = q.version := by
  rw [EqualWithout, strip_toJson List.mem_cons_self p, ← EqualWithout,
    equalWithout_obj_toJson_iff (notMem_of_mem_unmarkedMembers p)]
  simp only [Primitive.unmarkedMembers, List.forall₂_cons, List.forall₂_nil_left_iff,
    equalWithout_str_iff, true_and, and_true]

end Json

end Skew

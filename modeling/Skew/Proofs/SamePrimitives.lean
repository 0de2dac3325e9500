import Skew.Proofs.Retouching
import Skew.Proofs.Sending
import Skew.Proofs.WrittenForms

/-!
# Equal primitives

Primitives are compared after the names of the markers have been stripped from the documents,
wherever they stand, be it in an envelope or in data. `Entity.Agrees` is the comparison of the
entities themselves that this amounts to: of types by name, of versions by text, and of the set
fields by what goes over the wire, entities in them compared in the same way.

The two comparisons are the same (`Entity.equalPrimitives_iff_agrees`) where nothing in data is
called like the markers, neither a field nor a key of a map, and no codec writes. A kind without
codecs cannot make a map that passes for the primitive of an entity: it would have to write both
a text and an object.

Together with what retouching leaves alone, and with the comparison being an equivalence, this is
`Entity.equalPrimitives_laws`.
-/

namespace Skew

mutual

/-- Values that go over the wire as the same, each written by its kind. -/
inductive Value.SameWire : Value → Kind → Value → Kind → Prop
  | null {k l : Kind} : Value.SameWire .null k .null l
  | scalar {v w : Value} {k l : Kind} {i j : Json} (hv : v.writeScalar? k.bare = some i)
      (hw : w.writeScalar? l.bare = some j) (h : (i == j) = true) : Value.SameWire v k w l
  | items {v w : Value} {vs ws : List Value} {k l k' l' : Kind} (hk : k.bare.element? = some k')
      (hl : l.bare.element? = some l') (hv : v.items? = some vs) (hw : w.items? = some ws)
      (hlength : vs.length = ws.length) (h : ∀ p ∈ vs.zip ws, Value.SameWire p.1 k' p.2 l') :
      Value.SameWire v k w l
  | entries {es ds : List (String × Value)} {k l k' l' : Kind} (hk : k.bare = .dict k')
      (hl : l.bare = .dict l') (hkeys : es.map (·.1) = ds.map (·.1))
      (h : ∀ p ∈ es.zip ds, Value.SameWire p.1.2 k' p.2.2 l') :
      Value.SameWire (.map es) k (.map ds) l
  | entity {a b : Entity} {k l : Kind} {type type' : String} (hk : k.bare = .object type)
      (hl : l.bare = .object type') (h : Entity.Agrees a b) :
      Value.SameWire (.entity a) k (.entity b) l

/-- Entities of one type name and one version text that have the same fields set, each going
over the wire as the same. -/
inductive Entity.Agrees : Entity → Entity → Prop
  | intro {a b : Entity} (name : a.typeName = b.typeName)
      (version : a.version.text = b.version.text) (set : ∀ n, n ∈ a.setFields ↔ n ∈ b.setFields)
      (fields : ∀ n f g v w, a.schema.field? n = some f → Record.get? a.values n = some v →
        b.schema.field? n = some g → Record.get? b.values n = some w →
        Value.SameWire v f.kind w g.kind) : Entity.Agrees a b

end

namespace Value.SameWire

variable {v w : Value} {k l k' l' : Kind}

theorem eq_null (h : SameWire .null k w l) : w = .null := by
  cases h with
  | null => rfl
  | scalar hv => cases hv
  | items _ _ hv => cases hv

theorem exists_scalar (h : v.SameWire k w l) {i : Json} (hv : v.writeScalar? k.bare = some i) :
    ∃ j, w.writeScalar? l.bare = some j ∧ (i == j) = true := by
  cases h with
  | scalar hv' hw h =>
      cases hv.symm.trans hv'
      exact ⟨_, hw, h⟩
  | items _ _ hitems =>
      rw [writeScalar?_of_items hitems] at hv
      cases hv
  | _ => cases hv

theorem exists_items (h : v.SameWire k w l) {vs : List Value} (hv : v.items? = some vs) :
    ∃ ws, w.items? = some ws := by
  cases h with
  | items _ _ _ hw => exact ⟨_, hw⟩
  | scalar h =>
      rw [writeScalar?_of_items hv] at h
      cases h
  | _ => cases hv

theorem exists_map {es : List (String × Value)} (h : SameWire (.map es) k w l) :
    ∃ ds, w = .map ds := by
  cases h with
  | entries => exact ⟨_, rfl⟩
  | scalar h => cases h
  | items _ _ hv => cases hv

theorem exists_entity {a : Entity} (h : SameWire (.entity a) k w l) : ∃ b, w = .entity b := by
  cases h with
  | entity => exact ⟨_, rfl⟩
  | scalar h => cases h
  | items _ _ hv => cases hv

theorem items_iff {vs ws : List Value} (hv : v.items? = some vs) (hw : w.items? = some ws)
    (hk : k.bare.element? = some k') (hl : l.bare.element? = some l') :
    v.SameWire k w l ↔ List.Forall₂ (fun x y => x.SameWire k' y l') vs ws := by
  rw [List.forall₂_iff_zip]
  constructor
  · intro h
    cases h with
    | items hk' hl' hv' hw' hlength h =>
        cases hv.symm.trans hv'
        cases hw.symm.trans hw'
        cases hk.symm.trans hk'
        cases hl.symm.trans hl'
        exact ⟨hlength, fun hp => h _ hp⟩
    | scalar h =>
        rw [writeScalar?_of_items hv] at h
        cases h
    | _ => cases hv
  · rintro ⟨hlength, h⟩
    exact .items hk hl hv hw hlength fun p hp => h hp

theorem entries_iff {es ds : List (String × Value)} (hk : k.bare = .dict k')
    (hl : l.bare = .dict l') : SameWire (.map es) k (.map ds) l ↔
      List.Forall₂ (fun p q => p.1 = q.1 ∧ p.2.SameWire k' q.2 l') es ds := by
  constructor
  · intro h
    cases h with
    | entries hk' hl' hkeys h =>
        cases hk.symm.trans hk'
        cases hl.symm.trans hl'
        have hfirst := List.map_eq_map_iff_forall₂.mp hkeys
        exact List.forall₂_iff_zip.mpr
          ⟨hfirst.length_eq, fun hp => ⟨List.forall₂_zip hfirst hp, h _ hp⟩⟩
    | scalar h => cases h
    | items _ _ hv => cases hv
  · intro h
    exact .entries hk hl (Record.names_eq_of_forall₂ h) fun p hp => (List.forall₂_zip h hp).2

theorem entity_iff {a b : Entity} {type type' : String} (hk : k.bare = .object type)
    (hl : l.bare = .object type') : SameWire (.entity a) k (.entity b) l ↔ a.Agrees b := by
  constructor
  · intro h
    cases h with
    | entity _ _ h => exact h
    | scalar h => cases h
    | items _ _ hv => cases hv
  · exact .entity hk hl

end Value.SameWire

theorem Json.EqualWithout.leaf {names : List String} {i j : Json} (h : EqualWithout names i j)
    (hi : i.Leaf) : j.Leaf ∧ (i == j) = true := by
  cases i <;> cases hi <;> cases j <;> first | exact ⟨trivial, h⟩ | cases h

/-! ## What cannot be taken for a primitive -/

section

variable [Codecs]

omit [Codecs] in
/-- The keys of what a map is written as are those of the map. -/
theorem Record.notMem_of_forall₂ {α β : Type} {R : String × α → String × β → Prop} {r : Record α}
    {s : Record β} (h : List.Forall₂ (fun p q => p.1 = q.1 ∧ R p q) r s) {k : String}
    (hk : k ∉ r.map (·.1)) : ∀ q ∈ s, q.1 ∉ [k] := by
  rw [names_eq_of_forall₂ h] at hk
  exact fun q hq hkey => hk (List.mem_singleton.mp hkey ▸ List.mem_map_of_mem hq)

/-- What a map is written as is not equal to the primitive of an entity. -/
theorem Value.not_equal_of_entries {es : List (String × Value)} {name : String} {k : Kind}
    {ms : Members} {p : Primitive} (hk : k.Plain) (hkeys : Primitive.changesKey ∉ es.map (·.1))
    (h : List.Forall₂ (fun e m => e.1 = m.1 ∧ e.2.write name k = .ok m.2) es ms) :
    ¬ Json.EqualWithout [Primitive.changesKey] (.obj ms) p.toJson := by
  intro hequal
  rw [Json.equalWithout_obj_toJson_iff (Record.notMem_of_forall₂ h hkeys),
    Primitive.unmarkedMembers] at hequal
  -- The first member would be the data, an object, and the second the name, a text.
  obtain _ | ⟨hdata, _ | ⟨hname, -⟩⟩ := hequal
  obtain _ | ⟨hfirst, _ | ⟨hsecond, -⟩⟩ := h
  obtain ⟨ns, hobj⟩ := hdata.2.symm.exists_obj
  have hstr := hname.2.symm.eq_str
  rw [hobj] at hfirst
  rw [hstr] at hsecond
  exact (wireForm_of_write hsecond.2).not_obj (wireForm_of_write hfirst.2) hk.bare

/-! ## The two comparisons -/

omit [Codecs] in
/-- The fields have names of their own, no codec is involved in them, and nothing in their data is
called like the markers. -/
structure Entity.Unambiguous (d : Entity) : Prop where
  fields : d.schema.fieldNames.Nodup
  plain : d.schema.Plain
  noField : Primitive.changesKey ∉ d.schema.fieldNames
  noKey : ∀ p ∈ d.values, Primitive.changesKey ∉ p.2.keys

/-- Nothing in the data of an unambiguous entity is called like the markers. -/
theorem Entity.Unambiguous.notMem_data {d : Entity} (h : d.Unambiguous) {data : Members}
    (hdata : d.data = .ok data) : ∀ m ∈ data, m.1 ∉ [Primitive.changesKey] := by
  obtain ⟨-, hdeclared, -⟩ := (Entity.data_eq_ok_iff h.fields).mp hdata
  intro m hm hkey
  rw [List.mem_singleton] at hkey
  exact h.noField (hkey ▸ hdeclared m.1 (List.mem_map_of_mem hm))

omit [Codecs] in
/-- No key of a map is called like the markers, and the entities in the value are unambiguous. -/
structure Value.Unambiguous (v : Value) : Prop where
  noKey : Primitive.changesKey ∉ v.keys
  graph : ∀ d ∈ v.graph, d.Unambiguous

namespace Value.Unambiguous

omit [Codecs]

theorem of_items {v : Value} (h : v.Unambiguous) {vs : List Value} (hv : v.items? = some vs) :
    ∀ w ∈ vs, w.Unambiguous := by
  intro w hw
  cases v <;> cases hv
  all_goals
    exact ⟨notMem_keys_of_items h.noKey w hw, forall_graph_items h.graph w hw⟩

theorem of_entries {es : List (String × Value)} (h : (Value.map es).Unambiguous) :
    ∀ p ∈ es, p.2.Unambiguous :=
  fun p hp => ⟨(notMem_keys_of_entries h.noKey).2 p hp, forall_graph_entries h.graph p hp⟩

theorem of_values {e : Entity} (h : (Value.entity e).Unambiguous) :
    ∀ p ∈ e.values, p.2.Unambiguous :=
  fun p hp => ⟨(h.graph e e.self_mem_graph).noKey p hp, Entity.forall_graph_values h.graph p hp⟩

end Value.Unambiguous

/-- Comparing what the value is written as with what another is written as, markers aside, is
comparing what goes over the wire. -/
structure Value.Compared (v : Value) : Prop where
  iff : ∀ {w : Value} {m n : String} {k l : Kind} {i j : Json}, v.Unambiguous → w.Unambiguous →
    k.Plain → l.Plain → v.write m k = .ok i → w.write n l = .ok j →
    (Json.EqualWithout [Primitive.changesKey] i j ↔ v.SameWire k w l)

namespace Value.Compared

theorem null : (Value.null).Compared := by
  refine ⟨fun {w m n k l i j} _ _ _ hl hi hj => ?_⟩
  cases hi
  constructor
  · intro h
    cases h.eq_null
    rw [(wireForm_of_write hj).eq_null hl.bare.ne_custom]
    exact .null
  · intro h
    cases h.eq_null
    cases hj
    exact .null

theorem of_scalar {v : Value}
    (hscalar : ∀ name k j, k.Plain → v.WireForm name k j → v.writeScalar? k = some j) :
    v.Compared := by
  refine ⟨fun {w m n k l i j} _ _ hk hl hi hj => ?_⟩
  have hv := hscalar m k.bare i hk.bare (wireForm_of_write hi)
  constructor
  · intro h
    obtain ⟨hleaf, hequal⟩ := h.leaf (leaf_of_writeScalar? hv)
    exact .scalar hv ((wireForm_of_write hj).of_leaf hl.bare hleaf) hequal
  · intro h
    obtain ⟨j', hw, hequal⟩ := h.exists_scalar hv
    cases (wireForm_of_write hj).of_scalar hl.bare hw
    exact .of_beq hequal

theorem of_items {v : Value} {vs : List Value} (hitems : v.items? = some vs)
    (ih : ∀ x ∈ vs, x.Compared) : v.Compared := by
  refine ⟨fun {w m n k l i j} hv hw hk hl hi hj => ?_⟩
  obtain ⟨k', is, hk', rfl, his⟩ := (wireForm_of_write hi).of_items hk.bare.ne_custom hitems
  have hform := wireForm_of_write hj
  by_cases hw' : ∃ ws, w.items? = some ws
  · obtain ⟨ws, hws⟩ := hw'
    obtain ⟨l', js, hl', rfl, hjs⟩ := hform.of_items hl.bare.ne_custom hws
    rw [Json.equalWithout_arr_iff, SameWire.items_iff hitems hws hk' hl']
    exact List.forall₂_congr_forall₂ his hjs fun x hx y hy i j hi hj =>
      (ih x hx).iff (hv.of_items hitems x hx) (hw.of_items hws y hy) (hk.bare.element hk')
        (hl.bare.element hl') hi hj
  · refine iff_of_false (fun h => hw' ?_) fun h => hw' (h.exists_items hitems)
    obtain ⟨js, rfl⟩ := h.exists_arr
    exact hform.exists_items hl.bare

theorem of_entries {es : List (String × Value)} (ih : ∀ p ∈ es, p.2.Compared) :
    (Value.map es).Compared := by
  refine ⟨fun {w m n k l i j} hv hw hk hl hi hj => ?_⟩
  obtain ⟨k', ms, hk', rfl, hms⟩ := (wireForm_of_write hi).of_map hk.bare.ne_custom
  have hform := wireForm_of_write hj
  have hplain : k'.Plain := show (Kind.dict k').Plain from hk' ▸ hk.bare
  have hkeys := (notMem_keys_of_entries hv.noKey).1
  by_cases hw' : ∃ ds, w = .map ds
  · obtain ⟨ds, rfl⟩ := hw'
    obtain ⟨l', ns, hl', rfl, hns⟩ := hform.of_map hl.bare.ne_custom
    have hplain' : l'.Plain := show (Kind.dict l').Plain from hl' ▸ hl.bare
    have hkeys' := (notMem_keys_of_entries hw.noKey).1
    rw [Json.equalWithout_obj_iff (Record.notMem_of_forall₂ hms hkeys)
      (Record.notMem_of_forall₂ hns hkeys'), SameWire.entries_iff hk' hl']
    refine List.forall₂_congr_forall₂ hms hns fun p hp q hq m n hpm hqn => ?_
    rw [hpm.1, hqn.1]
    exact and_congr_right fun _ => (ih p hp).iff (hv.of_entries p hp) (hw.of_entries q hq) hplain
      hplain' hpm.2 hqn.2
  · refine iff_of_false (fun h => hw' ?_) fun h => hw' h.exists_map
    obtain ⟨ns, rfl⟩ := h.exists_obj
    rcases hform.of_obj hl.bare with hmap | ⟨e, rfl⟩
    · exact hmap
    · obtain ⟨_, p, -, hp, -⟩ := hform.of_entity hl.bare.ne_custom
      exact absurd (hp ▸ h) (not_equal_of_entries hplain hkeys hms)

/-- The primitives of entities are equal, markers aside, if the entities agree. -/
theorem equalWithout_toJson_iff_agrees {e d : Entity} (ih : ∀ p ∈ e.values, p.2.Compared)
    (he : (Value.entity e).Unambiguous) (hd : (Value.entity d).Unambiguous) {p q : Primitive}
    (hp : e.write = .ok p) (hq : d.write = .ok q) :
    Json.EqualWithout [Primitive.changesKey] p.toJson q.toJson ↔ e.Agrees d := by
  have hself := he.graph e e.self_mem_graph
  have hother := hd.graph d d.self_mem_graph
  rw [Entity.write_eq] at hp hq
  obtain ⟨data, hdata, rfl⟩ := Except.map_eq_ok_iff.mp hp
  obtain ⟨data', hdata', rfl⟩ := Except.map_eq_ok_iff.mp hq
  have hasc := ((Entity.data_eq_ok_iff hself.fields).mp hdata).1
  have hasc' := ((Entity.data_eq_ok_iff hother.fields).mp hdata').1
  rw [Json.equalWithout_toJson_iff]
  show Json.EqualWithout _ (.obj data) (.obj data') ∧ e.typeName = d.typeName ∧ _ = _ ∧
    e.version.text = d.version.text ↔ _
  rw [Json.equalWithout_obj_iff (hself.notMem_data hdata) (hother.notMem_data hdata'),
    Record.forall₂_iff_get? hasc hasc']
  simp only [Entity.mem_data_names hself.fields hdata, Entity.mem_data_names hother.fields hdata']
  have hvalue {n : String} {f g : Field} {v w : Value} {i j : Json}
      (hf : e.schema.field? n = some f) (hv : Record.get? e.values n = some v)
      (hi : v.write n f.kind = .ok i) (hg : d.schema.field? n = some g)
      (hw : Record.get? d.values n = some w) (hj : w.write n g.kind = .ok j) :
      Json.EqualWithout [Primitive.changesKey] i j ↔ v.SameWire f.kind w g.kind :=
    (ih _ (Record.mem_of_get? hv)).iff (he.of_values _ (Record.mem_of_get? hv))
      (hd.of_values _ (Record.mem_of_get? hw)) (hself.plain _ (Record.mem_of_get? hf))
      (hother.plain _ (Record.mem_of_get? hg)) hi hj
  constructor
  · rintro ⟨⟨hset, hsame⟩, hname, -, hversion⟩
    refine .intro hname hversion hset fun n f g v w hf hv hg hw => ?_
    obtain ⟨i, hi, hwrite⟩ := Entity.exists_get?_data hself.fields hdata hf hv
    obtain ⟨j, hj, hwrite'⟩ := Entity.exists_get?_data hother.fields hdata' hg hw
    exact (hvalue hf hv hwrite hg hw hwrite').mp (hsame n i j hi hj)
  · rintro ⟨hname, hversion, hset, hsame⟩
    refine ⟨⟨hset, fun n i j hi hj => ?_⟩, hname, rfl, hversion⟩
    obtain ⟨f, v, hf, hv, hwrite⟩ := Entity.exists_of_get?_data hself.fields hdata hi
    obtain ⟨g, w, hg, hw, hwrite'⟩ := Entity.exists_of_get?_data hother.fields hdata' hj
    exact (hvalue hf hv hwrite hg hw hwrite').mpr (hsame n f g v w hf hv hg hw)

theorem of_entity {e : Entity} (ih : ∀ p ∈ e.values, p.2.Compared) :
    (Value.entity e).Compared := by
  refine ⟨fun {w m n k l i j} hv hw hk hl hi hj => ?_⟩
  obtain ⟨type, p, hk', rfl, hp⟩ := (wireForm_of_write hi).of_entity hk.bare.ne_custom
  have hform := wireForm_of_write hj
  by_cases hw' : ∃ d, w = .entity d
  · obtain ⟨d, rfl⟩ := hw'
    obtain ⟨type', q, hl', rfl, hq⟩ := hform.of_entity hl.bare.ne_custom
    rw [SameWire.entity_iff hk' hl']
    exact equalWithout_toJson_iff_agrees ih hv hw hp hq
  · refine iff_of_false (fun h => hw' ?_) fun h => hw' h.exists_entity
    rw [Primitive.toJson_eq] at h
    obtain ⟨ns, rfl⟩ := h.exists_obj
    rcases hform.of_obj hl.bare with ⟨es, rfl⟩ | hentity
    · obtain ⟨l', ns', hl', hns', hns⟩ := hform.of_map hl.bare.ne_custom
      have hplain : l'.Plain := show (Kind.dict l').Plain from hl' ▸ hl.bare
      cases hns'
      rw [← Primitive.toJson_eq] at h
      exact absurd h.symm (not_equal_of_entries hplain (notMem_keys_of_entries hw.noKey).1 hns)
    · exact hentity

end Value.Compared

theorem Value.compared (v : Value) : v.Compared := by
  induction v using Value.nested with
  | null => exact .null
  | bool | int | float | str | datetime =>
      refine .of_scalar fun name k j hk h => ?_
      cases h with
      | custom => cases hk
      | scalar h => exact h
      | items _ hv => cases hv
  | list vs ih | tuple vs ih | set vs ih => exact .of_items rfl ih
  | map es ih => exact .of_entries ih
  | entity e ih => exact .of_entity ih

namespace Entity

variable {a b : Entity}

/-- Primitives can be compared exactly where both entities can be written. -/
theorem equalPrimitives_answers_iff {ignore : List String} :
    (∃ r, a.equalPrimitives b ignore = .ok r) ↔
      (∃ p, a.write = .ok p) ∧ ∃ q, b.write = .ok q := by
  constructor
  · rintro ⟨r, h⟩
    obtain ⟨p, hp, h⟩ := Except.bind_eq_ok_iff.mp h
    obtain ⟨q, hq, -⟩ := Except.bind_eq_ok_iff.mp h
    exact ⟨⟨p, hp⟩, q, hq⟩
  · rintro ⟨⟨p, hp⟩, q, hq⟩
    rw [equalPrimitives, hp, hq]
    exact ⟨_, rfl⟩

/-- The primitives of an entity that can be written are equal to themselves. -/
theorem equalPrimitives_refl (hkinds : ∀ d ∈ a.graph, d.schema.Determinate) {p : Primitive}
    (hp : a.write = .ok p) (ignore : List String) : a.equalPrimitives a ignore = .ok true :=
  equalPrimitives_eq_true_iff.mpr ⟨p, p, hp, hp, write_determinate List.mem_cons_self hkinds hp⟩

/-- Primitives are equal if the entities agree. -/
theorem equalPrimitives_iff_agrees (ha : ∀ d ∈ a.graph, d.Unambiguous)
    (hb : ∀ d ∈ b.graph, d.Unambiguous) {p q : Primitive} (hp : a.write = .ok p)
    (hq : b.write = .ok q) : a.equalPrimitives b [] = .ok true ↔ a.Agrees b := by
  have hcompared := Value.Compared.equalWithout_toJson_iff_agrees
    (fun x _ => x.2.compared) ⟨List.not_mem_nil, ha⟩ ⟨List.not_mem_nil, hb⟩ hp hq
  rw [equalPrimitives_eq_true_iff, ← hcompared]
  constructor
  · rintro ⟨p', q', hp', hq', h⟩
    cases hp.symm.trans hp'
    cases hq.symm.trans hq'
    exact h
  · exact fun h => ⟨p, q, hp, hq, h⟩

/-- **Equal primitives.** The comparison answers for all entities that can be written, and does
not see resets and assignments of equal values, made on either entity or on entities nested in
it. That primitives are equal is an equivalence. Where no codec is involved and nothing in data
is called like the markers, it says that the entities agree. -/
theorem equalPrimitives_laws (ignore : List String) :
    (∀ a b : Entity, (∃ r, a.equalPrimitives b ignore = .ok r) ↔
      (∃ p, a.write = .ok p) ∧ ∃ q, b.write = .ok q) ∧
    (∀ a a' b b' : Entity, (∀ d ∈ a.graph, d.schema.Evenhanded) →
      (∀ d ∈ b.graph, d.schema.Evenhanded) → a.Retouched a' → b.Retouched b' →
        a'.equalPrimitives b' ignore = a.equalPrimitives b ignore) ∧
    (∀ a : Entity, (∀ d ∈ a.graph, d.schema.Determinate) → (∃ p, a.write = .ok p) →
      a.equalPrimitives a ignore = .ok true) ∧
    (∀ a b : Entity, a.equalPrimitives b ignore = .ok true →
      b.equalPrimitives a ignore = .ok true) ∧
    (∀ a b c : Entity, a.equalPrimitives b ignore = .ok true →
      b.equalPrimitives c ignore = .ok true → a.equalPrimitives c ignore = .ok true) ∧
    (∀ a b : Entity, (∀ d ∈ a.graph, d.Unambiguous) → (∀ d ∈ b.graph, d.Unambiguous) →
      (∃ p, a.write = .ok p) → (∃ q, b.write = .ok q) →
        (a.equalPrimitives b [] = .ok true ↔ a.Agrees b)) := by
  refine ⟨fun _ _ => equalPrimitives_answers_iff,
    fun _ _ _ _ ha hb hretouchA hretouchB => equalPrimitives_retouched ha hb hretouchA hretouchB,
    fun _ ha hp => ?_, fun _ _ => equalPrimitives_symm, fun _ _ _ => equalPrimitives_trans,
    fun _ _ ha hb hp hq => ?_⟩
  · obtain ⟨p, hp⟩ := hp
    exact equalPrimitives_refl ha hp ignore
  · obtain ⟨p, hp⟩ := hp
    obtain ⟨q, hq⟩ := hq
    exact equalPrimitives_iff_agrees ha hb hp hq

end Entity

end

/-! ## A voyage

A voyage has stops, whose type comes in two versions, and a roster of its crew. In its log a field
is called like the markers. -/

namespace Voyage

def stopSchema (version : Version) : Schema :=
  ⟨"Stop", version, [("port", ⟨.string, false, none⟩)], [], [], none⟩

def stop (version : Version) (changed : NameSet) : Entity :=
  ⟨stopSchema version, version, none, [("port", .str "Ostend")], changed⟩

def stops (version : Version) (changed : NameSet) : Value :=
  .map [("first", .entity (stop version changed))]

def schema (kind : Kind) : Schema :=
  ⟨"Voyage", ⟨1, 0, none⟩, [("stops", ⟨kind, false, none⟩)], [], [], none⟩

def voyage (changed inner : NameSet) : Entity :=
  ⟨schema (.dict (.object "Stop")), ⟨1, 0, none⟩, none,
    [("stops", stops ⟨1, 0, none⟩ inner)], changed⟩

section

attribute [local instance] Codecs.none

theorem voyage_unambiguous (changed inner : NameSet) :
    ∀ d ∈ (voyage changed inner).graph, d.Unambiguous := by
  refine List.forall_mem_cons.mpr ⟨⟨?_, ?_, ?_, ?_⟩, List.forall_mem_cons.mpr
    ⟨⟨?_, ?_, ?_, ?_⟩, nofun⟩⟩
  all_goals
    simp [Schema.Plain, Kind.Plain, schema, stops, stop, stopSchema, Schema.fieldNames, Value.keys,
      Value.entryKeys, Primitive.changesKey]

theorem voyage_evenhanded (changed inner : NameSet) :
    ∀ d ∈ (voyage changed inner).graph, d.schema.Evenhanded :=
  fun d hd p hp => ((voyage_unambiguous changed inner d hd).plain p hp).evenhanded

theorem voyage_determinate (changed inner : NameSet) :
    ∀ d ∈ (voyage changed inner).graph, d.schema.Determinate :=
  fun d hd p hp => ((voyage_unambiguous changed inner d hd).plain p hp).determinate

/-- The stops are assigned again, and then the stop in them is reset. -/
theorem voyage_retouched : (voyage [] ["port"]).Retouched (voyage ["stops"] []) := by
  have hassign : Value.Retouch (.entity (voyage [] ["port"]))
      (.entity (voyage ["stops"] ["port"])) :=
    .assign (n := "stops") (v := stops ⟨1, 0, none⟩ ["port"]) (u := stops ⟨1, 0, none⟩ ["port"])
      (by decide) rfl rfl rfl rfl (List.forall₂_same.mpr fun d _ => ⟨rfl, rfl⟩) rfl
  have hreset : Value.Retouch (stops ⟨1, 0, none⟩ ["port"]) (stops ⟨1, 0, none⟩ []) :=
    @Value.Retouch.map _ [] [] "first" _ _ (.reset (stop ⟨1, 0, none⟩ ["port"]) none false)
  exact .tail (.single hassign) (@Value.Retouch.field _ _ [] [] "stops" _ _ rfl hreset)

theorem voyages_agree : (voyage [] ["port"]).Retouched (voyage ["stops"] []) ∧
    (∀ d ∈ (voyage [] ["port"]).graph, d.schema.Evenhanded ∧ d.schema.Determinate ∧
      d.Unambiguous) ∧
    (voyage ["stops"] []).equalPrimitives (voyage ["stops"] []) [] = .ok true ∧
    (voyage [] ["port"]).Agrees (voyage ["stops"] []) := by
  obtain ⟨-, hretouched, hrefl, hsymm, htrans, hagrees⟩ := Entity.equalPrimitives_laws []
  have hself := hrefl _ (voyage_determinate [] ["port"]) ⟨_, rfl⟩
  have hsame := (hretouched _ _ _ _ (voyage_evenhanded [] ["port"]) (voyage_evenhanded [] ["port"])
    voyage_retouched .refl).trans hself
  have hback := hsymm _ _ hsame
  refine ⟨voyage_retouched, fun d hd => ⟨voyage_evenhanded _ _ d hd, voyage_determinate _ _ d hd,
    voyage_unambiguous _ _ d hd⟩, htrans _ _ _ hsame hback, ?_⟩
  exact (hagrees _ _ (voyage_unambiguous [] ["port"]) (voyage_unambiguous ["stops"] []) ⟨_, rfl⟩
    ⟨_, rfl⟩).mp hback

/-- The stops of another version are equal to those that they replace, but it shows. -/
def VersionShows : Prop :=
  (stops ⟨1, 0, none⟩ [] == stops ⟨1, 0, some 2⟩ []) = true ∧
    ∃ e, (voyage [] []).set "stops" (stops ⟨1, 0, some 2⟩ []) = .ok e ∧
      (voyage [] []).equalPrimitives (voyage [] []) [] = .ok true ∧
      e.equalPrimitives (voyage [] []) [] = .ok false

def crew : Value := .list [.str "ada", .str "ada"]

def roster : Entity :=
  ⟨⟨"Roster", ⟨1, 0, none⟩, [("crew", ⟨.set .string, false, none⟩)], [], [], none⟩, ⟨1, 0, none⟩,
    none, [("crew", crew)], []⟩

/-- A list in a field for sets, put there uncoerced, loses what is repeated in it when it is
assigned again. -/
def CoercionShows : Prop :=
  roster.equalPrimitives roster [] = .ok true ∧
    ∃ e, roster.set "crew" crew = .ok e ∧ e.equalPrimitives roster [] = .ok false

def logSchema : Schema :=
  ⟨"Log", ⟨1, 0, none⟩, [(Primitive.changesKey, ⟨.string, false, none⟩)], [], [], none⟩

def log (entry : String) : Entity :=
  ⟨logSchema, ⟨1, 0, none⟩, none, [(Primitive.changesKey, .str entry)], []⟩

/-- Logs with different entries have equal primitives. -/
def EntryHidden : Prop :=
  (log "calm").equalPrimitives (log "gale") [] = .ok true ∧ ¬ (log "calm").Agrees (log "gale")

theorem entry_hidden : EntryHidden := by
  refine ⟨rfl, fun h => ?_⟩
  obtain ⟨-, -, -, hfields⟩ := h
  have hentry := hfields Primitive.changesKey _ _ _ _ rfl rfl rfl rfl
  obtain ⟨j, hj, hequal⟩ := hentry.exists_scalar rfl
  cases hj
  cases hequal

end

section

attribute [local instance] Codecs.sealing

def sealedVoyage : Entity :=
  ⟨schema (.custom "sealed"), ⟨1, 0, none⟩, none,
    [("stops", .list [.entity (stop ⟨1, 0, none⟩ ["port"])])], []⟩

/-- A reset shows in what the codec writes. -/
def ResetShows : Prop :=
  sealedVoyage.equalPrimitives sealedVoyage [] = .ok true ∧
    (sealedVoyage.resetChanges none true).equalPrimitives sealedVoyage [] = .ok false

end

/-- Not all that is touched stays the same, and not all that differs is seen. -/
theorem primitives_differ : VersionShows ∧ CoercionShows ∧ ResetShows ∧ EntryHidden :=
  ⟨⟨rfl, _, rfl, rfl, rfl⟩, ⟨rfl, _, rfl, rfl⟩, ⟨rfl, rfl⟩, entry_hidden⟩

end Voyage

end Skew

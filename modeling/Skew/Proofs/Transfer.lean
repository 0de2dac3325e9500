import Skew.Endpoint
import Skew.Proofs.Origins

/-!
# Values without a field

Arguments, results and updates travel on their own: the document of such a value is
read by its shape, with no kind to say what it was. Some values come back from that as
they are (`Value.Portable.comes_back`). The value of a field need not, but what comes
back in its place is coerced by the field to what the kind itself would have read
(`Kind.Stores.deserializes`), and so to the value that was sent (`Field.decodes`).
-/

namespace Skew

/-! ## Keys -/

mutual

/-- The keys of the maps in a value; entities are not opened. -/
def Value.keys : Value → List String
  | .list vs => Value.itemKeys vs
  | .tuple vs => Value.itemKeys vs
  | .set vs => Value.itemKeys vs
  | .map es => Value.entryKeys es
  | _ => []

def Value.itemKeys : List Value → List String
  | [] => []
  | v :: vs => v.keys ++ Value.itemKeys vs

def Value.entryKeys : List (String × Value) → List String
  | [] => []
  | (n, v) :: es => n :: (v.keys ++ Value.entryKeys es)

end

theorem Value.itemKeys_eq (vs : List Value) : Value.itemKeys vs = vs.flatMap Value.keys := by
  induction vs with
  | nil => rfl
  | cons v vs ih => rw [itemKeys, ih, List.flatMap_cons]

theorem Value.entryKeys_eq (es : List (String × Value)) :
    Value.entryKeys es = es.flatMap fun e => e.1 :: e.2.keys := by
  induction es with
  | nil => rfl
  | cons e es ih => rw [entryKeys, ih, List.flatMap_cons, List.cons_append]

theorem Value.keys_received (c? : Option Context) (v : Value) :
    (v.received c?).keys = v.keys := by
  induction v using Value.nested with
  | null | bool | int | float | str | datetime | entity => rfl
  | list vs ih | tuple vs ih | set vs ih =>
      simp only [received, receivedItems_eq, keys, itemKeys_eq, List.flatMap_map]
      exact List.flatMap_congr ih
  | map es ih =>
      simp only [received, receivedEntries_eq, keys, entryKeys_eq, List.flatMap_map]
      exact List.flatMap_congr fun e he => congrArg _ (ih e he)

theorem Value.notMem_keys_of_items {vs : List Value} {n : String} (h : n ∉ Value.itemKeys vs) :
    ∀ v ∈ vs, n ∉ v.keys :=
  fun v hv hn => h (itemKeys_eq vs ▸ List.mem_flatMap.mpr ⟨v, hv, hn⟩)

theorem Value.notMem_keys_of_entries {es : List (String × Value)} {n : String}
    (h : n ∉ Value.entryKeys es) : n ∉ es.map (·.1) ∧ ∀ e ∈ es, n ∉ e.2.keys := by
  rw [entryKeys_eq, List.mem_flatMap] at h
  refine ⟨fun hn => ?_, fun e he hn => h ⟨e, he, List.mem_cons_of_mem _ hn⟩⟩
  obtain ⟨e, he, rfl⟩ := List.mem_map.mp hn
  exact h ⟨e, he, List.mem_cons_self⟩

/-! ## Sending and receiving -/

section

variable [Codecs]

theorem Value.serializeItems_eq (vs : List Value) :
    Value.serializeItems vs = vs.mapM Value.serialize := by
  induction vs with
  | nil => rfl
  | cons v vs ih => rw [serializeItems, ih, List.mapM_cons]; rfl

theorem Value.serializeEntries_eq (es : List (String × Value)) :
    Value.serializeEntries es = mapEntriesM Value.serialize es := by
  induction es with
  | nil => rfl
  | cons e es ih =>
      rw [serializeEntries, ih, mapEntriesM, mapEntriesM, List.mapM_cons]
      cases e.2.serialize <;> rfl

namespace Endpoint

variable {σ : Type} (n : Endpoint σ) {c? : Option Context}

/-- The document of a primitive that can be read is the entity read from it. -/
theorem deserialize_toJson {p : Primitive} {e : Entity}
    (h : Entity.ofPrimitive n.registry c? p = .ok e) :
    n.deserialize c? p.toJson = pure (.entity e) := by
  rw [Primitive.toJson_eq, deserialize, if_pos p.contains_members_name, p.ofMembers_members]
  show (n.processObject c? p >>= fun e => pure (Value.entity e)) = _
  rw [processObject, attempt, h, pure_bind]

theorem deserializeItems_eq {js : List Json} {ws : List Value}
    (h : List.Forall₂ (fun j w => n.deserialize c? j = pure w) js ws) :
    n.deserializeItems c? js = pure ws := by
  induction h with
  | nil => rfl
  | cons hj _ ih => rw [deserializeItems, hj, pure_bind, ih, pure_bind]

theorem deserializeMembers_eq {ms : Members} {es : List (String × Value)}
    (h : List.Forall₂ (fun m e => m.1 = e.1 ∧ n.deserialize c? m.2 = pure e.2) ms es) :
    n.deserializeMembers c? ms = pure es := by
  induction h with
  | nil => rfl
  | @cons m e ms es hm _ ih =>
      obtain ⟨k, j⟩ := m
      obtain ⟨l, w⟩ := e
      obtain ⟨rfl, hj⟩ := hm
      rw [deserializeMembers, hj, pure_bind, ih, pure_bind]

/-- A document without a type name is a map. -/
theorem deserialize_obj {ms : Members} {es : List (String × Value)}
    (hname : Primitive.nameKey ∉ es.map (·.1))
    (h : List.Forall₂ (fun m e => m.1 = e.1 ∧ n.deserialize c? m.2 = pure e.2) ms es) :
    n.deserialize c? (.obj ms) = pure (.map es) := by
  have hms : ¬ Record.contains ms Primitive.nameKey = true := fun hmem =>
    hname (Record.names_eq_of_forall₂ h ▸ Record.contains_iff_mem.mp hmem)
  rw [deserialize, if_neg hms, n.deserializeMembers_eq h, pure_bind]

/-- An array is read item by item. -/
theorem deserialize_arr {js : List Json} {ws : List Value}
    (h : List.Forall₂ (fun j w => n.deserialize c? j = pure w) js ws) :
    n.deserialize c? (.arr js) = pure (.list ws) := by
  rw [deserialize, n.deserializeItems_eq h, pure_bind]

end Endpoint

/-! ## Values that come back -/

/-- The values whose shape says all: no tuples, sets or instants, no map that could be
taken for an entity, and no entity that cannot be written. -/
inductive Value.Portable (registry : Registry) : Value → Prop
  | null : Portable registry .null
  | bool (b : Bool) : Portable registry (.bool b)
  | int (n : Int64) : Portable registry (.int n)
  | float {x : Float} (hx : x.isFinite = true) : Portable registry (.float x)
  | str (s : String) : Portable registry (.str s)
  | list {vs : List Value} (hvs : ∀ v ∈ vs, Portable registry v) : Portable registry (.list vs)
  | map {es : List (String × Value)} (hname : Primitive.nameKey ∉ es.map (·.1))
      (hes : ∀ e ∈ es, Portable registry e.2) : Portable registry (.map es)
  | entity {e : Entity} (he : ∀ d ∈ e.graph, d.Writable registry) : Portable registry (.entity e)

theorem Value.Portable.of_received {registry : Registry} {c? : Option Context} {v : Value}
    (h : (v.received c?).Portable registry) : v.Portable registry := by
  induction v using Value.nested with
  | null => exact .null
  | bool b => exact .bool b
  | int n => exact .int n
  | float x => exact h
  | str s => exact .str s
  | datetime t => cases h
  | list vs ih =>
      rw [received, receivedItems_eq] at h
      cases h with
      | list hvs => exact .list fun v hv => ih v hv (hvs _ (List.mem_map_of_mem hv))
  | tuple vs => cases h
  | set vs => cases h
  | map es ih =>
      rw [received, receivedEntries_eq] at h
      cases h with
      | map hname hes =>
          refine .map (fun hmem => hname ?_) fun e he => ih e he (hes _ (List.mem_map_of_mem he))
          rwa [List.map_map]
  | entity e _ =>
      rw [received] at h
      cases h with
      | entity he =>
          rw [Entity.graph_received, List.forall_mem_map] at he
          exact .entity fun d hd => Entity.writable_received_iff.mp (he d hd)

theorem Value.Portable.received {registry : Registry} {v : Value} (h : v.Portable registry)
    (c? : Option Context) : (v.received c?).Portable registry := by
  induction h with
  | null => exact .null
  | bool b => exact .bool b
  | int n => exact .int n
  | float hx => exact .float hx
  | str s => exact .str s
  | list _ ih =>
      rw [Value.received, receivedItems_eq]
      exact .list (List.forall_mem_map.mpr ih)
  | map hname _ ih =>
      rw [Value.received, receivedEntries_eq]
      refine .map ?_ (List.forall_mem_map.mpr ih)
      rwa [List.map_map]
  | entity he =>
      refine .entity ?_
      rw [Entity.graph_received]
      exact List.forall_mem_map.mpr fun d hd => Entity.writable_received_iff.mpr (he d hd)

theorem Value.Portable.beq_self {registry : Registry} {v : Value} (h : v.Portable registry) :
    Value.beq v v = true := by
  induction h with
  | null => rfl
  | bool b => exact beq_self_eq_true b
  | int i => exact beq_self_eq_true i
  | float hx => exact Float.beq_self_of_isFinite hx
  | str s => exact beq_self_eq_true s
  | list _ ih => exact beqItems_self ih
  | map _ _ ih => exact beqEntries_self ih
  | entity he =>
      refine Value.beq_self (fun a ha => ?_) fun d hd => (he d hd).exact
      cases List.mem_singleton.mp ha
      trivial

/-- Whether a value is portable does not depend on where it is. -/
theorem Value.Alike.portable {registry : Registry} {v w : Value} (h : v.Alike w)
    (hv : v.Portable registry) : w.Portable registry := by
  have hw : (w.received none).Portable registry := h ▸ hv.received none
  exact hw.of_received

variable {σ : Type} (n : Endpoint σ) {c? : Option Context}

/-- The value is sent, and what is sent is read as the other value. -/
def Endpoint.Carries (c? : Option Context) (v w : Value) : Prop :=
  ∃ j, v.serialize = .ok j ∧ n.deserialize c? j = pure w

namespace Endpoint

/-- Items that are carried make an array that is. -/
theorem exists_items_carried {g : Value → Value} {vs : List Value}
    (h : ∀ v ∈ vs, n.Carries c? v (g v)) :
    ∃ js, Value.serializeItems vs = .ok js ∧
      n.deserialize c? (.arr js) = pure (.list (vs.map g)) := by
  obtain ⟨js, hjs⟩ := List.exists_forall₂ h
  refine ⟨js, ?_, ?_⟩
  · rw [Value.serializeItems_eq]
    exact List.mapM_eq_ok_iff.mpr (hjs.imp fun _ _ h => h.1)
  · refine n.deserialize_arr (List.forall₂_map_right_iff.mpr ?_)
    exact (hjs.imp fun _ _ h => h.2).flip

/-- Entries that are carried make an object that is, if no key is the one of a type
name. -/
theorem exists_entries_carried {g : Value → Value} {es : List (String × Value)}
    (hname : Primitive.nameKey ∉ es.map (·.1)) (h : ∀ e ∈ es, n.Carries c? e.2 (g e.2)) :
    ∃ ms, Value.serializeEntries es = .ok ms ∧
      n.deserialize c? (.obj ms) = pure (.map (es.map fun e => (e.1, g e.2))) := by
  have hmember (e : String × Value) (he : e ∈ es) : ∃ m : String × Json,
      e.2.serialize.map (e.1, ·) = .ok m ∧ m.1 = e.1 ∧
        n.deserialize c? m.2 = pure (g e.2) := by
    obtain ⟨j, hj, hback⟩ := h e he
    exact ⟨(e.1, j), by rw [hj, Except.ok_map], rfl, hback⟩
  obtain ⟨ms, hms⟩ := List.exists_forall₂ hmember
  refine ⟨ms, ?_, ?_⟩
  · rw [Value.serializeEntries_eq]
    exact List.mapM_eq_ok_iff.mpr (hms.imp fun _ _ h => h.1)
  · refine n.deserialize_obj (by rwa [List.map_map]) (List.forall₂_map_right_iff.mpr ?_)
    exact (hms.imp fun _ _ h => h.2).flip

end Endpoint

/-- A portable value is sent, and what is sent is read as the arrival of the value. -/
theorem Value.Portable.comes_back (c? : Option Context) {v : Value} (h : v.Portable n.registry) :
    ∃ j, v.serialize = .ok j ∧ n.deserialize c? j = pure (v.received c?) := by
  induction h with
  | null => exact ⟨_, rfl, rfl⟩
  | bool b => exact ⟨_, rfl, rfl⟩
  | int i =>
      refine ⟨_, rfl, ?_⟩
      rw [Endpoint.deserialize, Value.ofInt_toInt]
      rfl
  | @float x hx =>
      refine ⟨.float x, ?_, rfl⟩
      rw [Value.serialize, if_pos hx]
  | str s => exact ⟨_, rfl, rfl⟩
  | list _ ih =>
      obtain ⟨js, hjs, hback⟩ := n.exists_items_carried ih
      refine ⟨.arr js, by rw [Value.serialize, hjs, Except.ok_map], ?_⟩
      rw [Value.received, receivedItems_eq, hback]
  | map hname _ ih =>
      obtain ⟨ms, hms, hback⟩ := n.exists_entries_carried hname ih
      refine ⟨.obj ms, by rw [Value.serialize, hms, Except.ok_map], ?_⟩
      rw [Value.received, receivedEntries_eq, hback]
  | @entity e he =>
      obtain ⟨p, hp, hread⟩ : e.Returns n.registry c? := Entity.returns he
      exact ⟨p.toJson, by rw [Value.serialize, hp, Except.ok_map], n.deserialize_toJson hread⟩

/-! ## Values of fields -/

namespace Endpoint

/-- An object whose entries each come to what a reader makes of them, by their shape and then
coerced, comes to what the reader makes of the entries. -/
theorem exists_entries_coerced {ε : Type} {ms : Members} {us : List (String × Value)}
    {read : Json → Outcome Value} {coerce : Value → Except ε Value}
    (hname : Primitive.nameKey ∉ ms.map (·.1))
    (hms : ∀ m ∈ ms, ∀ u, read m.2 = .ok u →
      ∃ w, n.deserialize c? m.2 = pure w ∧ coerce w = .ok u)
    (hread : mapEntriesM read ms = .ok us) :
    ∃ ws, n.deserialize c? (.obj ms) = pure (.map ws) ∧ mapEntriesM coerce ws = .ok us := by
  have hpair (m : String × Json) (hm : m ∈ ms) (u : String × Value)
      (hu : (read m.2).map (m.1, ·) = .ok u) : ∃ w : String × Value,
      (coerce w.2).map (w.1, ·) = .ok u ∧ m.1 = w.1 ∧ n.deserialize c? m.2 = pure w.2 := by
    obtain ⟨x, hx, rfl⟩ := Except.map_eq_ok_iff.mp hu
    obtain ⟨w, hback, hw⟩ := hms m hm x hx
    exact ⟨(m.1, w), by rw [hw, Except.ok_map], rfl, hback⟩
  obtain ⟨ws, hcoerce, hback⟩ :=
    List.exists_forall₂_of_forall₂
      (S := fun u (w : String × Value) => (coerce w.2).map (w.1, ·) = .ok u)
      (List.mapM_eq_ok_iff.mp hread) hpair
  refine ⟨ws, n.deserialize_obj ?_ hback, List.mapM_eq_ok_iff.mpr hcoerce.flip⟩
  exact Record.names_eq_of_forall₂ hback ▸ hname

end Endpoint

/-- The kinds that need nothing read inside a document, codecs apart. -/
def Kind.Leaf : Kind → Prop
  | .integer _ | .float _ | .string | .boolean | .datetime | .uuid | .address | .enum _ => True
  | _ => False

/-- Documents without parts, null apart. -/
def Json.Leaf : Json → Prop
  | .bool _ | .int _ | .float _ | .str _ => True
  | _ => False

/-- A leaf is read as the plain value that it shows, which the kind coerces. -/
theorem Json.Leaf.field_eq {j : Json} (hj : j.Leaf) {k : Kind} (hk : k.Leaf)
    (registry : Registry) (c? : Option Context) (name : String) :
    (j.reading registry c?).field name k = inField name (k.coerce (Value.ofJson j)) := by
  cases j with
  | null | arr | obj => cases hj
  | bool | int | float | str => cases k <;> first | rfl | cases hk

omit [Codecs] in
/-- Nothing but null shows null. -/
theorem Json.isNull_ofJson (j : Json) : (Value.ofJson j).isNull = j.isNull := by
  cases j with
  | int i =>
      rw [Value.ofJson]
      unfold Value.ofInt
      split
      · rfl
      · split <;> rfl
  | _ => rfl

omit [Codecs] in
theorem Json.Leaf.isNull {j : Json} (hj : j.Leaf) : j.isNull = false := by
  cases j <;> first | rfl | cases hj

theorem Endpoint.deserialize_leaf {j : Json} (hj : j.Leaf) :
    n.deserialize c? j = pure (Value.ofJson j) := by
  cases j with
  | null | arr | obj => cases hj
  | bool | int | float | str => rfl

/-- A document in which no object has a type name is read as the plain value that it
shows. -/
theorem Endpoint.deserialize_plain {j : Json}
    (hkeys : Primitive.nameKey ∉ (Value.ofJson j).keys) :
    n.deserialize c? j = pure (Value.ofJson j) := by
  induction j using Json.nested with
  | null | bool | int | float | str => rfl
  | arr js ih =>
      rw [Value.ofJson, Value.ofItems_eq] at hkeys ⊢
      refine n.deserialize_arr ?_
      rw [List.forall₂_map_right_iff, List.forall₂_same]
      intro j hj
      exact ih j hj (Value.notMem_keys_of_items hkeys _ (List.mem_map_of_mem hj))
  | obj ms ih =>
      rw [Value.ofJson, Value.ofMembers_eq] at hkeys ⊢
      obtain ⟨hname, hkeys⟩ := Value.notMem_keys_of_entries hkeys
      refine n.deserialize_obj hname ?_
      rw [List.forall₂_map_right_iff, List.forall₂_same]
      intro m hm
      exact ⟨rfl, ih m hm (hkeys _ (List.mem_map_of_mem hm))⟩

/-- A codec whose documents need no reader of their own: they show plain values, and the codec
reads them as it coerces those. -/
structure Codec.Direct (c : Codec) : Prop extends c.Stable where
  shown : ∀ v j, c.coerce v = .ok v → c.write v = .ok j →
    j.isNull = false ∧ Primitive.nameKey ∉ (Value.ofJson j).keys
  read : ∀ v j u, c.coerce v = .ok v → c.write v = .ok j →
    (c.read j = .ok u ↔ c.coerce (Value.ofJson j) = .ok u)

/-- The codecs that a kind names are direct. -/
def Kind.Direct : Kind → Prop
  | .custom c => (Codecs.codec c).Direct
  | .list k | .set k | .dict k | .nullable k => k.Direct
  | _ => True

theorem Kind.Direct.stable {k : Kind} (hk : k.Direct) : k.Stable := by
  induction k with
  | list k ih | set k ih | dict k ih | nullable k ih => exact ih hk
  | custom c => exact hk.toStable
  | _ => trivial

theorem Kind.Plain.direct {k : Kind} (hk : k.Plain) : k.Direct := by
  induction k with
  | list k ih | set k ih | dict k ih | nullable k ih => exact ih hk
  | custom c => cases hk
  | _ => trivial

/-- The items of a written list, read by the kind of the items and by their shape. -/
theorem Endpoint.items_coerced {k : Kind} {name : String} {vs us : List Value} {js : List Json}
    (hvs : ∀ v ∈ vs, ∀ j u, v.write name k = .ok j →
      (j.reading n.registry c?).field name k = .ok u →
      ∃ w, n.deserialize c? j = pure w ∧ k.coerce w = .ok u)
    (hwrite : Value.writeItems vs name k = .ok js)
    (hread : (Json.itemReadings n.registry c? js).mapM (fun r => r.field name k) = .ok us) :
    ∃ ws, n.deserialize c? (.arr js) = pure (.list ws) ∧ ws.mapM k.coerce = .ok us := by
  rw [Value.writeItems_eq] at hwrite
  rw [Json.itemReadings_eq, List.mapM_map] at hread
  have hpair (j : Json) (hj : j ∈ js) (u : Value)
      (hu : (j.reading n.registry c?).field name k = .ok u) :
      ∃ w, k.coerce w = .ok u ∧ n.deserialize c? j = pure w := by
    obtain ⟨v, hv, hvj⟩ := List.exists_of_mem_mapM hwrite hj
    exact (hvs v hv j u hvj hu).imp fun _ h => h.symm
  obtain ⟨ws, hcoerce, hback⟩ :=
    List.exists_forall₂_of_forall₂ (S := fun u w => k.coerce w = .ok u)
      (List.mapM_eq_ok_iff.mp hread) hpair
  exact ⟨ws, n.deserialize_arr hback, List.mapM_eq_ok_iff.mpr hcoerce.flip⟩

/-- The two readers agree: where the kind reads what a stored value was written as, the
document read by its shape is coerced to the same. -/
theorem Kind.Stores.deserializes {k : Kind} {v : Value} (h : k.Stores v) (hk : k.Direct)
    (hkeys : Primitive.nameKey ∉ v.keys) {name : String} {j : Json} {u : Value}
    (hwrite : v.write name k = .ok j) (hread : (j.reading n.registry c?).field name k = .ok u) :
    ∃ w, n.deserialize c? j = pure w ∧ w.isNull = v.isNull ∧ k.coerce w = .ok u := by
  have hleaf {j : Json} (hj : j.Leaf) {k : Kind} (hk : k.Leaf) {u : Value}
      (hread : (j.reading n.registry c?).field name k = .ok u) :
      ∃ w, n.deserialize c? j = pure w ∧ w.isNull = false ∧ k.coerce w = .ok u := by
    rw [hj.field_eq hk] at hread
    exact ⟨_, n.deserialize_leaf hj, j.isNull_ofJson.trans hj.isNull, inField_eq_ok_iff.mp hread⟩
  induction h generalizing j u with
  | null =>
      cases hwrite
      cases hread
      exact ⟨.null, rfl, rfl, rfl⟩
  | @nullable k v _ ih =>
      rw [← Value.write_bare] at hwrite
      rw [← Json.field_bare] at hread
      obtain ⟨w, hback, hnull, hcoerce⟩ := ih hk hkeys
        ((v.write_bare name k).symm.trans hwrite) ((j.field_bare name k).symm.trans hread)
      refine ⟨w, hback, hnull, ?_⟩
      rw [Kind.coerce]
      split
      · next hw =>
          obtain rfl := Value.eq_null_of_isNull (hnull ▸ hw)
          cases hwrite
          cases hread
          rfl
      · exact hcoerce
  | integer | string | boolean | datetime | uuid | address | enum =>
      cases hwrite
      exact hleaf (by trivial) (by trivial) hread
  | @float nonNegative x _ =>
      obtain ⟨-, rfl⟩ := (Value.write_float rfl).mp hwrite
      exact hleaf (by trivial) (by trivial) hread
  | @list k vs _ ih | @set k vs _ _ ih =>
      obtain ⟨js, hjs, rfl⟩ := Except.map_eq_ok_iff.mp hwrite
      obtain ⟨us, hus, rfl⟩ := Except.map_eq_ok_iff.mp hread
      obtain ⟨ws, hback, hws⟩ := n.items_coerced (fun v hv j u hj hu => by
        obtain ⟨w, hback, -, hcoerce⟩ := ih v hv hk (Value.notMem_keys_of_items hkeys v hv) hj hu
        exact ⟨w, hback, hcoerce⟩) hjs hus
      exact ⟨_, hback, rfl, by simp only [Kind.coerce, Value.items?, hws, Except.ok_map]⟩
  | @dict k es _ ih =>
      obtain ⟨ms, hms, rfl⟩ := Except.map_eq_ok_iff.mp hwrite
      obtain ⟨us, hus, rfl⟩ := Except.map_eq_ok_iff.mp hread
      rw [Value.writeEntries_eq] at hms
      rw [Json.memberReadings_eq, mapEntriesM_map] at hus
      obtain ⟨hname, hkeys⟩ := Value.notMem_keys_of_entries hkeys
      have hname : Primitive.nameKey ∉ ms.map (·.1) := Record.names_eq_of_mapEntriesM hms ▸ hname
      obtain ⟨ws, hback, hws⟩ := n.exists_entries_coerced hname
        (fun m hm u hu => by
          obtain ⟨e, he, hem⟩ := exists_of_mem_mapEntriesM hms hm
          obtain ⟨w, hback, -, hcoerce⟩ := ih e he hk (hkeys e he) hem hu
          exact ⟨w, hback, hcoerce⟩) hus
      exact ⟨_, hback, rfl, by simp only [Kind.coerce, Value.entries?, hws, Except.ok_map]⟩
  | @object e =>
      obtain ⟨p, -, rfl⟩ := Except.map_eq_ok_iff.mp hwrite
      rw [Json.field_toJson n.registry c? p name rfl] at hread
      obtain ⟨d, hd, haccept⟩ := Except.bind_eq_ok_iff.mp hread
      exact ⟨.entity d, n.deserialize_toJson hd, rfl, inField_eq_ok_iff.mp haccept⟩
  | @listOfObjects type vs hvs =>
      obtain ⟨es, rfl⟩ := Value.exists_entities fun v hv => (hvs v hv).imp fun _ h => h.1
      obtain ⟨js, hjs, rfl⟩ := Except.map_eq_ok_iff.mp hwrite
      obtain ⟨ds, hds, haccept⟩ := Except.bind_eq_ok_iff.mp hread
      rw [Value.writeObjects_entities] at hjs
      rw [Json.itemReadings_eq, List.mapM_map] at hds
      have hsent (j : Json) (hj : j ∈ js) : ∃ p : Primitive, p.toJson = j := by
        obtain ⟨e, -, hej⟩ := List.exists_of_mem_mapM hjs hj
        exact (Except.map_eq_ok_iff.mp hej).imp fun _ h => h.2
      refine ⟨.list (ds.map .entity), n.deserialize_arr ?_, rfl, inField_eq_ok_iff.mp haccept⟩
      rw [List.forall₂_map_right_iff]
      refine ((List.forall₂_and_left js ds).mpr ⟨hsent, List.mapM_eq_ok_iff.mp hds⟩).imp ?_
      rintro _ d ⟨⟨p, rfl⟩, hd⟩
      rw [Function.comp_apply, Json.entity_toJson] at hd
      exact n.deserialize_toJson hd
  | @custom c v hv =>
      have hnull : v.isNull = false := hk.notNull v v hv
      rw [Value.write_custom hnull] at hwrite
      have hwrite := Except.mapError_eq_ok_iff.mp hwrite
      obtain ⟨hj, hshown⟩ := hk.shown v j hv hwrite
      rw [Json.field_custom hj] at hread
      have hcoerce := (hk.read v j u hv hwrite).mp (Except.mapError_eq_ok_iff.mp hread)
      refine ⟨_, n.deserialize_plain hshown, ?_, Except.mapError_eq_ok_iff.mpr hcoerce⟩
      rw [hnull, j.isNull_ofJson, hj]

/-- What a kind stores is written, and what is read from that by its shape is coerced by
the kind to the arrival of the value. -/
theorem Kind.Stores.decodes {k : Kind} {v : Value} (h : k.Stores v) (hk : k.Plain)
    (hexact : ∀ a ∈ v.atoms, a.Exact) (hgraph : ∀ d ∈ v.graph, d.Returns n.registry c?)
    (hkeys : Primitive.nameKey ∉ v.keys) (name : String) :
    ∃ j w, v.write name k = .ok j ∧ n.deserialize c? j = pure w ∧ w.isNull = v.isNull ∧
      k.coerce w = .ok (v.received c?) := by
  obtain ⟨j, hwrite, hread⟩ := h.reads_back hk.lossless (Kind.keeps_of_exact hexact hgraph) name
  obtain ⟨w, hback, hnull, hcoerce⟩ := h.deserializes n hk.direct hkeys hwrite hread
  exact ⟨j, w, hwrite, hback, hnull, hcoerce⟩

/-- What a field stores is written, and what is read from that by its shape is stored as
the arrival of the value. -/
theorem Field.decodes {f : Field} {v : Value} (h : f.coerce v = .ok v) (hk : f.kind.Plain)
    (hexact : ∀ a ∈ v.atoms, a.Exact) (hgraph : ∀ d ∈ v.graph, d.Returns n.registry c?)
    (hkeys : Primitive.nameKey ∉ v.keys) (name : String) :
    ∃ j w, v.write name f.kind = .ok j ∧ n.deserialize c? j = pure w ∧
      f.coerce w = .ok (v.received c?) := by
  rcases Field.null_or_stores h with rfl | ⟨hnull, hstores⟩
  · exact ⟨_, _, rfl, rfl, h⟩
  · obtain ⟨j, w, hwrite, hread, hw, hcoerce⟩ := hstores.decodes n hk hexact hgraph hkeys name
    exact ⟨j, w, hwrite, hread, (f.coerce_of_not_null (hw.trans hnull)).trans hcoerce⟩

end

end Skew

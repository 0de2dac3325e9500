import Skew.Proofs.Admission
import Skew.Proofs.Fallback
import Skew.Proofs.Transparency

/-!
# Two decoders

The new value of a field comes back from a call in the same wire form in which it stands in
the data of its entity, but another reader takes it: the endpoint reads it by its shape, and
only then does the field coerce it. A reload reads it by the kind of the field.

For values that a field stores, and that hold no map which looks like an entity, the two store
the same (`Field.update_eq_of_take`), provided that the codecs of the field read their documents
as they coerce plain values (`Codec.Direct`). They differ in what they refuse only where the
endpoint has a fallback for a version that nobody knows (`Field.take_eq_of_update`). So a
forwarded call and a reload agree on the fields that the call reports (`Dispatcher.call_agrees`).

The exceptions are real (`Ledger.decoders_differ`). An endpoint takes any object with a type
name for an entity, so a map of a field may be refused or read as one; a codec reads nothing
on this path, it only coerces; and a caller may drop the patch of an entity that a reload
refuses.
-/

namespace Skew

section

variable [Codecs] {σ : Type}

/-! ## What was read -/

/-- The document is read as the value, in some state. -/
def Endpoint.Reads (n : Endpoint σ) (c? : Option Context) (j : Json) (w : Value) : Prop :=
  ∃ s s', n.deserialize c? j s = (.ok w, s')

namespace Endpoint.Reads

variable {n : Endpoint σ} {c? : Option Context} {w : Value}

theorem of_pure {j : Json} {x : Value} (h : n.deserialize c? j = pure x)
    (hw : n.Reads c? j w) : w = x := by
  obtain ⟨s, s', hw⟩ := hw
  rw [h] at hw
  cases hw
  rfl

theorem items {js : List Json} {ws : List Value} {s s' : σ}
    (h : n.deserializeItems c? js s = (.ok ws, s')) : List.Forall₂ (n.Reads c?) js ws := by
  induction js generalizing ws s with
  | nil =>
      cases h
      exact .nil
  | cons j js ih =>
      obtain ⟨w, t, hw, h⟩ := ExceptT.bind_eq_ok_iff.mp h
      obtain ⟨ws, t', hws, h⟩ := ExceptT.bind_eq_ok_iff.mp h
      cases h
      exact .cons ⟨s, t, hw⟩ (ih hws)

theorem members {ms : Members} {ws : List (String × Value)} {s s' : σ}
    (h : n.deserializeMembers c? ms s = (.ok ws, s')) :
    List.Forall₂ (fun m e => m.1 = e.1 ∧ n.Reads c? m.2 e.2) ms ws := by
  induction ms generalizing ws s with
  | nil =>
      cases h
      exact .nil
  | cons m ms ih =>
      obtain ⟨w, t, hw, h⟩ := ExceptT.bind_eq_ok_iff.mp h
      obtain ⟨ws, t', hws, h⟩ := ExceptT.bind_eq_ok_iff.mp h
      cases h
      exact .cons ⟨rfl, s, t, hw⟩ (ih hws)

theorem arr {js : List Json} (h : n.Reads c? (.arr js) w) :
    ∃ ws, w = .list ws ∧ List.Forall₂ (n.Reads c?) js ws := by
  obtain ⟨s, s', h⟩ := h
  obtain ⟨ws, t, hws, h⟩ := ExceptT.bind_eq_ok_iff.mp h
  cases h
  exact ⟨ws, rfl, items hws⟩

/-- An object without a type name is read entry by entry. -/
theorem obj {ms : Members} (hname : Primitive.nameKey ∉ ms.map (·.1))
    (h : n.Reads c? (.obj ms) w) :
    ∃ es, w = .map es ∧ List.Forall₂ (fun m e => m.1 = e.1 ∧ n.Reads c? m.2 e.2) ms es := by
  obtain ⟨s, s', h⟩ := h
  rw [deserialize, if_neg fun hmem => hname (Record.contains_iff_mem.mp hmem)] at h
  obtain ⟨es, t, hes, h⟩ := ExceptT.bind_eq_ok_iff.mp h
  cases h
  exact ⟨es, rfl, members hes⟩

/-- Without fallbacks, the document of a primitive is read as the registry reads it. -/
theorem toJson (hn : n.Strict) {p : Primitive} (h : n.Reads c? p.toJson w) :
    ∃ e, w = .entity e ∧ Entity.ofPrimitive n.registry c? p = .ok e := by
  obtain ⟨s, s', h⟩ := h
  rw [Primitive.toJson_eq, deserialize, if_pos p.contains_members_name, p.ofMembers_members] at h
  obtain ⟨e, t, he, h⟩ := ExceptT.bind_eq_ok_iff.mp
    (show (n.processObject c? p >>= fun e => pure (Value.entity e)) s = (.ok w, s') from h)
  cases h
  rw [hn.processObject_eq] at he
  exact ⟨e, rfl, (ExceptT.liftM_eq_ok_iff.mp he).1⟩

end Endpoint.Reads

/-! ## The two readers of a kind -/

variable {n : Endpoint σ} {c? : Option Context}

/-- The items of a written list, read by their shape and then coerced, are read by the kind
of the items. -/
theorem Endpoint.Reads.coerced_items {k : Kind} {name : String} {vs ws us : List Value}
    {js : List Json} (hvs : ∀ v ∈ vs, ∀ j w u, v.write name k = .ok j → n.Reads c? j w →
      k.coerce w = .ok u → (j.reading n.registry c?).field name k = .ok u)
    (hwrite : Value.writeItems vs name k = .ok js) (hreads : List.Forall₂ (n.Reads c?) js ws)
    (hcoerce : ws.mapM k.coerce = .ok us) :
    (Json.itemReadings n.registry c? js).mapM (fun r => r.field name k) = .ok us := by
  rw [Value.writeItems_eq] at hwrite
  rw [Json.itemReadings_eq, List.mapM_map]
  refine List.mapM_eq_ok_iff.mpr
    (List.forall₂_of_forall₂ hreads (List.mapM_eq_ok_iff.mp hcoerce) ?_)
  intro j hj w u hw hu
  obtain ⟨v, hv, hvj⟩ := List.exists_of_mem_mapM hwrite hj
  exact hvs v hv j w u hvj hw hu

/-- Where the endpoint has no fallback, a document that is read by its shape and then coerced
is read by the kind, to the same. -/
theorem Kind.Stores.reads {k : Kind} {v : Value} (h : k.Stores v) (hn : n.Strict) (hk : k.Direct)
    (hkeys : Primitive.nameKey ∉ v.keys) {name : String} {j : Json} {w : Value}
    (hwrite : v.write name k = .ok j) (hreads : n.Reads c? j w) : w.isNull = v.isNull ∧
      ∀ u, k.coerce w = .ok u → (j.reading n.registry c?).field name k = .ok u := by
  have hleaf {j : Json} (hj : j.Leaf) {k : Kind} (hk : k.Leaf) {w : Value}
      (hreads : n.Reads c? j w) : w.isNull = false ∧
        ∀ u, k.coerce w = .ok u → (j.reading n.registry c?).field name k = .ok u := by
    obtain rfl := hreads.of_pure (n.deserialize_leaf hj)
    refine ⟨j.isNull_ofJson.trans hj.isNull, fun u hu => ?_⟩
    rw [hj.field_eq hk, hu, inField_ok]
  induction h generalizing j w with
  | null =>
      cases hwrite
      obtain rfl := hreads.of_pure (x := .null) rfl
      refine ⟨rfl, fun u hu => ?_⟩
      obtain rfl : .null = u := Except.ok.inj hu
      rfl
  | @nullable k v _ ih =>
      rw [← Value.write_bare] at hwrite
      obtain ⟨hnull, hread⟩ := ih hk hkeys ((v.write_bare name k).symm.trans hwrite) hreads
      refine ⟨hnull, fun u hu => ?_⟩
      rw [Kind.coerce] at hu
      split at hu
      · next hw =>
          obtain rfl := Value.eq_null_of_isNull (hnull ▸ hw)
          cases hwrite
          cases hu
          rfl
      · rw [← Json.field_bare]
        exact (j.field_bare name k).trans (hread u hu)
  | integer | string | boolean | datetime | uuid | address | enum =>
      cases hwrite
      exact hleaf (by trivial) (by trivial) hreads
  | @float nonNegative x _ =>
      obtain ⟨-, rfl⟩ := (Value.write_float rfl).mp hwrite
      exact hleaf (by trivial) (by trivial) hreads
  | @list k vs _ ih | @set k vs _ _ ih =>
      obtain ⟨js, hjs, rfl⟩ := Except.map_eq_ok_iff.mp hwrite
      obtain ⟨ws, rfl, hws⟩ := hreads.arr
      refine ⟨rfl, fun u hu => ?_⟩
      obtain ⟨us, hus, rfl⟩ := Except.map_eq_ok_iff.mp hu
      have hread := Endpoint.Reads.coerced_items (fun v hv j w u hj hw hu =>
        (ih v hv hk (Value.notMem_keys_of_items hkeys v hv) hj hw).2 u hu) hjs hws hus
      simp only [Json.reading, Kind.bare, hread, Except.ok_map]
  | @dict k es _ ih =>
      obtain ⟨ms, hms, rfl⟩ := Except.map_eq_ok_iff.mp hwrite
      rw [Value.writeEntries_eq] at hms
      obtain ⟨hname, hkeys⟩ := Value.notMem_keys_of_entries hkeys
      obtain ⟨ws, rfl, hws⟩ := hreads.obj (Record.names_eq_of_mapEntriesM hms ▸ hname)
      refine ⟨rfl, fun u hu => ?_⟩
      obtain ⟨us, hus, rfl⟩ := Except.map_eq_ok_iff.mp hu
      have hread : mapEntriesM (fun j => (j.reading n.registry c?).field name k) ms = .ok us := by
        refine List.mapM_eq_ok_iff.mpr
          (List.forall₂_of_forall₂ hws (List.mapM_eq_ok_iff.mp hus) ?_)
        rintro m hm w u ⟨hmw, hw⟩ hu
        obtain ⟨e, he, hem⟩ := exists_of_mem_mapEntriesM hms hm
        obtain ⟨x, hx, rfl⟩ := Except.map_eq_ok_iff.mp hu
        simp only [(ih e he hk (hkeys e he) hem hw).2 x hx, Except.ok_map, hmw]
      simp only [Json.reading, Kind.bare, Json.memberReadings_eq, mapEntriesM_map, hread,
        Except.ok_map]
  | @object e =>
      obtain ⟨p, -, rfl⟩ := Except.map_eq_ok_iff.mp hwrite
      obtain ⟨d, rfl, hd⟩ := hreads.toJson hn
      refine ⟨rfl, fun u hu => ?_⟩
      rw [Json.field_toJson n.registry c? p name rfl, hd, Except.ok_bind, Kind.accept, hu,
        inField_ok]
  | @listOfObjects type vs hvs =>
      obtain ⟨es, rfl⟩ := Value.exists_entities fun v hv => (hvs v hv).imp fun _ h => h.1
      obtain ⟨js, hjs, rfl⟩ := Except.map_eq_ok_iff.mp hwrite
      rw [Value.writeObjects_entities] at hjs
      obtain ⟨ws, rfl, hws⟩ := hreads.arr
      refine ⟨rfl, fun u hu => ?_⟩
      have hpair (j : Json) (hj : j ∈ js) (w : Value) (hw : n.Reads c? j w) :
          ∃ d, w = .entity d ∧ (j.reading n.registry c?).entity () = .ok d := by
        obtain ⟨e, -, hej⟩ := List.exists_of_mem_mapM hjs hj
        obtain ⟨p, -, rfl⟩ := Except.map_eq_ok_iff.mp hej
        obtain ⟨d, rfl, hd⟩ := hw.toJson hn
        exact ⟨d, rfl, (Json.entity_toJson n.registry c? p).trans hd⟩
      obtain ⟨ds, hds, hread⟩ := List.exists_forall₂_of_forall₂ hws hpair
      obtain rfl : ws = ds.map Value.entity := by
        rw [← List.forall₂_eq_eq_eq, List.forall₂_map_right_iff]
        exact hds
      have hread : (Json.itemReadings n.registry c? js).mapM (·.entity ()) = .ok ds := by
        rw [Json.itemReadings_eq, List.mapM_map]
        exact List.mapM_eq_ok_iff.mpr hread
      simp only [Json.reading, Kind.bare, hread, Except.ok_bind, Kind.accept]
      exact congrArg (inField name) hu
  | @custom c v hv =>
      have hnull : v.isNull = false := hk.notNull v v hv
      rw [Value.write_custom hnull] at hwrite
      have hwrite := Except.mapError_eq_ok_iff.mp hwrite
      obtain ⟨hj, hshown⟩ := hk.shown v j hv hwrite
      obtain rfl := hreads.of_pure (n.deserialize_plain hshown)
      refine ⟨by rw [j.isNull_ofJson, hj, hnull], fun u hu => ?_⟩
      rw [Json.field_custom hj, (hk.read v j u hv hwrite).mpr (Except.mapError_eq_ok_iff.mp hu),
        Except.mapError_ok]

/-! ## Fields -/

/-- What a caller stores for the wire form of a field's new value: the document is read by its
shape, and coerced. -/
def Endpoint.takeUpdate (n : Endpoint σ) (c? : Option Context) (f : Field) (name : String)
    (j : Json) : Run σ Value := do
  let w ← n.deserialize c? j
  inField name (f.coerce w)

/-- A field takes what its kind coerced: nothing is done twice, if its codecs coerce once. -/
theorem Field.take_of_coerced {f : Field} (hk : f.kind.Stable) {name : String} {r : Reading}
    {w x : Value} (hread : r.field name f.kind = .ok x) (hcoerce : f.kind.coerce w = .ok x)
    (hnull : w.isNull = false) : f.take name r = .ok x := by
  have hx : x.isNull = false := Kind.isNull_of_coerced hk hcoerce hnull
  have hself : f.coerce x = .ok x :=
    (f.coerce_of_not_null hx).trans (Kind.stores_of_coerced hk hcoerce).coerce
  simp [Field.take, Field.read, hread, hx, hself]

variable {f : Field} {v : Value} {name : String} {j : Json} {u : Value}

/-- What a reload stores, a caller stores. -/
theorem Field.update_eq_of_take (hstored : f.coerce v = .ok v) (hk : f.kind.Direct)
    (hkeys : Primitive.nameKey ∉ v.keys) (hwrite : v.write name f.kind = .ok j)
    (htake : f.take name (j.reading n.registry c?) = .ok u) :
    n.takeUpdate c? f name j = pure u := by
  rcases Field.null_or_stores hstored with rfl | ⟨hnull, hstores⟩
  · cases hwrite
    rw [Field.take_null hstored] at htake
    cases htake
    rw [Endpoint.takeUpdate, Endpoint.deserialize, pure_bind, hstored]
    rfl
  · obtain ⟨_, hread, -⟩ := Except.bind_eq_ok_iff.mp htake
    obtain ⟨x, hread, -⟩ := Except.bind_eq_ok_iff.mp hread
    obtain ⟨w, hback, hw, hcoerce⟩ := hstores.deserializes n hk hkeys hwrite hread
    rw [hnull] at hw
    rw [Field.take_of_coerced hk.stable hread hcoerce hw] at htake
    cases htake
    rw [Endpoint.takeUpdate, hback, pure_bind, f.coerce_of_not_null hw, hcoerce]
    rfl

/-- Without fallbacks, what a caller stores a reload stores. -/
theorem Field.take_eq_of_update (hn : n.Strict) (hstored : f.coerce v = .ok v) (hk : f.kind.Direct)
    (hkeys : Primitive.nameKey ∉ v.keys) (hwrite : v.write name f.kind = .ok j) {s s' : σ}
    (hupdate : n.takeUpdate c? f name j s = (.ok u, s')) :
    f.take name (j.reading n.registry c?) = .ok u := by
  obtain ⟨w, t, hw, hupdate⟩ := ExceptT.bind_eq_ok_iff.mp hupdate
  obtain ⟨hcoerce, -⟩ := ExceptT.liftM_eq_ok_iff.mp hupdate
  replace hcoerce := inField_eq_ok_iff.mp hcoerce
  have hreads : n.Reads c? j w := ⟨s, t, hw⟩
  rcases Field.null_or_stores hstored with rfl | ⟨hnull, hstores⟩
  · cases hwrite
    obtain rfl := hreads.of_pure (x := .null) rfl
    obtain rfl : .null = u := Except.ok.inj (hstored.symm.trans hcoerce)
    exact Field.take_null hstored name
  · obtain ⟨hw, hread⟩ := hstores.reads hn hk hkeys hwrite hreads
    rw [hnull] at hw
    rw [f.coerce_of_not_null hw] at hcoerce
    exact Field.take_of_coerced hk.stable (hread u hcoerce) hcoerce hw

/-! ## Replies -/

omit [Codecs] in
theorem Record.Ascending.of_gather {α φ : Type} {fields : List (String × φ)}
    {step : String → φ → Option (Run σ α)} {r data : Record α} (hr : Ascending r) {s s' : σ}
    (h : gather fields step r s = (.ok data, s')) : Ascending data := by
  induction fields generalizing r s with
  | nil =>
      cases h
      exact hr
  | cons q fields ih =>
      rw [gather, List.foldlM_cons] at h
      obtain ⟨next, t, hnext, h⟩ := ExceptT.bind_eq_ok_iff.mp h
      cases hstep : step q.1 q.2 with
      | none =>
          rw [hstep] at hnext
          cases hnext
          exact ih hr h
      | some act =>
          rw [hstep] at hnext
          obtain ⟨a, t', -, hnext⟩ := ExceptT.bind_eq_ok_iff.mp hnext
          cases hnext
          exact ih (hr.insert q.1 a) h

omit [Codecs] in
/-- A visit that succeeds has visited every field, and keeps under the name of each what came
of it. -/
theorem Record.exists_of_gather {α φ : Type} {fields : List (String × φ)}
    (hfields : (fields.map (·.1)).Nodup) {step : String → φ → Option (Run σ α)}
    {r data : Record α} {s s' : σ} (h : gather fields step r s = (.ok data, s')) :
    (∀ n, n ∉ fields.map (·.1) → get? data n = get? r n) ∧
      ∀ p ∈ fields, ∀ act, step p.1 p.2 = some act →
        ∃ a t t', act t = (.ok a, t') ∧ get? data p.1 = some a := by
  induction fields generalizing r s with
  | nil =>
      cases h
      exact ⟨fun _ _ => rfl, fun _ hp => nomatch hp⟩
  | cons q fields ih =>
      obtain ⟨hq, hfields⟩ := List.nodup_cons.mp hfields
      rw [gather, List.foldlM_cons] at h
      obtain ⟨next, t, hnext, h⟩ := ExceptT.bind_eq_ok_iff.mp h
      obtain ⟨hothers, hvisited⟩ := ih hfields h
      cases hstep : step q.1 q.2 with
      | none =>
          rw [hstep] at hnext
          cases hnext
          refine ⟨fun n hn => hothers n fun hmem => hn (List.mem_cons_of_mem _ hmem),
            List.forall_mem_cons.mpr ⟨fun act hact => ?_, hvisited⟩⟩
          rw [hstep] at hact
          cases hact
      | some act =>
          rw [hstep] at hnext
          obtain ⟨a, t', ha, hnext⟩ := ExceptT.bind_eq_ok_iff.mp hnext
          cases hnext
          refine ⟨fun n hn => ?_, List.forall_mem_cons.mpr ⟨fun act' hact => ?_, hvisited⟩⟩
          · rw [List.map_cons, List.mem_cons, not_or] at hn
            rw [hothers n hn.2, get?_insert_ne _ _ (Ne.symm hn.1)]
          · rw [hstep] at hact
            cases hact
            exact ⟨a, s, t, ha, by rw [hothers q.1 hq, get?_insert_self]⟩

theorem Conductor.updates_ascending (k : Conductor σ) {c : Context} {before after : Entity}
    {us : Record Value} {s s' : σ} (h : k.updates c before after s = (.ok us, s')) :
    Record.Ascending us :=
  Record.Ascending.nil.of_gather (k.updates_eq_gather c before after ▸ h)

/-- What comes back for a field that is reported: the wire form of its value, read by its
shape. -/
theorem Conductor.exists_reported (k : Conductor σ) {c : Context} {before after : Entity}
    {us : Record Value} {s s' : σ} (hafter : after.schema.fieldNames.Nodup)
    (h : k.updates c before after s = (.ok us, s')) : Record.Ascending us ∧
      ∀ name f v, after.schema.field? name = some f → after.get name = .ok v →
        isUpdated before after name = true →
        ∃ j w, v.write name f.kind = .ok j ∧ k.client.Reads (some c) j w ∧
          Record.get? us name = some w := by
  refine ⟨k.updates_ascending h, ?_⟩
  rw [updates_eq_gather] at h
  obtain ⟨-, hvisited⟩ := Record.exists_of_gather hafter h
  intro name f v hf hv hupdated
  obtain ⟨w, t, t', hsent, hw⟩ := hvisited (name, f) (Record.mem_of_get? hf) _ (if_pos hupdated)
  rw [sendField, hv] at hsent
  obtain ⟨j, t'', hj, hread⟩ := ExceptT.bind_eq_ok_iff.mp
    (show (liftM (v.write name f.kind) >>= k.client.deserialize (some c) : Run σ Value) t =
      (.ok w, t') from hsent)
  exact ⟨j, w, (ExceptT.liftM_eq_ok_iff.mp hj).1, ⟨t'', t', hread⟩, hw⟩

namespace Dispatcher

/-- Staging coerces the update of every declared field, and adds no other. -/
theorem stageUpdates_spec {schema : Schema} {us staged : Record Value}
    (h : stageUpdates schema us = .ok staged) : (staged.map (·.1)).Sublist (us.map (·.1)) ∧
      ∀ u ∈ us, ∀ f, schema.field? u.1 = some f →
        ∃ x, f.coerce u.2 = .ok x ∧ (u.1, x) ∈ staged := by
  induction us generalizing staged with
  | nil =>
      cases h
      exact ⟨.slnil, fun _ hu => nomatch hu⟩
  | cons u us ih =>
      obtain ⟨n, v⟩ := u
      rw [stageUpdates] at h
      split at h
      · next hnone =>
          obtain ⟨hsub, hall⟩ := ih h
          refine ⟨hsub.cons _, List.forall_mem_cons.mpr ⟨fun f hf => ?_, hall⟩⟩
          rw [hnone] at hf
          cases hf
      · next f hf =>
          obtain ⟨x, hx, h⟩ := Except.bind_eq_ok_iff.mp h
          obtain ⟨rest, hrest, h⟩ := Except.bind_eq_ok_iff.mp h
          cases h
          obtain ⟨hsub, hall⟩ := ih hrest
          refine ⟨hsub.cons_cons _, List.forall_mem_cons.mpr ⟨fun g hg => ?_, fun u hu g hg => ?_⟩⟩
          · cases hf.symm.trans hg
            exact ⟨x, inField_eq_ok_iff.mp hx, List.mem_cons_self⟩
          · exact (hall u hu g hg).imp fun _ hy => hy.imp_right (List.mem_cons_of_mem _)

/-- A reply that is taken over leaves in each reported field what the field made of the
update. -/
theorem get_of_applyReply {e e' : Entity} {r : Reply} (h : applyReply e r = .ok e')
    (hupdates : Record.Ascending r.updates) {name : String} {f : Field} {w : Value}
    (hf : e.schema.field? name = some f) (hw : Record.get? r.updates name = some w) :
    ∃ u, f.coerce w = .ok u ∧ e'.get name = .ok u := by
  obtain ⟨staged, hstaged, rfl⟩ := applyReply_eq_ok_iff.mp h
  obtain ⟨hsub, hall⟩ := stageUpdates_spec hstaged
  have hnodup : (staged.map (·.1)).Nodup := hupdates.nodup.sublist hsub
  obtain ⟨u, hu, hmem⟩ := hall _ (Record.mem_of_get? hw) f hf
  refine ⟨u, hu, Entity.get_eq_ok_iff.mpr ⟨⟨f, hf⟩, ?_⟩⟩
  show Record.get? (Record.update e.values staged) name = some u
  rw [Record.get?_update hnodup, Record.get?_of_mem hnodup hmem]
  rfl

end Dispatcher

/-! ## Calls -/

/-- The method is run at the conductor's node, on the arrival of the entity: from `before` to
`after`. -/
def Conductor.Serves (k : Conductor σ) (c : Context) (e : Entity) (method : String) (args : Args)
    (s : σ) (before after : Entity) : Prop :=
  ∃ p d received v s₁ s₂ s₃, e.write = .ok p ∧
    k.server.deserialize (some c) p.toJson s = (.ok (.entity d), s₁) ∧ before = d.bound c ∧
    k.transferArgs c args s₁ = (.ok received, s₂) ∧
    k.dispatcher.call method received before s₂ = ((.ok v, after), s₃)

/-- There is no reply without a run at the conductor's node. -/
theorem Conductor.exists_serves (k : Conductor σ) {c : Context} {e : Entity} {method : String}
    {args : Args} {r : Reply} {s s' : σ} (h : k.instanceAction c e method args s = (.ok r, s')) :
    ∃ before after, k.Serves c e method args s before after := by
  obtain ⟨p, _, hsent, h⟩ := ExceptT.bind_eq_ok_iff.mp h
  obtain ⟨hp, hstate⟩ := ExceptT.liftM_eq_ok_iff.mp hsent
  rw [hstate] at h
  obtain ⟨w, s₁, hd, h⟩ := ExceptT.bind_eq_ok_iff.mp h
  cases w with
  | entity d =>
      obtain ⟨received, s₂, hargs, h⟩ := ExceptT.bind_eq_ok_iff.mp h
      have hget : (get : Run σ σ) s₂ = (.ok s₂, s₂) := rfl
      rw [ExceptT.bind_ok hget] at h
      rcases hcall : k.dispatcher.call method received (d.bound c) s₂ with ⟨⟨err | v, after⟩, s₃⟩
      · rw [hcall] at h
        cases h
      · exact ⟨_, after, p, d, received, v, s₁, s₂, s₃, hp, hd, rfl, hargs, hcall⟩
  | _ => cases h

/-- A reply reports what the run at the conductor's node changed. -/
theorem Conductor.updates_of_reply (k : Conductor σ) {c : Context} {e before after : Entity}
    {method : String} {args : Args} {r : Reply} {s s' : σ}
    (h : k.instanceAction c e method args s = (.ok r, s'))
    (hserves : k.Serves c e method args s before after) :
    ∃ t t', k.updates c before after t = (.ok r.updates, t') := by
  obtain ⟨p, d, received, v, s₁, s₂, s₃, hp, hd, rfl, hargs, hcall⟩ := hserves
  have hget : (get : Run σ σ) s₂ = (.ok s₂, s₂) := rfl
  rw [instanceAction, ExceptT.bind_ok (ExceptT.liftM_eq_ok_iff.mpr ⟨hp, rfl⟩), ExceptT.bind_ok hd]
    at h
  simp only at h
  rw [ExceptT.bind_ok hargs, ExceptT.bind_ok hget, hcall] at h
  obtain ⟨_, t₁, -, h⟩ := ExceptT.bind_eq_ok_iff.mp h
  obtain ⟨_, t₂, -, h⟩ := ExceptT.bind_eq_ok_iff.mp h
  obtain ⟨us, t₃, hus, h⟩ := ExceptT.bind_eq_ok_iff.mp h
  obtain ⟨_, t₄, -, h⟩ := ExceptT.bind_eq_ok_iff.mp h
  cases h
  exact ⟨t₂, t₃, hus⟩

/-- A call that is forwarded, and succeeds, takes a reply over. -/
theorem Dispatcher.exists_reply {d : Dispatcher σ} {t : Transport σ}
    (htransport : d.transport? = some t) {e e' : Entity} {method : String} {m : Method}
    (hmethod : e.schema.method? method = some m) (hscope : m.scope = .ofInstance)
    (hremotable : m.remotable = true) {c : Context} (hcontext : e.context? = some c) {args : Args}
    {v : Value} {s s' : σ} (hcall : d.call method args e s = ((.ok v, e'), s')) :
    ∃ r t', t.instanceAction c e method args s = (.ok r, t') ∧ applyReply e r = .ok e' := by
  rw [d.call_eq hmethod hscope hremotable args hcontext, htransport] at hcall
  split at hcall
  · cases hcall
  · replace hcall : forward t c method args e s = ((.ok v, e'), s') := hcall
    rcases hsent : t.instanceAction c e method args s with ⟨err | r, t'⟩
    · rw [forward_error hsent] at hcall
      cases hcall
    · cases hreply : applyReply e r with
      | error err =>
          rw [forward_refused hsent hreply] at hcall
          cases hcall
      | ok e'' =>
          rw [forward_ok hsent hreply] at hcall
          cases hcall
          exact ⟨r, _, rfl, hreply⟩

/-- A reload holds in a field what the field takes from the wire form of its value. -/
theorem Entity.take_of_reload {registry : Registry} (hregistry : registry.WellFormed)
    {e reload : Entity} {p : Primitive} (he : e.schema.fieldNames.Nodup)
    (hwrite : e.write = .ok p) (hread : Entity.ofPrimitive registry c? p = .ok reload)
    (hget : e.get name = .ok v) (hf : e.schema.field? name = some f)
    (hf' : reload.schema.field? name = some f) (hj : v.write name f.kind = .ok j) :
    ∃ u, f.take name (j.reading registry c?) = .ok u ∧ reload.get name = .ok u := by
  rw [Entity.write_eq] at hwrite
  obtain ⟨data, hdata, rfl⟩ := Except.map_eq_ok_iff.mp hwrite
  have hwritten := ((Entity.data_eq_ok_iff he).mp hdata).2.2 (name, f) (Record.mem_of_get? hf)
  obtain ⟨-, hv⟩ := Entity.get_eq_ok_iff.mp hget
  rw [writeField, hv, Option.map_some, hj, eq_comm, Option.map_eq_some_iff] at hwritten
  obtain ⟨x, hx, hxj⟩ := hwritten
  cases hxj
  have htaken := ((Entity.ofPrimitive_eq_ok_iff hregistry).mp hread).taken (name, f)
    (Record.mem_of_get? hf')
  rw [show (e.wrap e.version data).data = data from rfl, hx, Option.map_some, eq_comm,
    Option.map_eq_some_iff] at htaken
  obtain ⟨u, hu, htake⟩ := htaken
  exact ⟨u, htake.symm, Entity.get_eq_ok_iff.mpr ⟨⟨f, hf'⟩, hu⟩⟩

/-- **One wire form, one value.** After a call through a conductor, a reported field that both
ends declare alike, its codecs direct, holds what a reload would store for the same wire form,
unless the value has a map that looks like an entity. A reload may refuse what the caller
took, but only where the caller's endpoint has a fallback. -/
theorem Dispatcher.call_agrees (k : Conductor σ) (hregistry : k.client.registry.WellFormed)
    {d : Dispatcher σ} (htransport : d.transport? = some k.transport)
    {e e' before after : Entity} {method : String} {m : Method} {c : Context} {args : Args}
    {result : Value} {s s' : σ} (hmethod : e.schema.method? method = some m)
    (hscope : m.scope = .ofInstance) (hremotable : m.remotable = true)
    (hcontext : e.context? = some c) (hcall : d.call method args e s = ((.ok result, e'), s'))
    (hserves : k.Serves c e method args s before after)
    {name : String} {f : Field} {v : Value} (hdistinct : after.schema.fieldNames.Nodup)
    (hhere : e.schema.field? name = some f) (hthere : after.schema.field? name = some f)
    (hv : after.get name = .ok v) (hupdated : Conductor.isUpdated before after name = true)
    (hk : f.kind.Direct) (hstored : f.coerce v = .ok v) (hkeys : Primitive.nameKey ∉ v.keys) :
    ∃ j, v.write name f.kind = .ok j ∧
      (∀ u, f.take name (j.reading k.client.registry (some c)) = .ok u → e'.get name = .ok u) ∧
      (k.client.Strict →
        ∃ u, f.take name (j.reading k.client.registry (some c)) = .ok u ∧ e'.get name = .ok u) ∧
      ∀ p reload, after.write = .ok p →
        Entity.ofPrimitive k.client.registry (some c) p = .ok reload →
        reload.schema.field? name = some f → e'.get name = reload.get name := by
  obtain ⟨r, t, hreply, happly⟩ :=
    exists_reply htransport hmethod hscope hremotable hcontext hcall
  obtain ⟨t₁, t₂, hupdates⟩ := k.updates_of_reply hreply hserves
  obtain ⟨hascending, hreported⟩ := k.exists_reported hdistinct hupdates
  obtain ⟨j, w, hj, ⟨s₁, s₂, hread⟩, hw⟩ := hreported name f v hthere hv hupdated
  obtain ⟨u, hu, hget⟩ := get_of_applyReply happly hascending hhere hw
  have hupdate : k.client.takeUpdate (some c) f name j s₁ = (.ok u, s₂) := by
    refine ExceptT.bind_eq_ok_iff.mpr ⟨w, s₂, hread, ?_⟩
    rw [hu]
    rfl
  have hagree (x : Value) (hx : f.take name (j.reading k.client.registry (some c)) = .ok x) :
      e'.get name = .ok x := by
    rw [Field.update_eq_of_take hstored hk hkeys hj hx] at hupdate
    cases hupdate
    exact hget
  refine ⟨j, hj, hagree, fun hstrict => ?_, fun p reload hwrite hreload hdeclared => ?_⟩
  · exact ⟨u, Field.take_eq_of_update hstrict hstored hk hkeys hj hupdate, hget⟩
  · obtain ⟨x, hx, hreload⟩ :=
      Entity.take_of_reload hregistry hdistinct hwrite hreload hv hthere hdeclared hj
    rw [hreload, hagree x hx]

end

/-! ## A ledger

A posting through a conductor is stored as a reload would store it, labels included. A remark
under the name of an entity's type is not, and neither is what a codec marks on the wire. -/

namespace Ledger

/-- Marks stand in upper case, everything else is a label. -/
@[reducible] def codecs : Codecs :=
  ⟨fun name => if name = "Upper" then Rack.upper else Depot.label⟩

attribute [local instance] codecs

def notes : Field := ⟨.dict (.custom "Label"), false, none⟩

def remarks : Field := ⟨.dict .string, false, none⟩

def mark : Field := ⟨.custom "Upper", false, none⟩

def schema : Schema :=
  ⟨"Ledger", ⟨1, 0, none⟩, [("notes", notes), ("total", ⟨.integer true, false, none⟩)], [],
    [("post", ⟨.ofInstance, true, ⟨"post", ""⟩⟩)], none⟩

def types : Registry := Registry.empty.register schema

/-- Labels are read as they are coerced. -/
theorem notes_direct : notes.kind.Direct where
  again := Depot.label_settles.again
  notNull := Depot.label_settles.notNull
  shown v j hv hj := by
    cases v <;> cases hv
    cases hj
    exact ⟨rfl, List.not_mem_nil⟩
  read v j u hv hj := by
    cases v <;> cases hv
    cases hj
    exact Iff.rfl

/-- The total is raised, and the day noted. -/
def post : Routine :=
  [.assign "total" (.successor "total"), .assign "notes" (.const (.map [("day", .str "first")]))]

def conductor : Conductor Unit :=
  ⟨⟨types, none, ⟨false, false⟩⟩, types,
    ⟨fun b _ => throw (.transport b.routine), fun _ => post.asInstanceMethod⟩⟩

def branch : Dispatcher Unit := ⟨types, conductor.bodies, some conductor.transport⟩

def context : Context := .ofUser "r1" "u" "p"

def page : Entity := ⟨schema, ⟨1, 0, none⟩, some context, [("total", .int 1)], []⟩

def posted : Entity :=
  ⟨schema, ⟨1, 0, none⟩, some context, [("notes", .map [("day", .str "first")]),
    ("total", .int 2)], ["notes", "total"]⟩

theorem types_wellFormed : types.WellFormed := Registry.wellFormed_empty.register (by decide)

def reply : Reply :=
  ⟨[("notes", .map [("day", .str "first")]), ("total", .int 2)], ["notes", "total"], .null⟩

theorem reply_page : conductor.instanceAction context page "post" .empty () = (.ok reply, ()) :=
  rfl

theorem call_page : branch.call "post" .empty page () = ((.ok .null, posted), ()) := by
  have htaken : Dispatcher.applyReply page reply = .ok posted := rfl
  rw [branch.call_eq (m := ⟨.ofInstance, true, ⟨"post", ""⟩⟩) rfl rfl rfl _ (c := context) rfl]
  exact Dispatcher.forward_ok (t := conductor.transport) reply_page htaken

theorem page_served : conductor.Serves context page "post" .empty () page posted :=
  ⟨⟨Primitive.entitySpace, "Ledger", "1.0", [("total", .int 1)], []⟩, page, .empty, .null, (), (),
    (), rfl, rfl, rfl, rfl, rfl⟩

theorem posted_agrees : branch.call "post" .empty page () = ((.ok .null, posted), ()) ∧
    conductor.Serves context page "post" .empty () page posted ∧ ∃ j u,
      (Value.map [("day", .str "first")]).write "notes" notes.kind = .ok j ∧
      notes.take "notes" (j.reading types (some context)) = .ok u ∧
      posted.get "notes" = .ok u := by
  have hdeclared : schema.field? "notes" = some notes := rfl
  obtain ⟨j, hj, -, hstrict, -⟩ := Dispatcher.call_agrees conductor types_wellFormed (d := branch)
    rfl (m := ⟨.ofInstance, true, ⟨"post", ""⟩⟩) rfl rfl rfl rfl call_page page_served
    (v := .map [("day", .str "first")]) (by decide) hdeclared hdeclared rfl rfl notes_direct rfl
    (by decide)
  obtain ⟨u, htake, hget⟩ := hstrict ⟨rfl, Or.inl rfl⟩
  exact ⟨call_page, page_served, j, u, hj, htake, hget⟩

/-- A remark under the name of an entity's type. -/
def named : Value := .map [("nova_object.name", .str "x")]

def stampSchema : Schema :=
  ⟨"Stamp", ⟨1, 0, none⟩, [("value", ⟨.integer true, false, none⟩)], [], [], none⟩

/-- A stamp with a patch that the caller does not know. -/
def stamp : Entity :=
  ⟨{ stampSchema with version := ⟨1, 0, some 1⟩ }, ⟨1, 0, some 1⟩, none, [("value", .int 5)], []⟩

def stampField : Field := ⟨.object "Stamp", false, none⟩

/-- The remark is stored and read back by its field, but its document is refused: the endpoint
takes it for an entity. The mark is read back by its codec, but kept as it was marked for the
wire: coercion does not know of marks. And the stamp, which its field refuses, is stored without
its patch by an endpoint that tolerates patches. -/
theorem decoders_differ :
    (¬ ∀ (n : Endpoint Unit) (c? : Option Context) (f : Field) (name : String) (v u : Value)
      (j : Json), f.kind.Plain → f.coerce v = .ok v → v.write name f.kind = .ok j →
      f.take name (j.reading n.registry c?) = .ok u → n.takeUpdate c? f name j = pure u) ∧
    (¬ ∀ (n : Endpoint Unit) (c? : Option Context) (f : Field) (name : String) (v u : Value)
      (j : Json), f.kind.Lossless → f.coerce v = .ok v → Primitive.nameKey ∉ v.keys →
      v.write name f.kind = .ok j →
      f.take name (j.reading n.registry c?) = .ok u → n.takeUpdate c? f name j = pure u) ∧
    ¬ ∀ (n : Endpoint Unit) (c? : Option Context) (f : Field) (name : String) (v u : Value)
      (j : Json), f.kind.Plain → f.coerce v = .ok v → Primitive.nameKey ∉ v.keys →
      v.write name f.kind = .ok j →
      n.takeUpdate c? f name j = pure u → f.take name (j.reading n.registry c?) = .ok u := by
  refine ⟨fun h => ?_, fun h => ?_, fun h => ?_⟩
  · have hstored : conductor.client.takeUpdate (some context) remarks "remarks"
        (.obj [("nova_object.name", .str "x")]) = pure named :=
      h conductor.client (some context) remarks "remarks" named named _ trivial rfl rfl rfl
    have hrun := congrFun hstored ()
    cases hrun
  · have hstored : conductor.client.takeUpdate (some context) mark "mark" (.str "U:ABC") =
        pure (.str "ABC") :=
      h conductor.client (some context) mark "mark" (.str "ABC") (.str "ABC") _ Rack.upper_lossless
        rfl (by decide) rfl rfl
    have hrun : (Except.ok (.str (String.ofList ("U:ABC".toList.map Char.toUpper))), ()) =
        ((.ok (.str "ABC"), ()) : Outcome Value × Unit) := congrFun hstored ()
    exact absurd (Value.str.inj (Except.ok.inj (Prod.mk.inj hrun).1)) (by decide)
  · have htaken := h (Endpoint.ofRegistry (Registry.empty.register stampSchema)) none stampField
      "stamp" (.entity stamp)
      (.entity ⟨stampSchema, ⟨1, 0, none⟩, none, [("value", .int 5)], []⟩) _ trivial rfl (by decide)
      rfl rfl
    cases htaken

end Ledger

end Skew

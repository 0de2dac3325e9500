import Skew.Proofs.Soundness
import Skew.Proofs.WrittenForms

/-!
# Entities that come back again

An entity sent on its own may come back as it was: equal, at the same version, with the same
changes. What is sent the second time is the entity that came back, by the fields of the
registry. A codec may write an equal value in another way, or not at all.

Where codecs invert themselves, the second trip ends as the first one
(`Entity.RoundTrips.again`). What a field of the registry stores it writes and takes back, as
soon as the wire form of each scalar determines it (`Kind.Keeps`). It does, since the scalar came
back equal the first time (`Kind.Trips.keeps`). The induction is on the entity that is sent first.
Inside it one goes down the kind by which the registry reads, beside the kind by which the entity
was written; where these differ, no codec may have written.
-/

namespace Skew

/-! ## Equality -/

/-- A value that is equal to some value is equal to itself. -/
theorem Value.beq_self_of_beq {v w : Value} (h : beq v w = true) : beq v v = true := by
  have hentries {es ds : List (String × Value)}
      (ih : ∀ p ∈ es, ∀ {w}, beq p.2 w = true → beq p.2 p.2 = true)
      (h : List.Forall₂ (fun p q => p.1 = q.1 ∧ beq p.2 q.2 = true) es ds) :
      List.Forall₂ (fun p q => p.1 = q.1 ∧ beq p.2 q.2 = true) es es := by
    refine List.forall₂_same.mpr fun p hp => ⟨rfl, ?_⟩
    obtain ⟨q, -, -, hpq⟩ := List.exists_of_mem_forall₂ h.flip hp
    exact ih p hp hpq
  induction v using Value.nested generalizing w with
  | null => rfl
  | bool b => exact beq_self_eq_true b
  | int n => exact beq_self_eq_true n
  | float x =>
      cases w <;> try cases h
      exact Float.beq_trans h (Float.beq_symm h)
  | str s => exact beq_self_eq_true s
  | datetime t => exact beq_self_eq_true t
  | list vs ih | tuple vs ih | set vs ih =>
      cases w <;> try cases h
      refine beqItems_self fun v hv => ?_
      obtain ⟨w, -, hvw⟩ := List.exists_of_mem_forall₂ (beqItems_iff.mp h).flip hv
      exact ih v hv hvw
  | map es ih =>
      cases w <;> try cases h
      exact beqEntries_iff.mpr (hentries ih (beqEntries_iff.mp h))
  | entity e ih =>
      cases w <;> try cases h
      exact Entity.beq_iff.mpr ⟨rfl, hentries ih (Entity.beq_iff.mp h).2⟩

/-! ## Entities on their own -/

theorem Entity.context?_of_fill [Codecs] {e d : Entity} {readings : Record Reading}
    (h : e.fill readings = .ok d) : d.context? = e.context? := by
  rw [fill_eq] at h
  generalize e.schema.fields = fields at h
  induction fields generalizing e with
  | nil => cases h; rfl
  | cons q fields ih =>
      rw [List.foldlM_cons] at h
      obtain ⟨next, hnext, h⟩ := Except.bind_eq_ok_iff.mp h
      refine (ih h).trans ?_
      rw [fillField] at hnext
      split at hnext
      · obtain ⟨v, -, hnext⟩ := Except.bind_eq_ok_iff.mp hnext
        obtain ⟨_, -, hnext⟩ := Except.bind_eq_ok_iff.mp hnext
        obtain ⟨_, -, hnext⟩ := Except.bind_eq_ok_iff.mp hnext
        cases hnext; rfl
      · cases hnext; rfl

section

variable [Codecs]

/-- What is read belongs to the context of the reader. -/
theorem Entity.context?_of_ofPrimitive {registry : Registry} {c? : Option Context}
    {p : Primitive} {d : Entity} (h : Entity.ofPrimitive registry c? p = .ok d) :
    d.context? = c? := by
  obtain ⟨_, -, h⟩ := Except.bind_eq_ok_iff.mp h
  obtain ⟨e, hfill, h⟩ := Except.bind_eq_ok_iff.mp h
  cases h
  exact Entity.context?_of_fill hfill

/-- An entity sent on its own, and read over the registry. -/
def Entity.trip (registry : Registry) (c? : Option Context) (e : Entity) : Outcome Entity := do
  let p ← e.writeFor none
  Entity.ofPrimitive registry c? p

/-- What comes back of an entity; the entity itself if nothing does. -/
def Entity.returned (registry : Registry) (c? : Option Context) (e : Entity) : Entity :=
  (e.trip registry c?).toOption.getD e

/-- Equal, at the same version, with the same changes. -/
structure Entity.SameAs (e d : Entity) : Prop where
  equal : (d == e) = true
  version : d.version = e.version
  whatChanged : d.whatChanged = e.whatChanged

/-- The entity, sent on its own, comes back as it was. -/
def Entity.RoundTrips (registry : Registry) (c? : Option Context) (e : Entity) : Prop :=
  ∃ d, e.trip registry c? = .ok d ∧ e.SameAs d

variable {registry : Registry} {c? : Option Context} {e : Entity}

theorem Entity.returned_of_trip {d : Entity} (h : e.trip registry c? = .ok d) :
    e.returned registry c? = d := by
  rw [returned, h]
  rfl

theorem Entity.RoundTrips.trip (h : e.RoundTrips registry c?) :
    e.trip registry c? = .ok (e.returned registry c?) := by
  obtain ⟨d, hd, -⟩ := h
  rw [hd, returned_of_trip hd]

theorem Entity.RoundTrips.sameAs (h : e.RoundTrips registry c?) :
    e.SameAs (e.returned registry c?) := by
  obtain ⟨d, hd, hsame⟩ := h
  exact returned_of_trip hd ▸ hsame

theorem Entity.RoundTrips.context? (h : e.RoundTrips registry c?) :
    (e.returned registry c?).context? = c? := by
  obtain ⟨p, -, hread⟩ := Except.bind_eq_ok_iff.mp h.trip
  exact Entity.context?_of_ofPrimitive hread

/-! Entities that were built by their fields make every trip. -/

theorem Entity.trip_of_sendable {e : Entity} (h : ∀ d ∈ e.graph, d.Sendable registry) :
    e.trip registry c? = .ok (e.received c?) := by
  obtain ⟨p, hp, hread⟩ : e.Returns registry c? := Entity.returns fun d hd => (h d hd).toWritable
  exact Except.bind_eq_ok_iff.mpr ⟨p, hp, hread⟩

theorem Entity.roundTrips_of_sendable {e : Entity} (h : ∀ d ∈ e.graph, d.Sendable registry) :
    e.RoundTrips registry c? := by
  have hmirrors := e.mirrors_received h c?
  exact ⟨e.received c?, Entity.trip_of_sendable h, hmirrors.values, hmirrors.version,
    hmirrors.whatChanged⟩

/-! ## Values on their way -/

/-- The value is written by one kind; what is written is read, and then stored, by another. -/
def Kind.Trips (registry : Registry) (c? : Option Context) (name : String) (k' k : Kind)
    (w v : Value) : Prop :=
  ∃ j u, w.write name k' = .ok j ∧ (j.reading registry c?).field name k = .ok u ∧ k.coerce u = .ok v

omit [Codecs] in
/-- One kind is the other, or names no codec. -/
def Kind.Meets (k' k : Kind) : Prop := k' = k ∨ k'.Plain

namespace Kind.Meets

omit [Codecs]

variable {k' k : Kind}

theorem ne_custom (h : k'.Meets k) (hk : ∀ c, k.bare ≠ .custom c) (c : String) :
    k'.bare ≠ .custom c := by
  rcases h with rfl | hplain
  · exact hk c
  · exact hplain.bare.ne_custom c

/-- The elements of a container are written by a kind that meets the one they are read by. -/
theorem element (h : k'.Meets k) (hbare : k.bare = k) {l' l : Kind}
    (hl' : k'.bare.element? = some l') (hl : k.element? = some l) : l'.Meets l := by
  rcases h with rfl | hplain
  · rw [hbare, hl] at hl'
    exact .inl (Option.some.inj hl').symm
  · exact .inr (hplain.bare.element hl')

/-- So are the contents of a map. -/
theorem entry {l l' : Kind} (h : k'.Meets (.dict l)) (hl' : k'.bare = .dict l') : l'.Meets l := by
  rcases h with rfl | hplain
  · cases hl'
    exact .inl rfl
  · have hdict : (Kind.dict l').Plain := hl' ▸ hplain.bare
    exact .inr hdict

end Kind.Meets

/-- No document but null is read as null, unless a codec does that. -/
theorem Json.eq_null_of_field {j : Json} {name : String} {k : Kind} (hk : k.Stable)
    (hcustom : ∀ c, k.bare ≠ .custom c)
    (h : (j.reading registry c?).field name k = .ok .null) : j = .null := by
  have hleaf (hj : j.isNull = false) (hread : j.readLeaf name k.bare = .ok .null) : False := by
    have hplain (h : inField name (k.bare.coerce (Value.ofJson j)) = .ok .null) : False := by
      have hnull := Kind.isNull_of_coerced hk.bare (inField_eq_ok_iff.mp h)
        ((Json.isNull_ofJson j).trans hj)
      cases hnull
    cases hb : k.bare with
    | custom c => exact hcustom c hb
    | list | set | dict | listOfObjects | object =>
        rw [hb] at hread
        cases hread
    | _ =>
        rw [hb] at hread hplain
        exact hplain hread
  cases j with
  | null => rfl
  | bool | int | float | str => exact (hleaf rfl h).elim
  | arr js =>
      rw [Json.reading] at h
      simp only at h
      split at h
      · obtain ⟨us, -, hlist⟩ := Except.map_eq_ok_iff.mp h
        cases hlist
      · obtain ⟨us, -, hset⟩ := Except.map_eq_ok_iff.mp h
        cases hset
      · obtain ⟨es, -, hlist⟩ := Except.bind_eq_ok_iff.mp h
        obtain ⟨ws, -, hlist⟩ := Except.map_eq_ok_iff.mp (inField_eq_ok_iff.mp hlist)
        cases hlist
      · exact (hleaf rfl h).elim
  | obj ms =>
      rw [Json.reading] at h
      simp only at h
      split at h
      · obtain ⟨us, -, hmap⟩ := Except.map_eq_ok_iff.mp h
        cases hmap
      · obtain ⟨e, -, hentity⟩ := Except.bind_eq_ok_iff.mp h
        obtain ⟨hnull, -⟩ := coerceObject_eq_ok_iff.mp (inField_eq_ok_iff.mp hentity)
        cases hnull
      · exact (hleaf rfl h).elim

/-- A document that is read as an entity of the type is read so by the kind. -/
theorem Json.field_object {j : Json} {e : Entity}
    (h : (j.reading registry c?).entity () = .ok e) (name : String) :
    (j.reading registry c?).field name (.object e.schema.name) = .ok (.entity e) := by
  cases j with
  | obj ms =>
      have hfield : ((Json.obj ms).reading registry c?).field name (.object e.schema.name) =
          ((Json.obj ms).reading registry c?).entity () >>= fun e' =>
            (Kind.object e.schema.name).accept name (.entity e') := by
        rw [Json.reading]
        rfl
      rw [hfield, h, Except.ok_bind]
      exact congrArg (inField name) (if_pos rfl)
  | _ => cases h

namespace Kind.Trips

variable {name : String} {k' k : Kind} {w v : Value}

/-- Items are written one by one, by a kind that meets the one they are read by. -/
theorem written (hmeets : k'.Meets k) (hbare : k.bare = k) {l : Kind} (hl : k.element? = some l)
    {ws : List Value} (hw : w.items? = some ws) {j : Json} (hwrite : w.write name k' = .ok j) :
    ∃ l' js, l'.Meets l ∧ j = .arr js ∧
      List.Forall₂ (fun w i => w.write name l' = .ok i) ws js := by
  have hcustom (c : String) : k.bare ≠ .custom c := by
    rw [hbare]
    rintro rfl
    cases hl
  obtain ⟨l', js, hl', hj, hwritten⟩ :=
    (Value.wireForm_of_write hwrite).of_items (hmeets.ne_custom hcustom) hw
  exact ⟨l', js, hmeets.element hbare hl' hl, hj, hwritten⟩

/-- What is written, read and stored item by item makes the trip item by item. -/
theorem items {l' l : Kind} {ws us vs : List Value} {js : List Json}
    (hwritten : List.Forall₂ (fun w i => w.write name l' = .ok i) ws js)
    (hread : js.mapM (fun i => (i.reading registry c?).field name l) = .ok us)
    (hcoerce : us.mapM l.coerce = .ok vs) : List.Forall₂ (Trips registry c? name l' l) ws vs := by
  have hsent : List.Forall₂ (fun w u => ∃ i, w.write name l' = .ok i ∧
      (i.reading registry c?).field name l = .ok u) ws us :=
    List.forall₂_of_forall₂ hwritten (List.mapM_eq_ok_iff.mp hread)
      fun _ _ i _ hwi hiu => ⟨i, hwi, hiu⟩
  exact List.forall₂_of_forall₂ hsent (List.mapM_eq_ok_iff.mp hcoerce)
    fun _ _ u _ ⟨i, hwi, hiu⟩ huv => ⟨i, u, hwi, hiu, huv⟩

/-- A list makes the trip item by item. -/
theorem listed (hmeets : k'.Meets (.list k)) {ws vs : List Value}
    (h : Trips registry c? name k' (.list k) (.list ws) (.list vs)) :
    ∃ l', l'.Meets k ∧ List.Forall₂ (Trips registry c? name l' k) ws vs := by
  obtain ⟨j, u, hwrite, hread, hcoerce⟩ := h
  obtain ⟨l', js, hl', rfl, hwritten⟩ := written hmeets rfl rfl rfl hwrite
  rw [Json.reading] at hread
  simp only [Kind.bare, Json.itemReadings_eq, List.mapM_map] at hread
  obtain ⟨us, hus, rfl⟩ := Except.map_eq_ok_iff.mp hread
  obtain ⟨vs', hvs, hsame⟩ := Except.map_eq_ok_iff.mp hcoerce
  cases hsame
  exact ⟨l', hl', items hwritten hus hvs⟩

/-- So does a set that loses no item. -/
theorem collected (hmeets : k'.Meets (.set k)) {ws vs : List Value}
    (h : Trips registry c? name k' (.set k) (.set ws) (.set vs)) (hlength : vs.length = ws.length) :
    ∃ l', l'.Meets k ∧ List.Forall₂ (Trips registry c? name l' k) ws vs := by
  obtain ⟨j, u, hwrite, hread, hcoerce⟩ := h
  obtain ⟨l', js, hl', rfl, hwritten⟩ := written hmeets rfl rfl rfl hwrite
  rw [Json.reading] at hread
  simp only [Kind.bare, Json.itemReadings_eq, List.mapM_map] at hread
  obtain ⟨us, hus, rfl⟩ := Except.map_eq_ok_iff.mp hread
  obtain ⟨vs', hvs, hsame⟩ := Except.map_eq_ok_iff.mp hcoerce
  cases hsame
  -- Neither the reading nor the storing can have found duplicates: an item would be missing.
  have hread := (List.mapM_eq_ok_iff.mp hus).length_eq
  have hstored := (List.mapM_eq_ok_iff.mp hvs).length_eq
  have hus' := (Value.dedup_sublist us).length_le
  have hvs' := (Value.dedup_sublist vs').length_le
  have hwrote := hwritten.length_eq
  have hall : Value.dedup us = us := (Value.dedup_sublist us).eq_of_length (by omega)
  have hall' : Value.dedup vs' = vs' := (Value.dedup_sublist vs').eq_of_length (by omega)
  rw [hall] at hvs
  rw [hall']
  exact ⟨l', hl', items hwritten hus hvs⟩

/-- A list of entities makes the trip entity by entity. -/
theorem composed {type : String} (hmeets : k'.Meets (.listOfObjects type)) {ws vs : List Value}
    (h : Trips registry c? name k' (.listOfObjects type) (.list ws) (.list vs)) :
    ∃ l', l'.Meets (.object type) ∧
      List.Forall₂ (Trips registry c? name l' (.object type)) ws vs := by
  obtain ⟨j, u, hwrite, hread, hcoerce⟩ := h
  obtain ⟨l', js, hl', rfl, hwritten⟩ := written hmeets rfl rfl rfl hwrite
  rw [Json.reading] at hread
  simp only [Kind.bare, Json.itemReadings_eq, List.mapM_map] at hread
  obtain ⟨es, hes, haccept⟩ := Except.bind_eq_ok_iff.mp hread
  obtain ⟨us, hus, rfl⟩ := Except.map_eq_ok_iff.mp (inField_eq_ok_iff.mp haccept)
  obtain ⟨rfl, htypes⟩ := mapM_coerceObject_eq_ok_iff.mp hus
  obtain ⟨vs', hvs, hsame⟩ := Except.map_eq_ok_iff.mp hcoerce
  cases hsame
  refine ⟨l', hl', items hwritten (List.mapM_eq_ok_iff.mpr ?_) hvs⟩
  rw [List.forall₂_map_right_iff]
  have htyped : List.Forall₂ (fun e d => e = d ∧ e.schema.name = type) es es :=
    List.forall₂_same.mpr fun e he => by
      obtain ⟨d, hd, htype⟩ := htypes _ (List.mem_map_of_mem he)
      cases hd
      exact ⟨rfl, htype⟩
  refine List.forall₂_of_forall₂ (List.mapM_eq_ok_iff.mp hes) htyped ?_
  rintro i - e _ hie ⟨rfl, rfl⟩
  exact Json.field_object hie name

/-- A map makes the trip entry by entry. -/
theorem mapped (hmeets : k'.Meets (.dict k)) {es ds : List (String × Value)}
    (h : Trips registry c? name k' (.dict k) (.map es) (.map ds)) :
    ∃ l', l'.Meets k ∧
      List.Forall₂ (fun e d => Trips registry c? name l' k e.2 d.2) es ds := by
  obtain ⟨j, u, hwrite, hread, hcoerce⟩ := h
  obtain ⟨l', ms, hl', rfl, hwritten⟩ :=
    (Value.wireForm_of_write hwrite).of_map (hmeets.ne_custom nofun)
  rw [Json.reading] at hread
  simp only [Kind.bare, Json.memberReadings_eq, mapEntriesM_map] at hread
  obtain ⟨us, hus, rfl⟩ := Except.map_eq_ok_iff.mp hread
  obtain ⟨ds', hds, hsame⟩ := Except.map_eq_ok_iff.mp hcoerce
  cases hsame
  have hsent : List.Forall₂ (fun e u => ∃ i, e.2.write name l' = .ok i ∧
      (i.reading registry c?).field name k = .ok u.2) es us := by
    refine List.forall₂_of_forall₂ hwritten (List.mapM_eq_ok_iff.mp hus) ?_
    rintro e - m _ ⟨-, hem⟩ hmu
    obtain ⟨u, hu, rfl⟩ := Except.map_eq_ok_iff.mp hmu
    exact ⟨m.2, hem, hu⟩
  refine ⟨l', hmeets.entry hl', List.forall₂_of_forall₂ hsent (List.mapM_eq_ok_iff.mp hds) ?_⟩
  rintro e - u _ ⟨i, hei, hiu⟩ hud
  obtain ⟨d, hd, rfl⟩ := Except.map_eq_ok_iff.mp hud
  exact ⟨i, u.2, hei, hiu, hd⟩

/-- An entity makes the trip as it does on its own. -/
theorem entity {type : String} (hmeets : k'.Meets (.object type)) {e d : Entity}
    (h : Trips registry c? name k' (.object type) (.entity e) (.entity d)) :
    e.trip registry c? = .ok d := by
  obtain ⟨j, u, hwrite, hread, hcoerce⟩ := h
  obtain ⟨type', p, -, rfl, hp⟩ :=
    (Value.wireForm_of_write hwrite).of_entity (hmeets.ne_custom nofun)
  rw [Json.field_toJson registry c? p name rfl] at hread
  obtain ⟨d', hd', haccept⟩ := Except.bind_eq_ok_iff.mp hread
  obtain ⟨rfl, -⟩ := coerceObject_eq_ok_iff.mp (inField_eq_ok_iff.mp haccept)
  obtain ⟨hentity, -⟩ := coerceObject_eq_ok_iff.mp hcoerce
  cases hentity
  exact Except.bind_eq_ok_iff.mpr ⟨p, hp, hd'⟩

/-- A nullable layer lets null pass, and nothing else. -/
theorem nullable (hmeets : k'.Meets (.nullable k))
    (h : Trips registry c? name k' (.nullable k) w v) :
    v = .null ∨ ∃ l, l.Meets k ∧ Trips registry c? name l k w v := by
  obtain ⟨j, u, hwrite, hread, hcoerce⟩ := h
  have hread : (j.reading registry c?).field name k = .ok u := by
    rw [← Json.field_bare] at hread ⊢
    exact hread
  rw [Kind.coerce] at hcoerce
  split at hcoerce
  · cases hcoerce
    exact Or.inl rfl
  · rcases hmeets with rfl | hplain
    · exact Or.inr ⟨k, .inl rfl, j, u, w.write_nullable name k ▸ hwrite, hread, hcoerce⟩
    · exact Or.inr ⟨k', .inr hplain, j, u, hwrite, hread, hcoerce⟩

/-- A number that makes the trip is finite. -/
theorem isFinite {nonNegative : Bool} (hmeets : k'.Meets (.float nonNegative)) {x : Float}
    (h : Trips registry c? name k' (.float nonNegative) (.float x) v) : x.isFinite = true := by
  obtain ⟨j, -, hwrite, -⟩ := h
  have hform := Value.wireForm_of_write hwrite
  have hcustom := hmeets.ne_custom nofun
  generalize k'.bare = l at hform hcustom
  cases hform with
  | custom => exact absurd rfl (hcustom _)
  | items _ hw => cases hw
  | scalar hscalar =>
      cases l <;> try cases hscalar
      exact (Json.ofFloat?_eq_some_iff.mp hscalar).1

/-- An instant that makes the trip is the one that its text is read as. -/
theorem datetime (hmeets : k'.Meets .datetime) {t : Calendar.Instant}
    (h : Trips registry c? name k' .datetime (.datetime t) v) :
    (Calendar.Instant.read? t.wireText).map .datetime = some v := by
  obtain ⟨j, u, hwrite, hread, hcoerce⟩ := h
  have hform := Value.wireForm_of_write hwrite
  have hcustom := hmeets.ne_custom nofun
  generalize k'.bare = l at hform hcustom
  cases hform with
  | custom => exact absurd rfl (hcustom _)
  | items _ hw => cases hw
  | scalar hscalar =>
      cases l <;> cases hscalar
      have htext : (Json.str t.wireText).Leaf := trivial
      rw [htext.field_eq (k := .datetime) trivial] at hread
      have hu : coerceDatetime (.str t.wireText) = .ok u := inField_eq_ok_iff.mp hread
      rw [coerceDatetime] at hu
      split at hu
      · next hfound =>
          cases hu
          cases hcoerce
          rw [hfound, Option.map_some]
      · cases hu

/-- **What comes back is kept.** The wire keeps a value that made the trip and is equal to what was
sent, if that holds of the entities that made the trip in it. -/
theorem keeps {R : Entity → Prop} (hmeets : k'.Meets k) (h : Trips registry c? name k' k w v)
    (hequal : Value.beq v w = true)
    (hR : ∀ x ∈ w.graph, ∀ y, x.trip registry c? = .ok y → (y == x) = true → R y) :
    k.Keeps R v := by
  have hitem {l : Kind} {ws vs : List Value} {l' : Kind} (hl' : l'.Meets l)
      (htrips : List.Forall₂ (Trips registry c? name l' l) ws vs)
      (hequal : Value.beqItems vs ws = true)
      (hR : ∀ x ∈ Value.itemGraph ws, ∀ y, x.trip registry c? = .ok y → (y == x) = true → R y)
      (ih : ∀ {l'} {w v : Value}, l'.Meets l → Trips registry c? name l' l w v →
        Value.beq v w = true →
        (∀ x ∈ w.graph, ∀ y, x.trip registry c? = .ok y → (y == x) = true → R y) →
        l.Keeps R v) : ∀ v ∈ vs, l.Keeps R v := by
    intro v hv
    obtain ⟨w, hw⟩ := htrips.exists_mem_zip_right hv
    refine ih hl' (List.forall₂_zip htrips hw)
      (List.forall₂_zip (Value.beqItems_iff.mp hequal).flip hw) fun x hx => hR x ?_
    rw [Value.itemGraph_eq]
    exact List.mem_flatMap.mpr ⟨w, (List.of_mem_zip hw).1, hx⟩
  induction k generalizing k' w v with
  | nullable k ih =>
      rcases h.nullable hmeets with rfl | ⟨l, hl, h⟩
      · exact Kind.keeps_null _
      · exact ih hl h hequal hR
  | float nonNegative =>
      cases v with
      | float x =>
          cases w <;> try cases hequal
          next y =>
            have hy : y.isFinite = true := h.isFinite hmeets
            exact (Float.isFinite_of_beq hequal).trans hy
      | _ => trivial
  | datetime =>
      cases v with
      | datetime t =>
          cases w <;> try cases hequal
          next s =>
            obtain rfl : t = s := by simpa [Value.beq] using hequal
            obtain ⟨t', ht', hsame⟩ := Option.map_eq_some_iff.mp (h.datetime hmeets)
            cases hsame
            exact ht'
      | _ => trivial
  | object type =>
      cases v with
      | entity d =>
          cases w <;> try cases hequal
          next e => exact hR e e.self_mem_graph d (h.entity hmeets) hequal
      | _ => trivial
  | list l ih =>
      cases v with
      | list vs =>
          cases w <;> try cases hequal
          next ws =>
            obtain ⟨l', hl', htrips⟩ := h.listed hmeets
            exact hitem hl' htrips hequal hR ih
      | _ => trivial
  | set l ih =>
      cases v with
      | set vs =>
          cases w <;> try cases hequal
          next ws =>
            obtain ⟨l', hl', htrips⟩ := h.collected hmeets (Value.beqItems_iff.mp hequal).length_eq
            exact hitem hl' htrips hequal hR ih
      | _ => trivial
  | dict l ih =>
      cases v with
      | map ds =>
          cases w <;> try cases hequal
          next es =>
            obtain ⟨l', hl', htrips⟩ := h.mapped hmeets
            intro d hd
            obtain ⟨e, he⟩ := htrips.exists_mem_zip_right hd
            have hed := List.forall₂_zip (Value.beqEntries_iff.mp hequal).flip he
            refine ih hl' (List.forall₂_zip htrips he) hed.2 fun x hx => hR x ?_
            rw [Value.graph, Value.entryGraph_eq]
            exact List.mem_flatMap.mpr ⟨e, (List.of_mem_zip he).1, hx⟩
      | _ => trivial
  | listOfObjects type =>
      cases v with
      | list vs =>
          cases w <;> try cases hequal
          next ws =>
            obtain ⟨l', hl', htrips⟩ := h.composed hmeets
            intro d hd
            refine hitem hl' htrips hequal hR ?_ (.entity d) hd
            intro l' w v hl' h hequal hR
            cases v with
            | entity d =>
                cases w <;> try cases hequal
                next e => exact hR e e.self_mem_graph d (h.entity hl') hequal
            | _ => trivial
      | _ => trivial
  | _ => trivial

end Kind.Trips

/-- A field keeps what it took for a value that is equal to it. -/
theorem Field.keeps_of_take {R : Entity → Prop} {f : Field} {k' : Kind} (hk : f.kind.Stable)
    (hmeets : k'.Meets f.kind) {name : String} {w v : Value} {j : Json}
    (hwrite : w.write name k' = .ok j) (htake : f.take name (j.reading registry c?) = .ok v)
    (hequal : Value.beq v w = true)
    (hR : ∀ x ∈ w.graph, ∀ y, x.trip registry c? = .ok y → (y == x) = true → R y) :
    f.kind.Keeps R v := by
  by_cases hcustom : ∃ c, f.kind.bare = .custom c
  · obtain ⟨c, hc⟩ := hcustom
    rw [← Kind.keeps_bare_iff, hc]
    trivial
  · rw [not_exists] at hcustom
    obtain ⟨u, hread, hcoerce⟩ := Except.bind_eq_ok_iff.mp htake
    obtain ⟨x, hfield, hread⟩ := Except.bind_eq_ok_iff.mp hread
    cases hnull : x.isNull with
    | true =>
        -- Only null is read as null, and only null is written as null.
        obtain rfl := Value.eq_null_of_isNull hnull
        obtain rfl := Json.eq_null_of_field hk hcustom hfield
        obtain rfl := (Value.wireForm_of_write hwrite).eq_null (hmeets.ne_custom hcustom)
        cases v <;> try cases hequal
        exact Kind.keeps_null _
    | false =>
        rw [hnull, if_neg (fun h => nomatch h.1)] at hread
        cases hread
        rw [f.coerce_of_not_null hnull] at hcoerce
        have htrips : Kind.Trips registry c? name k' f.kind w v :=
          ⟨j, u, hwrite, hfield, inField_eq_ok_iff.mp hcoerce⟩
        exact htrips.keeps hmeets hequal hR

/-! ## The second trip -/

/-- The fields by which a registry reads the entity invert what they store, and none of them reads
by another kind what a codec wrote. -/
structure Entity.Understood (registry : Registry) (e : Entity) : Prop where
  schema : e.schema.WellFormed
  fields : ∀ s, registry.resolve e.schema.name e.version = .ok s → ∀ n f, s.field? n = some f →
    f.kind.Lossless ∧ f.kind.Stable ∧ ∀ f', e.schema.field? n = some f' → f'.kind.Meets f.kind

/-- An entity of a registered schema is understood, if its codecs invert what they store. -/
theorem Entity.understood_of_known {e : Entity} (hschema : e.schema.WellFormed)
    (hknown : registry.resolve e.schema.name e.version = .ok e.schema)
    (hfields : ∀ p ∈ e.schema.fields, p.2.kind.Lossless ∧ p.2.kind.Stable) :
    e.Understood registry where
  schema := hschema
  fields s hs n f hf := by
    cases hknown.symm.trans hs
    obtain ⟨hlossless, hstable⟩ := hfields _ (Record.mem_of_get? hf)
    refine ⟨hlossless, hstable, fun f' hf' => ?_⟩
    cases hf.symm.trans hf'
    exact .inl rfl

/-- What came back of an entity, and is equal to it, returns. -/
theorem Entity.returns_of_trip (hregistry : registry.WellFormed) {e d : Entity}
    (he : ∀ x ∈ e.graph, x.Understood registry) (htrip : e.trip registry c? = .ok d)
    (hequal : (d == e) = true) : d.Returns registry c? := by
  induction e using Entity.nested generalizing d with
  | h e ih =>
      obtain ⟨p, hp, hread⟩ := Except.bind_eq_ok_iff.mp htrip
      replace hp : e.write = .ok p := hp
      rw [Entity.write_eq] at hp
      obtain ⟨data, hdata, rfl⟩ := Except.map_eq_ok_iff.mp hp
      have hd := (Entity.ofPrimitive_eq_ok_iff hregistry).mp hread
      have hunderstood := he e e.self_mem_graph
      obtain ⟨hname, hvalues⟩ := Entity.beq_iff.mp hequal
      have hversion : d.version = e.version := by
        have hv := hd.version
        rw [Entity.wrap, Version.ofText_text] at hv
        exact (Except.ok.inj hv).symm
      have hschema : registry.resolve e.schema.name e.version = .ok d.schema := hversion ▸ hd.schema
      have hcoherent := (hd.wellFormed hregistry).toCoherent
      refine hcoherent.returns (by rw [hname, hversion, hschema]) fun q hq f hf => ?_
      have hget := Record.get?_of_mem hcoherent.values.nodup hq
      obtain ⟨g, j, hg, hj, htake⟩ := hd.exists_take hget
      cases hf.symm.trans hg
      obtain ⟨f', w, hf', hw, hwrite⟩ :=
        Entity.exists_of_get?_data hunderstood.schema.fields hdata hj
      obtain ⟨hlossless, hstable, hmeets⟩ := hunderstood.fields _ hschema q.1 f hf
      have hqw : Value.beq q.2 w = true := by
        rcases Record.get?_of_forall₂ hvalues q.1 with ⟨hnone, -⟩ | ⟨v, w', hv, hw', hvw⟩
        · cases hnone.symm.trans hget
        · cases hv.symm.trans hget
          cases hw'.symm.trans hw
          exact hvw
      have hmem := Record.mem_of_get? hw
      refine Field.reads_back (Field.coerce_take hstable htake) hlossless ?_ q.1
      refine Field.keeps_of_take hstable (hmeets f' hf') hwrite htake hqw fun x hx y hy hyx => ?_
      exact ih _ hmem x hx
        (fun z hz => Entity.forall_graph_values he _ hmem z (Value.graph_trans hx hz)) hy hyx

/-- **The second trip.** An entity that came back as it was comes back as it was once more. -/
theorem Entity.RoundTrips.again (hregistry : registry.WellFormed)
    (he : ∀ x ∈ e.graph, x.Understood registry) (h : e.RoundTrips registry c?) :
    (e.returned registry c?).RoundTrips registry c? := by
  have hsame := h.sameAs
  have htrip := h.trip
  generalize e.returned registry c? = d at hsame htrip
  obtain ⟨p, hp, hread⟩ := Entity.returns_of_trip hregistry he htrip hsame.equal
  refine ⟨d.received c?, Except.bind_eq_ok_iff.mpr ⟨p, hp, hread⟩, ?_, d.received_version c?, ?_⟩
  · have hself : Value.beq (.entity d) (.entity d) = true :=
      Value.beq_self_of_beq (v := .entity d) (w := .entity e) hsame.equal
    have hequal := Value.beq_received none none ((Value.entity d).received c?) (.entity d)
    rw [Value.received_received, Value.beq_received, hself] at hequal
    exact hequal.symm
  · obtain ⟨p, -, hread⟩ := Except.bind_eq_ok_iff.mp htrip
    have hd := ((Entity.ofPrimitive_eq_ok_iff hregistry).mp hread).wellFormed hregistry
    rw [d.whatChanged_received, NameSet.ofList_eq_self hd.whatChanged]

end

end Skew

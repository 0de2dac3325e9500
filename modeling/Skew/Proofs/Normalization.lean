import Skew.Proofs.Returning

/-!
# What the wire makes of a value

A value that travels on its own is read by its shape, and the shape on the wire is
poorer than that of the value: tuples and sets come back as lists, instants as texts.
`Value.normal` is that loss, and nothing else is lost (`Endpoint.carries_normal`): maps
keep their keys, and an entity comes back as it comes back on its own
(`Entity.returned`), wherever it stands. The induction is on the nesting of the value.
Entities are leaves of it, so nothing has to be known of their schemas or codecs except
that each of them makes the trip. For a second trip, that the codecs invert what they store.

A map is told from an entity by one key. That no map has the key is the one condition
on the shape; where a map has it, its document is taken for a primitive.
-/

namespace Skew

/-! ## Leaves -/

/-- A condition on the floats and one on the entities that stand in a value. -/
def Value.Leaf (P : Float → Prop) (Q : Entity → Prop) : Value → Prop
  | .float x => P x
  | .entity e => Q e
  | _ => True

theorem Value.forall_leaf_iff {P : Float → Prop} {Q : Entity → Prop} {v : Value} :
    (∀ a ∈ v.atoms, a.Leaf P Q) ↔
      (∀ x, .float x ∈ v.atoms → P x) ∧ ∀ e, .entity e ∈ v.atoms → Q e := by
  constructor
  · exact fun h => ⟨fun x hx => h _ hx, fun e he => h _ he⟩
  · rintro ⟨hfloat, hentity⟩ a ha
    cases a with
    | float x => exact hfloat x ha
    | entity e => exact hentity e ha
    | _ => trivial

/-! ## Normal forms -/

mutual

/-- The value that a shape on the wire stands for: no tuples, no sets, no instants. The
entities are replaced by `f`. -/
def Value.normal (f : Entity → Entity) : Value → Value
  | .datetime t => .str t.wireText
  | .list vs => .list (Value.normalItems f vs)
  | .tuple vs => .list (Value.normalItems f vs)
  | .set vs => .list (Value.normalItems f vs)
  | .map es => .map (Value.normalEntries f es)
  | .entity e => .entity (f e)
  | v => v

def Value.normalItems (f : Entity → Entity) : List Value → List Value
  | [] => []
  | v :: vs => v.normal f :: Value.normalItems f vs

def Value.normalEntries (f : Entity → Entity) : List (String × Value) → List (String × Value)
  | [] => []
  | (n, v) :: es => (n, v.normal f) :: Value.normalEntries f es

end

namespace Value

variable (f g : Entity → Entity)

theorem normalItems_eq (vs : List Value) : normalItems f vs = vs.map (normal f) := by
  induction vs with
  | nil => rfl
  | cons v vs ih => rw [normalItems, ih, List.map_cons]

theorem normalEntries_eq (es : List (String × Value)) :
    normalEntries f es = es.map fun e => (e.1, e.2.normal f) := by
  induction es with
  | nil => rfl
  | cons e es ih => rw [normalEntries, ih, List.map_cons]

/-- Normal forms have no other normal form: a second pass only touches entities. -/
theorem normal_normal (v : Value) : (v.normal f).normal g = v.normal (g ∘ f) := by
  induction v using Value.nested with
  | null | bool | int | float | str | datetime | entity => rfl
  | list vs ih | tuple vs ih | set vs ih =>
      simp only [normal, normalItems_eq, List.map_map]
      exact congrArg list (List.map_congr_left ih)
  | map es ih =>
      simp only [normal, normalEntries_eq, List.map_map]
      exact congrArg map (List.map_congr_left fun e he => congrArg (e.1, ·) (ih e he))

/-- The atoms stay where they are. -/
theorem atoms_normal (v : Value) : (v.normal f).atoms = v.atoms.map (normal f) := by
  induction v using Value.nested with
  | null | bool | int | float | str | datetime | entity => rfl
  | list vs ih | tuple vs ih | set vs ih =>
      simp only [normal, normalItems_eq, atoms, itemAtoms_eq, List.flatMap_map, List.map_flatMap]
      exact List.flatMap_congr ih
  | map es ih =>
      simp only [normal, normalEntries_eq, atoms, entryAtoms_eq, List.flatMap_map,
        List.map_flatMap]
      exact List.flatMap_congr ih

theorem keys_normal (v : Value) : (v.normal f).keys = v.keys := by
  induction v using Value.nested with
  | null | bool | int | float | str | datetime | entity => rfl
  | list vs ih | tuple vs ih | set vs ih =>
      simp only [normal, normalItems_eq, keys, itemKeys_eq, List.flatMap_map]
      exact List.flatMap_congr ih
  | map es ih =>
      simp only [normal, normalEntries_eq, keys, entryKeys_eq, List.flatMap_map]
      exact List.flatMap_congr fun e he => congrArg _ (ih e he)

theorem float_mem_atoms_normal {v : Value} {x : Float} (h : .float x ∈ (v.normal f).atoms) :
    .float x ∈ v.atoms := by
  rw [atoms_normal, List.mem_map] at h
  obtain ⟨a, ha, hx⟩ := h
  cases a <;> cases hx
  exact ha

theorem entity_mem_atoms_normal {v : Value} {d : Entity} (h : .entity d ∈ (v.normal f).atoms) :
    ∃ e, .entity e ∈ v.atoms ∧ f e = d := by
  rw [atoms_normal, List.mem_map] at h
  obtain ⟨a, ha, hd⟩ := h
  cases a <;> cases hd
  exact ⟨_, ha, rfl⟩

variable {f g}

theorem beqItems_map {vs : List Value} {p q : Value → Value}
    (h : ∀ v ∈ vs, beq (p v) (q v) = true) : beqItems (vs.map p) (vs.map q) = true := by
  induction vs with
  | nil => rfl
  | cons v vs ih =>
      obtain ⟨hv, hvs⟩ := List.forall_mem_cons.mp h
      simp only [List.map_cons, beqItems, hv, ih hvs, Bool.and_self]

theorem beqEntries_mapValues {es : List (String × Value)} {p q : Value → Value}
    (h : ∀ e ∈ es, beq (p e.2) (q e.2) = true) :
    beqEntries (es.map fun e => (e.1, p e.2)) (es.map fun e => (e.1, q e.2)) = true := by
  induction es with
  | nil => rfl
  | cons e es ih =>
      obtain ⟨he, hes⟩ := List.forall_mem_cons.mp h
      simp only [List.map_cons, beqEntries, he, ih hes, beq_self_eq_true, Bool.and_self]

/-- Normal forms are equal when the entities that stand in them are. -/
theorem normal_beq_normal {v : Value}
    (h : ∀ a ∈ v.atoms, a.Leaf (fun x => x.isFinite = true) fun e => (f e == g e) = true) :
    beq (v.normal f) (v.normal g) = true := by
  induction v using Value.nested with
  | null => rfl
  | bool b => exact beq_self_eq_true b
  | int i => exact beq_self_eq_true i
  | float x => exact Float.beq_self_of_isFinite (h _ List.mem_cons_self)
  | str s => exact beq_self_eq_true s
  | datetime t => exact beq_self_eq_true t.wireText
  | list vs ih | tuple vs ih | set vs ih =>
      rw [normal, normal, normalItems_eq, normalItems_eq, beq]
      exact beqItems_map fun v hv => ih v hv (forall_atoms_items h v hv)
  | map es ih =>
      rw [normal, normal, normalEntries_eq, normalEntries_eq, beq]
      exact beqEntries_mapValues fun e he => ih e he (forall_atoms_entries h e he)
  | entity e _ => exact h _ List.mem_cons_self

end Value

/-! ## The trip of a value -/

section

variable [Codecs] {registry : Registry} {c? : Option Context} {σ : Type} (n : Endpoint σ)

/-- A value whose entities make the trip is carried to its normal form. -/
theorem Endpoint.carries_normal_of_trips {f : Entity → Entity} {v : Value}
    (hatoms : ∀ a ∈ v.atoms, a.Leaf (fun x => x.isFinite = true)
      fun e => e.trip n.registry c? = .ok (f e))
    (hkeys : Primitive.nameKey ∉ v.keys) : n.Carries c? v (v.normal f) := by
  induction v using Value.nested with
  | null | bool | str | datetime => exact ⟨_, rfl, rfl⟩
  | int i =>
      refine ⟨_, rfl, ?_⟩
      rw [Endpoint.deserialize, Value.ofInt_toInt]
      rfl
  | float x =>
      have hx : x.isFinite = true := hatoms _ List.mem_cons_self
      exact ⟨.float x, by rw [Value.serialize, if_pos hx], rfl⟩
  | list vs ih | tuple vs ih | set vs ih =>
      obtain ⟨js, hjs, hback⟩ := n.exists_items_carried fun v hv =>
        ih v hv (Value.forall_atoms_items hatoms v hv) (Value.notMem_keys_of_items hkeys v hv)
      refine ⟨.arr js, by rw [Value.serialize, hjs, Except.ok_map], ?_⟩
      rw [Value.normal, Value.normalItems_eq, hback]
  | map es ih =>
      obtain ⟨hname, hkeys⟩ := Value.notMem_keys_of_entries hkeys
      obtain ⟨ms, hms, hback⟩ := n.exists_entries_carried hname fun e he =>
        ih e he (Value.forall_atoms_entries hatoms e he) (hkeys e he)
      refine ⟨.obj ms, by rw [Value.serialize, hms, Except.ok_map], ?_⟩
      rw [Value.normal, Value.normalEntries_eq, hback]
  | entity e _ =>
      obtain ⟨p, hp, hread⟩ := Except.bind_eq_ok_iff.mp (hatoms _ List.mem_cons_self)
      have hwrite : e.write = .ok p := hp
      exact ⟨p.toJson, by rw [Value.serialize, hwrite, Except.ok_map], n.deserialize_toJson hread⟩

/-- The values that the wire takes: the floats that stand in them are numbers, no map can
be taken for an entity, and the entities that stand in them make the trip on their own. -/
structure Value.Travels (registry : Registry) (c? : Option Context) (v : Value) : Prop where
  finite : ∀ x, .float x ∈ v.atoms → x.isFinite = true
  keys : Primitive.nameKey ∉ v.keys
  entities : ∀ e, .entity e ∈ v.atoms → e.RoundTrips registry c?

/-- The other value is the normal form of the value. Each entity in it is what comes back of
the original on its own: equal, at the same version, with the same changes, and bound to
the context. -/
structure Value.Lands (registry : Registry) (c? : Option Context) (v w : Value) : Prop where
  normal : w = v.normal (Entity.returned registry c?)
  equal : (w == v.normal id) = true
  entities : ∀ e, .entity e ∈ v.atoms → e.trip registry c? = .ok (e.returned registry c?) ∧
    e.SameAs (e.returned registry c?) ∧ (e.returned registry c?).context? = c?

theorem Value.Travels.carries {v : Value} (h : v.Travels n.registry c?) :
    ∃ w, n.Carries c? v w ∧ v.Lands n.registry c? w := by
  refine ⟨v.normal (Entity.returned n.registry c?), ?_, rfl, ?_, ?_⟩
  · exact n.carries_normal_of_trips
      (Value.forall_leaf_iff.mpr ⟨h.finite, fun e he => (h.entities e he).trip⟩) h.keys
  · exact Value.normal_beq_normal
      (Value.forall_leaf_iff.mpr ⟨h.finite, fun e he => (h.entities e he).sameAs.equal⟩)
  · exact fun e he =>
      ⟨(h.entities e he).trip, (h.entities e he).sameAs, (h.entities e he).context?⟩

/-- What has landed is in normal form and still travels, if its entities do. -/
theorem Value.Lands.travels {v w : Value} (h : v.Lands registry c? w) (hv : v.Travels registry c?)
    (hw : ∀ d, .entity d ∈ w.atoms → d.RoundTrips registry c?) : w.Travels registry c? := by
  obtain rfl := h.normal
  refine ⟨fun x hx => hv.finite x (Value.float_mem_atoms_normal _ hx), ?_, hw⟩
  rw [Value.keys_normal]
  exact hv.keys

theorem Value.Lands.normal_id {v w : Value} (h : v.Lands registry c? w) : w.normal id = w := by
  rw [h.normal, Value.normal_normal, Function.id_comp]

omit n in
/-- A value is sent unless a float or an entity in it cannot be. -/
theorem Value.exists_serialize_iff {v : Value} :
    (∃ j, v.serialize = .ok j) ↔ ∀ a ∈ v.atoms,
      a.Leaf (fun x => x.isFinite = true) fun e => ∃ p, e.writeFor none = .ok p := by
  induction v using Value.nested with
  | null | bool | int | str | datetime =>
      exact ⟨fun _ a ha => by cases List.mem_singleton.mp ha; trivial, fun _ => ⟨_, rfl⟩⟩
  | float x =>
      simp only [atoms, List.forall_mem_singleton, serialize, Leaf]
      split <;> simp [*]
  | list vs ih | tuple vs ih | set vs ih =>
      rw [serialize, Except.exists_map_eq_ok_iff, serializeItems_eq, List.exists_mapM_eq_ok_iff,
        atoms, itemAtoms_eq, List.forall_mem_flatMap]
      exact forall₂_congr ih
  | map es ih =>
      rw [serialize, Except.exists_map_eq_ok_iff, serializeEntries_eq,
        exists_mapEntriesM_eq_ok_iff, atoms, entryAtoms_eq, List.forall_mem_flatMap]
      exact forall₂_congr ih
  | entity e _ =>
      simp only [atoms, List.forall_mem_singleton, Leaf]
      exact Except.exists_map_eq_ok_iff

omit n in
theorem Value.exists_serialize_error_iff {v : Value} :
    (∃ err, v.serialize = .error err) ↔
      (∃ x, .float x ∈ v.atoms ∧ x.isFinite = false) ∨
        ∃ e, .entity e ∈ v.atoms ∧ ∃ err, e.writeFor none = .error err := by
  rw [Except.exists_eq_error_iff, exists_serialize_iff, forall_leaf_iff, not_and_or]
  simp only [Except.exists_eq_error_iff, not_forall, exists_prop, Bool.not_eq_true]

omit n in
/-- What has landed makes the trip again, if codecs invert themselves in the entities. -/
theorem Value.Lands.roundTrips {v w : Value} (h : v.Lands registry c? w)
    (hv : v.Travels registry c?) (hregistry : registry.WellFormed)
    (hentities : ∀ e, .entity e ∈ v.atoms → ∀ d ∈ e.graph, d.Understood registry) :
    ∀ d, .entity d ∈ w.atoms → d.RoundTrips registry c? := by
  intro d hd
  obtain rfl := h.normal
  obtain ⟨e, he, rfl⟩ := Value.entity_mem_atoms_normal _ hd
  exact (hv.entities e he).again hregistry (hentities e he)

/-- **Values on the wire.** A value that travels is carried to its normal form: what it lands as is
in normal form and equal. A second trip changes nothing, if codecs invert themselves in the
entities; otherwise what came back need not come back again. Of an arbitrary value, only the floats
and the entities that stand in it can fail to be sent. -/
theorem Endpoint.carries_normal (c? : Option Context) (v : Value) :
    (v.Travels n.registry c? →
      ∃ w, n.Carries c? v w ∧ v.Lands n.registry c? w ∧ w.normal id = w ∧
        (n.registry.WellFormed →
          (∀ e, .entity e ∈ v.atoms → ∀ d ∈ e.graph, d.Understood n.registry) →
          ∃ w', n.Carries c? w w' ∧ w.Lands n.registry c? w' ∧ (w' == w) = true)) ∧
    ((∃ err, v.serialize = .error err) ↔
      (∃ x, .float x ∈ v.atoms ∧ x.isFinite = false) ∨
        ∃ e, .entity e ∈ v.atoms ∧ ∃ err, e.writeFor none = .error err) := by
  refine ⟨fun hv => ?_, Value.exists_serialize_error_iff⟩
  obtain ⟨w, hcarries, hlands⟩ := hv.carries n
  refine ⟨w, hcarries, hlands, hlands.normal_id, fun hregistry hentities => ?_⟩
  have hw := hlands.travels hv (hlands.roundTrips hv hregistry hentities)
  obtain ⟨w', hcarries', hlands'⟩ := hw.carries n
  exact ⟨w', hcarries', hlands', hlands.normal_id ▸ hlands'.equal⟩

end

theorem Char.toUpper_toUpper (c : Char) : c.toUpper.toUpper = c.toUpper := by
  unfold Char.toUpper
  split
  · next h =>
      refine dif_neg fun h' => ?_
      have hlow := UInt32.le_iff_toNat_le.mp h.1
      have hhigh := UInt32.le_iff_toNat_le.mp h.2
      have hlow' := UInt32.le_iff_toNat_le.mp h'.1
      rw [UInt32.toNat_add] at hlow'
      have ha : ('a'.val).toNat = 97 := rfl
      have hz : ('z'.val).toNat = 122 := rfl
      have hshift : ('A'.val - 'a'.val).toNat = 2 ^ 32 - 32 := rfl
      omega
  · rfl

/-! ## A parcel

Every shape that the wire does not have, around an entity. -/

namespace Parcel

attribute [local instance] Rack.codecs

def parcel : Value :=
  .tuple [.set [.int 1, .int 2], .datetime ⟨0, 0⟩, .float 0.5,
    .map [("rack", .entity Rack.rack), ("spare", .null)]]

def office : Endpoint Unit := .ofRegistry Rack.types

def courier : Context := .ofUser "r1" "u" "p"

theorem parcel_entities (e : Entity) (he : .entity e ∈ parcel.atoms) : e = Rack.rack := by
  simpa [parcel, Value.atoms, Value.itemAtoms, Value.entryAtoms] using he

theorem parcel_travels : parcel.Travels Rack.types (some courier) where
  finite x hx := by
    obtain rfl : x = 0.5 := by
      simpa [parcel, Value.atoms, Value.itemAtoms, Value.entryAtoms] using hx
    rfl
  keys := by decide
  entities e he := by
    rw [parcel_entities e he]
    exact Entity.roundTrips_of_sendable Rack.graph_sendable

theorem upper_stable : Rack.upper.Stable where
  again v w h := by
    cases v <;> cases h
    simp only [Rack.upper, String.toList_ofList, List.map_map]
    rw [show Char.toUpper ∘ Char.toUpper = Char.toUpper from funext Char.toUpper_toUpper]
  notNull v w h := by cases v <;> cases h; rfl

theorem types_wellFormed : Rack.types.WellFormed :=
  (Registry.wellFormed_empty.register (s := Rack.hostSchema) (by decide)).register
    (s := Rack.rackSchema) (by decide)

theorem rack_understood : ∀ d ∈ Rack.rack.graph, d.Understood Rack.types := by
  refine List.forall_mem_cons.mpr ⟨?_, List.forall_mem_cons.mpr ⟨?_, nofun⟩⟩
  · refine Entity.understood_of_known (by decide) rfl fun p hp => ?_
    simp only [Rack.rackSchema, List.mem_cons, List.not_mem_nil, or_false] at hp
    rcases hp with rfl | rfl <;> exact ⟨trivial, trivial⟩
  · refine Entity.understood_of_known (by decide) rfl fun p hp => ?_
    simp only [Rack.hostSchema, List.mem_cons, List.not_mem_nil, or_false] at hp
    rcases hp with rfl | rfl | rfl
    · exact ⟨Rack.upper_lossless, upper_stable⟩
    · exact ⟨trivial, trivial⟩
    · exact ⟨trivial, trivial⟩

theorem parcel_carried : parcel.Travels office.registry (some courier) ∧
    office.registry.WellFormed ∧
    (∀ e, .entity e ∈ parcel.atoms → ∀ d ∈ e.graph, d.Understood office.registry) ∧
    ∃ w, office.Carries (some courier) parcel w ∧
      parcel.Lands office.registry (some courier) w ∧
      ∃ w', office.Carries (some courier) w w' ∧ (w' == w) = true := by
  have hentities (e : Entity) (he : .entity e ∈ parcel.atoms) :
      ∀ d ∈ e.graph, d.Understood office.registry := parcel_entities e he ▸ rack_understood
  obtain ⟨w, hcarries, hlands, -, hagain⟩ :=
    (office.carries_normal (some courier) parcel).1 parcel_travels
  obtain ⟨w', hcarries', -, hequal⟩ := hagain types_wellFormed hentities
  exact ⟨parcel_travels, types_wellFormed, hentities, w, hcarries, hlands, w', hcarries', hequal⟩

end Parcel

/-! ## A level

A codec may let a number come back equal that it does not write again: zero comes back as negative
zero. And at an endpoint that forgives a newer patch, an entity comes back equal at an older
version. -/

namespace Tide

/-- A codec for levels: a level turns its sign on the way in, and a negative one is not written. -/
def levels : Codec where
  coerce
    | .float x => .ok (.float x)
    | v => .error ("no level in " ++ v.shape.name)
  write
    | .float x => if 1 / x < 0 then .error "negative level" else .ok (.float x)
    | _ => .error "not a level"
  read
    | .float x => .ok (.float (-x))
    | _ => .error "not a level"

@[reducible] def codecs : Codecs := ⟨fun _ => levels⟩

attribute [local instance] codecs

def schema : Schema :=
  ⟨"Tide", ⟨1, 0, none⟩, [("level", ⟨.custom "Level", false, none⟩)], [], [], none⟩

def types : Registry := ⟨[("Tide", [schema])]⟩

def station : Endpoint Unit := .ofRegistry types

def tide (version : Version) (level : Float) : Entity :=
  ⟨schema, version, none, [("level", .float level)], []⟩

theorem write_level : levels.write (.float 0) = .ok (.float 0) := by
  have hsign : ¬ (1 : Float) / 0 < 0 := by decide
  simp only [levels, if_neg hsign]

theorem write_negative : levels.write (.float (-0)) = .error "negative level" := by
  have hsign : (1 : Float) / (-0) < 0 := by decide
  simp only [levels, if_pos hsign]

theorem write_tide (version : Version) (x : Float) : (tide version x).write =
    (((levels.write (.float x)).mapError fun r => .invalidValue "level" (.codec r)).map fun j =>
      (tide version x).wrap version [("level", j)]) := by
  rw [Entity.write_eq, Entity.data_of_single rfl rfl, Value.write_custom rfl]
  generalize levels.write (.float x) = r
  cases r <;> rfl

theorem sent_tide (version : Version) :
    (tide version 0).write = .ok ((tide version 0).wrap version [("level", .float 0)]) := by
  rw [write_tide, write_level]
  rfl

theorem trip_tide : (tide ⟨1, 0, none⟩ 0).trip types none = .ok (tide ⟨1, 0, none⟩ (-0)) :=
  Except.bind_eq_ok_iff.mpr ⟨_, sent_tide ⟨1, 0, none⟩, rfl⟩

theorem tide_travels : (Value.entity (tide ⟨1, 0, none⟩ 0)).Travels types none where
  finite x hx := by cases List.mem_singleton.mp hx
  keys := List.not_mem_nil
  entities e he := by
    cases List.mem_singleton.mp he
    exact ⟨_, trip_tide, by decide, rfl, rfl⟩

/-- What came back as it was need not be sent again; and what comes back equal need not have the
version it was sent at. -/
theorem not_carried_again :
    (¬ ∀ (n : Endpoint Unit) (c? : Option Context) (v : Value), v.Travels n.registry c? →
      ∃ w, n.Carries c? v w ∧ (w == v.normal id) = true ∧
        ∃ w', n.Carries c? w w' ∧ (w' == w) = true) ∧
    ¬ ∀ (n : Endpoint Unit) (c? : Option Context) (e d : Entity),
      n.Carries c? (.entity e) (.entity d) → (d == e) = true → d.version = e.version := by
  constructor
  · intro h
    obtain ⟨w, ⟨j, hj, hw⟩, -, w', ⟨j', hj', -⟩, -⟩ := h station none _ tide_travels
    rw [Value.serialize, sent_tide] at hj
    cases hj
    have hread : Entity.ofPrimitive types none
        ((tide ⟨1, 0, none⟩ 0).wrap ⟨1, 0, none⟩ [("level", .float 0)]) =
          .ok (tide ⟨1, 0, none⟩ (-0)) := rfl
    rw [station.deserialize_toJson hread] at hw
    obtain rfl := Except.ok.inj (congrArg Prod.fst (congrFun hw ()))
    rw [Value.serialize, write_tide, write_negative] at hj'
    cases hj'
  · intro h
    have hcarries : station.Carries none (.entity (tide ⟨1, 0, some 1⟩ 0))
        (.entity (tide ⟨1, 0, none⟩ (-0))) := by
      refine ⟨((tide ⟨1, 0, some 1⟩ 0).wrap ⟨1, 0, some 1⟩ [("level", .float 0)]).toJson, ?_, rfl⟩
      rw [Value.serialize, sent_tide]
      rfl
    have hversion := h station none _ _ hcarries (by decide)
    cases hversion

end Tide

end Skew

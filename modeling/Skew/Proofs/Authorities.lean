import Skew.Proofs.Backport
import Skew.Proofs.ClassCalls

/-!
# Replies and authorities

An entity can be had at another version in two ways: as the reply to a class call, or from an
authority that is given the primitive of the entity. The authority reads the primitive first, so
it has the entity as it arrives there; but what is sent does not depend on where an entity is
(`Entity.writeAt_received`). So the two send the same for every version but the entity's own
(`Conductor.reply_or_authority`).

At the entity's own version they differ by design: a reply sends the entity as it is, and an
authority brings down children that are newer than the relationship tables of the entity have
them, runs the hook and stamps the version as it was asked for. At any other they differ only
if a codec writes an entity by where it is (`Cabinet.replies_differ`).
-/

namespace Skew

section

variable (c? : Option Context)

/-! ## Adapting an arrival -/

/-- The documents in a list are adapted by the arrivals of its entities as by the entities. -/
theorem Value.adaptItems_received {vs : List Value}
    (h : ∀ v ∈ vs, ∀ d ∈ v.graph, (d.received c?).makeCompatible = d.makeCompatible)
    (goal : Version) (boundOnly : Bool) (js : List Json) :
    adaptItems (vs.map (received c?)) goal boundOnly js = adaptItems vs goal boundOnly js := by
  induction vs generalizing js with
  | nil => rfl
  | cons v vs ih =>
      obtain ⟨hv, hvs⟩ := List.forall_mem_cons.mp h
      cases v with
      | entity e =>
          have he := hv e e.self_mem_graph
          cases js with
          | nil => rfl
          | cons j js =>
              simp only [List.map_cons, received, adaptItems, he, e.received_version, ih hvs]
      | _ => exact ih hvs js

theorem Value.adaptWire_received {v : Value}
    (h : ∀ d ∈ v.graph, (d.received c?).makeCompatible = d.makeCompatible) :
    (v.received c?).adaptWire = v.adaptWire := by
  funext field goal boundOnly j
  cases v with
  | entity e =>
      rw [received, adaptWire, adaptWire, h e e.self_mem_graph, e.received_version]
  | list vs =>
      rw [received, receivedItems_eq]
      cases j with
      | arr js => simp only [adaptWire, adaptItems_received c? (forall_graph_items h)]
      | _ => rfl
  | _ => rfl

/-- An entity adapts data alike wherever it is. -/
theorem Entity.makeCompatible_received (e : Entity) :
    (e.received c?).makeCompatible = e.makeCompatible := by
  induction e using Entity.nested with
  | h e ih =>
      have hchildren : childAdapters (e.received c?).values = childAdapters e.values := by
        rw [received_values, childAdapters_eq, childAdapters_eq, List.map_map]
        refine List.map_congr_left fun p hp => ?_
        rw [Function.comp_apply, Value.adaptWire_received c? (ih p hp)]
      funext target
      rw [makeCompatible_eq, makeCompatible_eq, received_schema, hchildren]

/-! ## Writing an arrival -/

/-- The markers of every entity that lists its changes in order arrive as they are. -/
theorem Entity.wrap_received {e : Entity} (h : NameSet.Ascending e.changed) (version : Version)
    (data : Members) : (e.received c?).wrap version data = e.wrap version data := by
  have hchanged : NameSet.Ascending e.whatChanged := by
    cases e
    exact h.union _
  rw [wrap, wrap, whatChanged_received, NameSet.ofList_eq_self hchanged, received_schema]

variable [Codecs]

/-- No codec looks at where the entities in a value are. -/
def Codecs.Blind : Prop :=
  ∀ name v c?, (Codecs.codec name).write (Value.received c? v) = (Codecs.codec name).write v

theorem Entity.data_received_of {e : Entity} (h : ∀ p ∈ e.values,
    (p.2.received c?).write p.1 = p.2.write p.1) : (e.received c?).data = e.data := by
  rw [data, data, received_values, writers_eq, writers_eq, List.map_map, received_schema]
  refine congrArg _ (List.map_congr_left fun p hp => ?_)
  rw [Function.comp_apply, h p hp]

section

variable (hcodecs : Codecs.Blind)
include hcodecs

theorem Value.writeLeaf_received (v : Value) (field : String) (k : Kind) :
    (v.received c?).writeLeaf field k = v.writeLeaf field k := by
  have hscalar (k : Kind) : (v.received c?).writeScalar? k = v.writeScalar? k := by
    cases v <;> rfl
  cases k with
  | custom c => rw [writeLeaf, writeLeaf, hcodecs c v c?]
  | _ => simp only [writeLeaf, hscalar, shape_received]

/-- A container is written alike if its elements are, as values and as entities. -/
theorem Value.write_received_of_items {v : Value} {vs : List Value} (hv : v.items? = some vs)
    {field : String} (h : ∀ w ∈ vs, ∀ k, (w.received c?).write field k = w.write field k)
    (k : Kind) : (v.received c?).write field k = v.write field k := by
  have hitems (k : Kind) : writeItems (vs.map (received c?)) field k = writeItems vs field k := by
    rw [writeItems_eq, writeItems_eq, List.mapM_map]
    exact List.mapM_congr_left fun w hw => h w hw k
  have hobjects (mismatch : EntityError) :
      writeObjects (vs.map (received c?)) mismatch = writeObjects vs mismatch := by
    rw [writeObjects_eq, writeObjects_eq, List.mapM_map]
    refine List.mapM_congr_left fun w hw => ?_
    cases w with
    | entity e => exact h _ hw (.object "")
    | _ => rfl
  have hleaf := v.writeLeaf_received c? hcodecs field
  cases v <;> cases hv <;> rw [received, receivedItems_eq] at hleaf ⊢ <;>
    simp only [write, hitems, hobjects, hleaf]

/-- What a value is written as does not depend on where its entities are. -/
theorem Value.write_received {v : Value} (h : ∀ d ∈ v.graph, NameSet.Ascending d.changed)
    (field : String) (k : Kind) : (v.received c?).write field k = v.write field k := by
  induction v using Value.nested generalizing field k with
  | null | bool | int | float | str | datetime => rfl
  | list vs ih | tuple vs ih | set vs ih =>
      exact write_received_of_items c? hcodecs rfl
        (fun w hw => ih w hw (forall_graph_items h w hw) field) k
  | map es ih =>
      have hentries (k : Kind) : writeEntries (es.map fun e => (e.1, e.2.received c?)) field k =
          writeEntries es field k := by
        rw [writeEntries_eq, writeEntries_eq, mapEntriesM_map]
        exact mapEntriesM_congr fun e he => ih e he (forall_graph_entries h e he) field k
      have hleaf := writeLeaf_received c? hcodecs (.map es) field
      rw [received, receivedEntries_eq] at hleaf ⊢
      simp only [write, hentries, hleaf]
  | entity e ih =>
      have hdata : (e.received c?).data = e.data := Entity.data_received_of c? fun p hp =>
        funext (ih p hp (Entity.forall_graph_values h p hp) p.1)
      have hwrite : (e.received c?).write = e.write := by
        rw [Entity.write_eq, Entity.write_eq, hdata, e.received_version,
          funext (Entity.wrap_received c? (h e e.self_mem_graph) e.version)]
      have hleaf := writeLeaf_received c? hcodecs (.entity e) field
      rw [received] at hleaf ⊢
      simp only [write, hwrite, hleaf]

/-- An entity is sent at a version alike wherever it is. -/
theorem Entity.writeAt_received {e : Entity} (h : ∀ d ∈ e.graph, NameSet.Ascending d.changed)
    (target : Version) : (e.received c?).writeAt target = e.writeAt target := by
  have hdata : (e.received c?).data = e.data := data_received_of c? fun p hp =>
    funext (Value.write_received c? hcodecs (forall_graph_values h p hp) p.1)
  rw [writeAt, writeAt, hdata, makeCompatible_received]
  simp only [wrap_received c? (h e e.self_mem_graph) target]

end

/-! ## The two ways -/

/-- Sent at a version, an entity gives its own primitive exactly when the stamp is the same and
adapting changes nothing. -/
theorem Entity.writeAt_eq_ok_iff {e : Entity} {p : Primitive} (hwrite : e.write = .ok p)
    (v : Version) : e.writeAt v = .ok p ↔
      v.text = e.version.text ∧ e.makeCompatible v p.data = (.ok (), p.data) := by
  rw [write_eq] at hwrite
  obtain ⟨data, hdata, rfl⟩ := Except.map_eq_ok_iff.mp hwrite
  rw [writeAt_eq hdata]
  show _ ↔ _ ∧ e.makeCompatible v data = (.ok (), data)
  rcases e.makeCompatible v data with ⟨err | ⟨⟩, adapted⟩
  · exact ⟨nofun, fun h => nomatch h.2⟩
  · constructor
    · intro h
      have h : e.wrap v adapted = e.wrap e.version data := Except.ok.inj h
      have hdata : adapted = data := congrArg Primitive.data h
      exact ⟨congrArg Primitive.version h, by rw [hdata]⟩
    · rintro ⟨htext, h⟩
      obtain rfl : adapted = data := congrArg Prod.snd h
      show Except.ok (e.wrap v adapted) = .ok (e.wrap e.version adapted)
      rw [wrap, wrap, htext]

/-- **A reply and an authority.** Let a registry read the primitive of an entity as that entity.
What a reply sends of the entity for a version is what the authority over the registry makes of
the primitive for that version, or both fail in the same way, unless it is the version that the
entity has. At that one the reply sends the primitive as it is, and the authority does so exactly
when adapting changes nothing. -/
theorem Conductor.reply_or_authority {σ : Type} (k : Conductor σ) (hcodecs : Codecs.Blind)
    {e : Entity} {p : Primitive} (hchanged : ∀ d ∈ e.graph, NameSet.Ascending d.changed)
    (hwrite : e.write = .ok p) (hback : Entity.ofPrimitive k.registry c? p = .ok (e.received c?))
    (v : Version) :
    (∀ c, k.reply c (.entity e) (some v) =
      (liftM ((Value.entity e).sentFor v) >>= k.client.deserialize (some c))) ∧
    (v.isExactly e.version = false →
      (Value.entity e).sentFor v = (k.registry.backport c? p v).map Primitive.toJson) ∧
    (v.isExactly e.version = true → (Value.entity e).sentFor v = .ok p.toJson ∧
      ((Value.entity e).sentFor v = (k.registry.backport c? p v).map Primitive.toJson ↔
        v.text = e.version.text ∧ e.makeCompatible v p.data = (.ok (), p.data))) := by
  have hauthority : k.registry.backport c? p v = e.writeAt v := by
    rw [Registry.backport, hback, Except.ok_bind, e.writeAt_received c? hcodecs hchanged]
  rw [hauthority]
  refine ⟨fun c => k.reply_some c (.entity e) v, fun hother => ?_, fun hexact => ?_⟩
  · rw [Value.sentFor, Entity.writeFor, if_neg (hother ▸ Bool.false_ne_true)]
  · have hsent : (Value.entity e).sentFor v = .ok p.toJson := by
      rw [Value.sentFor, Entity.writeFor, if_pos hexact, hwrite, Except.ok_map]
    refine ⟨hsent, ?_⟩
    rw [hsent, ← Entity.writeAt_eq_ok_iff hwrite, eq_comm, Except.map_eq_ok_iff]
    constructor
    · rintro ⟨q, hq, hjson⟩
      rw [hq, Primitive.toJson_injective hjson]
    · intro h
      exact ⟨p, h, rfl⟩

end

/-! ## A letter

The seal of a letter is written as broken where it stands in a context. -/

namespace Letter

def wax : Entity := ⟨⟨"Wax", ⟨1, 0, none⟩, [], [], [], none⟩, ⟨1, 0, none⟩, none, [], []⟩

/-- A codec that looks at where a seal is. -/
def sealing : Codec where
  coerce := .ok
  write
    | .entity e => .ok (.str (if e.context?.isSome then "broken" else "whole"))
    | v => .error ("no seal is a " ++ v.shape.name)
  read _ := .ok (.entity wax)

@[reducible] def codecs : Codecs := ⟨fun _ => sealing⟩

attribute [local instance] codecs

def schema : Schema :=
  ⟨"Letter", ⟨1, 1, none⟩, [("seal", ⟨.custom "Seal", false, none⟩)], [], [], none⟩

def types : Registry := Registry.empty.register schema

def letter : Entity :=
  ⟨schema, ⟨1, 1, none⟩, none, [("seal", .entity (wax.received (some (.ofUser "r1" "u" "p"))))], []⟩

def primitive (version : Version) (state : String) : Primitive :=
  letter.wrap version [("seal", .str state)]

theorem letter_changed : ∀ d ∈ letter.graph, NameSet.Ascending d.changed :=
  List.forall_mem_cons.mpr ⟨.nil, List.forall_mem_cons.mpr ⟨.nil, nofun⟩⟩

theorem write_letter : letter.write = .ok (primitive ⟨1, 1, none⟩ "broken") := rfl

theorem read_letter : Entity.ofPrimitive types none (primitive ⟨1, 1, none⟩ "broken") =
    .ok (letter.received none) := rfl

theorem sent_letter : (Value.entity letter).sentFor ⟨1, 0, none⟩ =
    .ok (primitive ⟨1, 0, none⟩ "broken").toJson := by
  have hother : Version.isExactly ⟨1, 0, none⟩ letter.version = false := by decide
  have hdata : letter.data = .ok [("seal", .str "broken")] := rfl
  rw [Value.sentFor, Entity.writeFor, hother, if_neg Bool.false_ne_true, Entity.writeAt_eq hdata]
  rfl

theorem backport_letter : types.backport none (primitive ⟨1, 1, none⟩ "broken") ⟨1, 0, none⟩ =
    .ok (primitive ⟨1, 0, none⟩ "whole") := by
  rw [Registry.backport, read_letter]
  rfl

end Letter

/-! ## A cabinet

The drawer of a cabinet has a patch that no relationship table knows of. -/

namespace Cabinet

attribute [local instance] Codecs.none

def drawerSchema : Schema :=
  ⟨"Drawer", ⟨1, 0, some 1⟩, [("files", ⟨.integer true, false, none⟩)], [], [], none⟩

def schema : Schema :=
  ⟨"Cabinet", ⟨1, 1, none⟩, [("drawer", ⟨.object "Drawer", false, none⟩)],
    [("drawer", [(⟨1, 0, none⟩, ⟨1, 0, none⟩), (⟨1, 1, none⟩, ⟨1, 0, none⟩)])], [], none⟩

def types : Registry := Registry.empty.registerAll [drawerSchema, schema]

def conductor : Conductor Unit :=
  ⟨Endpoint.ofRegistry types, types,
    ⟨fun b _ => throw (.transport b.routine), fun b _ => throw (.transport b.routine)⟩⟩

def drawer : Entity := ⟨drawerSchema, ⟨1, 0, some 1⟩, none, [("files", .int 3)], []⟩

def cabinet : Entity := ⟨schema, ⟨1, 1, none⟩, none, [("drawer", .entity drawer)], []⟩

/-- The data of the cabinet, with its drawer at a version. -/
def data (drawerVersion : String) : Members :=
  [("drawer", (⟨"nova", "Drawer", drawerVersion, [("files", .int 3)], []⟩ : Primitive).toJson)]

def primitive (version : Version) (drawerVersion : String) : Primitive :=
  cabinet.wrap version (data drawerVersion)

theorem cabinet_changed : ∀ d ∈ cabinet.graph, NameSet.Ascending d.changed :=
  List.forall_mem_cons.mpr ⟨.nil, List.forall_mem_cons.mpr ⟨.nil, nofun⟩⟩

theorem write_cabinet : cabinet.write = .ok (primitive ⟨1, 1, none⟩ "1.0.1") := rfl

theorem read_cabinet : Entity.ofPrimitive types none (primitive ⟨1, 1, none⟩ "1.0.1") =
    .ok (cabinet.received none) := rfl

/-- An authority brings the drawer down where the walk does. -/
theorem backport_cabinet {v : Version}
    (h : cabinet.makeCompatible v (data "1.0.1") = (.ok (), data "1.0")) :
    types.backport none (primitive ⟨1, 1, none⟩ "1.0.1") v = .ok (primitive v "1.0") := by
  have hdata : (cabinet.received none).data = .ok (data "1.0.1") := rfl
  rw [Registry.backport, read_cabinet, Except.ok_bind, Entity.writeAt_eq hdata,
    cabinet.makeCompatible_received, h]
  rfl

/-- At 1.0 the cabinet is the same from either; the drawer is brought down. -/
theorem cabinet_either_way : (Value.entity cabinet).sentFor ⟨1, 0, none⟩ =
    (types.backport none (primitive ⟨1, 1, none⟩ "1.0.1") ⟨1, 0, none⟩).map Primitive.toJson ∧
    types.backport none (primitive ⟨1, 1, none⟩ "1.0.1") ⟨1, 0, none⟩ =
      .ok (primitive ⟨1, 0, none⟩ "1.0") :=
  ⟨(conductor.reply_or_authority none (fun _ _ _ => rfl) cabinet_changed write_cabinet read_cabinet
    ⟨1, 0, none⟩).2.1 (by decide), backport_cabinet rfl⟩

/-- At its own version the cabinet keeps its drawer in a reply, but the authority brings the
drawer down. At another version, a letter is sealed in a reply and opened by the authority. -/
theorem replies_differ :
    (¬ ∀ (k : Conductor Unit) (c? : Option Context) (e : Entity) (p : Primitive) (v : Version),
      (∀ d ∈ e.graph, NameSet.Ascending d.changed) → e.write = .ok p →
      Entity.ofPrimitive k.registry c? p = .ok (e.received c?) →
      (Value.entity e).sentFor v = (k.registry.backport c? p v).map Primitive.toJson) ∧
    ¬ ∀ [Codecs] (registry : Registry) (c? : Option Context) (e : Entity) (p : Primitive)
      (v : Version), (∀ d ∈ e.graph, NameSet.Ascending d.changed) → e.write = .ok p →
      Entity.ofPrimitive registry c? p = .ok (e.received c?) → v.isExactly e.version = false →
      (Value.entity e).sentFor v = (registry.backport c? p v).map Primitive.toJson := by
  refine ⟨fun h => ?_, fun h => ?_⟩
  · have hown : (⟨1, 1, none⟩ : Version).isExactly cabinet.version = true := by decide
    have hsame := h conductor none cabinet _ ⟨1, 1, none⟩ cabinet_changed write_cabinet read_cabinet
    rw [show conductor.registry = types from rfl, backport_cabinet rfl, Value.sentFor,
      Entity.writeFor, if_pos hown, write_cabinet] at hsame
    have hprimitives := Primitive.toJson_injective (Except.ok.inj hsame)
    have hdrawers : data "1.0.1" = data "1.0" := congrArg Primitive.data hprimitives
    have hdrawer := Primitive.toJson_injective (Prod.mk.inj (List.cons.inj hdrawers).1).2
    exact absurd (congrArg Primitive.version hdrawer) (by decide)
  · have hsame := @h Letter.codecs Letter.types none Letter.letter _ ⟨1, 0, none⟩
      Letter.letter_changed Letter.write_letter Letter.read_letter (by decide)
    rw [Letter.sent_letter, Letter.backport_letter] at hsame
    have hprimitives := Primitive.toJson_injective (Except.ok.inj hsame)
    have hseals : [("seal", Json.str "broken")] = [("seal", .str "whole")] :=
      congrArg Primitive.data hprimitives
    exact absurd (Json.str.inj (Prod.mk.inj (List.cons.inj hseals).1).2) (by decide)

end Cabinet

end Skew

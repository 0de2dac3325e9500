import Skew.Proofs.Registration
import Skew.Proofs.Soundness

/-!
# All that a client can reach

`Entity.Reachable` has one constructor for each operation that a client can perform. Client code
itself (codecs, method bodies, transports, what runs in another context) is not looked into:
what it hands over must have been reached in its turn. Every reachable entity is sound
(`Entity.Reachable.sound`), by induction on how it was reached, with one preservation lemma for
each operation; and what is nested in a sound entity is consistent
(`Entity.Reachable.graph_consistent`).
-/

namespace Skew

/-! ## Declared schemas -/

/-- What can be declared, part by part. -/
inductive Declaration.Declared : Declaration → Prop
  | start (name version : String) : Declared (.start name version)
  | field {d : Declaration} (h : Declared d) (name : String) (f : Field) :
      Declared (d.field name f)
  | relationship {d : Declaration} (h : Declared d) (name : String)
      (table : List (String × String)) : Declared (d.relationship name table)
  | method {d : Declaration} (h : Declared d) (name : String) (m : Method) :
      Declared (d.method name m)
  | hook {d : Declaration} (h : Declared d) (hook : Hook) : Declared (d.hook hook)

theorem Declaration.Declared.fields_nodup {d : Declaration} (h : d.Declared) :
    (d.fields.map (·.1)).Nodup := by
  induction h with
  | start => exact List.nodup_nil
  | field _ name f ih => exact field_nodup name f ih
  | relationship _ _ _ ih | method _ _ _ ih | hook _ _ ih => exact ih

def Schema.Declared (s : Schema) : Prop := ∃ d : Declaration, d.Declared ∧ d.build = .ok s

theorem Schema.Declared.wellFormed {s : Schema} (h : s.Declared) : s.WellFormed := by
  obtain ⟨d, hd, hbuild⟩ := h
  exact Declaration.build_wellFormed hd.fields_nodup hbuild

theorem Registry.wellFormed_of_declared {history : List Schema}
    (h : ∀ s ∈ history, s.Declared) : (Registry.empty.registerAll history).WellFormed :=
  Registry.wellFormed_empty.registerAll fun s hs => (h s hs).wellFormed

section

variable [Codecs]

/-! ## Reachable entities -/

namespace Entity

/-- The entities that a client can hold, or reach in one that it holds. Where values are
coerced, codecs may put entities of their own in, which must have been reached before. -/
inductive Reachable : Entity → Prop
  | new {s : Schema} (hs : s.Declared) (hpresets : ∀ d, s.Presets d → Reachable d) :
      Reachable (.ofSchema s)
  | nested {e d : Entity} (he : Reachable e) (hd : e.Holds d) : Reachable d
  | copy {e : Entity} (he : Reachable e) : Reachable e.copy
  | set {e : Entity} (he : Reachable e) {n : String} {v : Value}
      (hv : ∀ d ∈ v.graph, Reachable d)
      (hcodecs : ∀ d, (Update.set n v e).2.Holds d → Codecs.Makes d → Reachable d) :
      Reachable (Update.set n v e).2
  /-- writing to a set field directly, in place of its value -/
  | put {e e' : Entity} (he : Reachable e) {n : String} {v : Value}
      (hv : ∀ d ∈ v.graph, Reachable d) (h : e.put n v = .ok e') : Reachable e'
  | resetChanges {e : Entity} (he : Reachable e) (fields? : Option (List String)) (deep : Bool) :
      Reachable (e.resetChanges fields? deep)
  | setDefaults {e : Entity} (he : Reachable e) {names? : Option (List String)}
      (hcodecs : ∀ d, (Update.setDefaults names? e).2.Holds d → Codecs.Makes d → Reachable d) :
      Reachable (Update.setDefaults names? e).2
  | setContext {e : Entity} (he : Reachable e) (c? : Option Context) :
      Reachable (e.withContext? c?)
  | withContext {e : Entity} (he : Reachable e) {α : Type} {c : Context} {act : Update α}
      (hact : Reachable (act (e.bound c)).2) : Reachable (Update.withContext c act e).2
  | asAdmin {e : Entity} (he : Reachable e) {α : Type} {act : Update α}
      (hact : ∀ c, e.context? = some c → Reachable (act (e.bound c.elevated)).2) :
      Reachable (Update.asAdmin act e).2
  | ofPrimitive {history : List Schema} (hhistory : ∀ s ∈ history, s.Declared)
      (hpresets : ∀ s ∈ history, ∀ d, s.Presets d → Reachable d) {c? : Option Context}
      {p : Primitive} {e : Entity}
      (h : Entity.ofPrimitive (Registry.empty.registerAll history) c? p = .ok e)
      (hcodecs : ∀ d, e.Holds d → Codecs.Makes d → Reachable d) : Reachable e
  | ofJson {history : List Schema} (hhistory : ∀ s ∈ history, s.Declared)
      (hpresets : ∀ s ∈ history, ∀ d, s.Presets d → Reachable d) {c? : Option Context} {j : Json}
      {e : Entity} (h : Entity.ofJson (Registry.empty.registerAll history) c? j = .ok e)
      (hcodecs : ∀ d, e.Holds d → Codecs.Makes d → Reachable d) : Reachable e
  /-- a call, whose body ran here, or to which a transport replied as it liked -/
  | call {e : Entity} (he : Reachable e) {σ : Type} {d : Dispatcher σ} {method : String}
      {args : Args} {s : σ}
      (hbody : ∀ m, e.schema.method? method = some m →
        (m.remotable = false ∨ d.transport? = none) →
          Reachable (d.bodies.ofInstance m.body args e s).1.2)
      (hreply : ∀ t c r, d.transport? = some t → e.context? = some c →
        (t.instanceAction c e method args s).1 = .ok r →
          ∀ u ∈ r.updates, ∀ x ∈ u.2.graph, Reachable x)
      (hcodecs : ∀ x, (d.call method args e s).1.2.Holds x → Codecs.Makes x → Reachable x) :
      Reachable (d.call method args e s).1.2
  | listOfSchema {s : Schema} (hs : s.Declared) (hpresets : ∀ d, s.Presets d → Reachable d)
      {l : EntityList} (h : EntityList.ofSchema s = .ok l) : Reachable l.inner
  | listOfEntity {e : Entity} (he : Reachable e) {l : EntityList}
      (h : EntityList.ofEntity e = .ok l) : Reachable l.inner
  | listOfRecords {list item : Schema} (hlist : list.Declared)
      (hpresets : ∀ d, list.Presets d → Reachable d) {ρ : Type} {c : Context} {records : List ρ}
      {build : ρ → Update Unit}
      (hbuild : ∀ r ∈ records, Reachable (build r ((Entity.ofSchema item).bound c)).2)
      {l : EntityList} (h : EntityList.ofRecords c list item records build = .ok l) :
      Reachable l.inner
  | push {l l' : EntityList} (hl : Reachable l.inner) {item : Entity} (hitem : Reachable item)
      (h : l.push item = .ok l') : Reachable l'.inner

/-- What is read over declared schemas is sound, if their defaults are. -/
theorem Sound.of_history {history : List Schema} (hhistory : ∀ s ∈ history, s.Declared)
    (hpresets : ∀ s ∈ history, ∀ d, s.Presets d → d.Sound) {c? : Option Context} {p : Primitive}
    {e : Entity} (h : Entity.ofPrimitive (Registry.empty.registerAll history) c? p = .ok e)
    (hmade : ∀ d, e.Holds d → Codecs.Makes d → d.Sound) : e.Sound := by
  have hregistry := Registry.wellFormed_of_declared hhistory
  refine ((Entity.ofPrimitive_eq_ok_iff hregistry).mp h).sound hregistry ?_ hmade
  exact fun name s hs => hpresets s (Registry.mem_schemas_iff.mp hs).mem.1

theorem Reachable.sound {e : Entity} (h : e.Reachable) : e.Sound := by
  induction h with
  | new hs _ ihpresets => exact .ofSchema hs.wellFormed ihpresets
  | nested _ hd ih => exact ih.held hd
  | copy _ ih => rwa [ih.copy]
  | @set e _ n v _ _ ih ihv ihcodecs =>
      exact ih.step (Update.set_step n v e) fun d hheld hd => hd.elim (ihv d) (ihcodecs d hheld)
  | put _ _ h ih ihv => exact ih.step (.put h) fun d _ hd => ihv d hd
  | resetChanges _ fields? deep ih => exact ih.resetChanges fields? deep
  | @setDefaults e _ names? _ ih ihcodecs =>
      exact ih.step (Update.setDefaults_step names? e) ihcodecs
  | setContext _ c? ih => exact ih.withContext? c?
  | withContext _ _ _ ihact => exact ihact.withContext? _
  | @asAdmin e _ α act _ ih ihact =>
      have hget : (MonadState.get : Update Entity) e = (.ok e, e) := rfl
      rw [Update.asAdmin, ExceptT.bind_ok hget]
      cases hcontext : e.context? with
      | none => exact ih
      | some c => exact (ihact c hcontext).withContext? _
  | ofPrimitive hhistory _ h _ ihpresets ihcodecs => exact .of_history hhistory ihpresets h ihcodecs
  | ofJson hhistory _ h _ ihpresets ihcodecs =>
      obtain ⟨p, -, h⟩ := Json.entity_eq_ok_iff.mp h
      exact .of_history hhistory ihpresets h ihcodecs
  | @call e _ σ d method args s _ _ _ ih ihbody ihreply ihcodecs =>
      rcases d.call_cases method args e s with
        hend | ⟨m, hm, hhere, hend⟩ | ⟨t, c, r, e', ht, hc, hsent, hreply, hend⟩
      · rwa [hend]
      · rw [hend]
        exact ihbody m hm hhere
      · rw [hend] at ihcodecs ⊢
        refine ih.step (Dispatcher.applyReply_step hreply) ?_
        rintro x hheld (⟨u, hu, hx⟩ | hx)
        · exact ihreply t c r ht hc hsent u hu x hx
        · exact ihcodecs x hheld hx
  | listOfSchema hs _ h ihpresets =>
      exact (Sound.ofSchema hs.wellFormed ihpresets).step (EntityList.ofSchema_step h)
        fun _ _ h => h.elim
  | listOfEntity _ h ih => exact ih.step (EntityList.ofEntity_step h) fun _ _ h => h.elim
  | listOfRecords hlist _ _ h ihpresets ihbuild =>
      exact EntityList.ofRecords_sound (.ofSchema hlist.wellFormed ihpresets) ihbuild h
  | push _ _ h ih ihitem => exact ih.step (EntityList.push_step h) fun d _ hd => ihitem.graph hd

/-! ## Consistent entities -/

/-- An entity whose values, change markers and schema agree, as its observers show. -/
structure Consistent (e : Entity) : Prop where
  marked : ∀ n ∈ e.changed, e.isSet n = true
  declared : ∀ n, e.isSet n = true → n ∈ e.schema.fieldNames
  whatChanged : ∀ n ∈ e.whatChanged, e.isSet n = true
  changedNames : Record.names e.getChanges = e.whatChanged
  changedValues : ∀ n v, Record.get? e.getChanges n = some v ↔
    n ∈ e.whatChanged ∧ Record.get? e.values n = some v
  setFields : e.setFields.Nodup ∧ e.setFields.Sublist e.schema.fieldNames ∧
    ∀ n, n ∈ e.setFields ↔ e.isSet n = true
  copied : e.copy = e
  refused : ∀ n v err e', Update.set n v e = (.error err, e') → e' = e ∧
    (e.schema.field? n = none ∧ err = .unknownField e.typeName n ∨
      ∃ f fault, e.schema.field? n = some f ∧ f.coerce v = .error fault ∧
        err = .invalidValue n fault)

/-- A refused assignment leaves the entity as it was: the field is not declared, or it refuses
the value. -/
theorem set_refused {e e' : Entity} {n : String} {v : Value} {err : EntityError}
    (h : Update.set n v e = (.error err, e')) : e' = e ∧
      (e.schema.field? n = none ∧ err = .unknownField e.typeName n ∨
        ∃ f fault, e.schema.field? n = some f ∧ f.coerce v = .error fault ∧
          err = .invalidValue n fault) := by
  cases hset : e.set n v with
  | ok e'' => rw [Update.set_ok hset] at h; cases h
  | error err' =>
      rw [Update.set_error hset] at h
      cases h
      refine ⟨rfl, ?_⟩
      rw [set_eq, Schema.requireField] at hset
      cases hf : e.schema.field? n with
      | none =>
          rw [hf] at hset
          cases hset
          exact Or.inl ⟨rfl, rfl⟩
      | some f =>
          simp only [hf, Except.ok_bind] at hset
          cases hcoerce : f.coerce v with
          | ok w =>
              rw [hcoerce] at hset
              cases hset
          | error fault =>
              rw [hcoerce] at hset
              cases hset
              exact Or.inr ⟨f, fault, rfl, hcoerce, rfl⟩

theorem Sound.consistent {e : Entity} (h : e.Sound) : e.Consistent where
  marked := h.wellFormed.marked
  declared := h.wellFormed.declared
  whatChanged _ hn := h.wellFormed.isSet_of_mem_whatChanged hn
  changedNames := names_getChanges h.wellFormed.toCoherent
  changedValues _ _ := get?_getChanges h.wellFormed
  setFields := ⟨h.wellFormed.schema.fields.filter _, List.filter_sublist,
    fun _ => mem_setFields h.wellFormed.toCoherent⟩
  copied := h.copy
  refused _ _ _ _ := set_refused

/-- **Consistency.** However an entity was reached, it is consistent, and so is every entity
nested in it. -/
theorem Reachable.graph_consistent {e : Entity} (h : e.Reachable) : ∀ d ∈ e.graph, d.Consistent :=
  fun _ hd => (h.sound.graph hd).consistent

end Entity

end

/-! ## A cabin

A stove is fuelled and put into a cabin, whose own changes are then forgotten. -/

namespace Cabin

attribute [local instance] Codecs.none

def stoveSchema : Schema :=
  ⟨"Stove", ⟨1, 0, none⟩, [("fuel", ⟨.string, false, none⟩)], [], [], none⟩

def schema : Schema :=
  ⟨"Cabin", ⟨1, 1, none⟩, [("beds", ⟨.integer true, false, some (.int 2)⟩),
    ("stove", ⟨.object "Stove", true, none⟩)],
    [("stove", [(⟨1, 0, none⟩, ⟨1, 0, none⟩)])], [], none⟩

def stove : Entity := (Update.set "fuel" (.str "oak") (.ofSchema stoveSchema)).2

def furnished : Entity := (Update.set "stove" (.entity stove) (.ofSchema schema)).2

def settled : Entity := furnished.resetChanges none false

theorem stoveSchema_declared : stoveSchema.Declared :=
  ⟨_, (Declaration.Declared.start "Stove" "1.0").field "fuel" ⟨.string, false, none⟩, rfl⟩

theorem schema_declared : schema.Declared :=
  ⟨_, (((Declaration.Declared.start "Cabin" "1.1").field "beds"
    ⟨.integer true, false, some (.int 2)⟩).field "stove" ⟨.object "Stove", true, none⟩).relationship
      "stove" [("1.0", "1.0")], rfl⟩

theorem stoveSchema_presets (d : Entity) : ¬ stoveSchema.Presets d := by
  simp [Schema.Presets, stoveSchema]

theorem schema_presets (d : Entity) : ¬ schema.Presets d := by
  simp [Schema.Presets, schema, Value.graph]

theorem not_makes (d : Entity) : ¬ Codecs.Makes d :=
  Codecs.not_makes Codecs.none_settles d

theorem stove_reachable : stove.Reachable :=
  (Entity.Reachable.new stoveSchema_declared fun d hd => absurd hd (stoveSchema_presets d)).set
    nofun fun d _ hd => absurd hd (not_makes d)

theorem settled_reachable : settled.Reachable := by
  refine .resetChanges (.set (.new schema_declared ?_) ?_ ?_) none false
  · exact fun d hd => absurd hd (schema_presets d)
  · intro d hd
    rcases Entity.mem_graph_iff.mp hd with rfl | hd
    · exact stove_reachable
    · exact stove_reachable.nested hd
  · exact fun d _ hd => absurd hd (not_makes d)

/-- The fuel still counts as a change of the stove, and so of the cabin. -/
theorem settled_consistent : (settled.changed = [] ∧ settled.whatChanged = ["stove"]) ∧
    settled.Reachable ∧ ∀ d ∈ settled.graph, d.Consistent :=
  ⟨⟨rfl, by decide⟩, settled_reachable, settled_reachable.graph_consistent⟩

end Cabin

end Skew

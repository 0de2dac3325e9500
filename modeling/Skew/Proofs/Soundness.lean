import Skew.Entity.Copy
import Skew.Entity.EntityList
import Skew.Entity.Path
import Skew.Proofs.Origins
import Skew.Proofs.Transparency

/-!
# Sound entities

An entity is sound when it is well-formed, and all that is nested in it or stands in the
defaults of its schema is sound. Defaults count because assigning null stores them.

`Entity.Step` says what an operation on an entity may do: keep the schema and the
well-formedness, and nest only what was nested before, what stands in a default, and what it
was given. Sound entities stay sound along such steps (`Entity.Sound.step`). A deep reset of
change markers is no such step, since it changes the nested entities; it has its own lemma
(`Entity.Sound.resetChanges`).
-/

namespace Skew

/-! ## Nested entities -/

/-- The entity is nested in another one, at some depth. -/
def Entity.Holds (e d : Entity) : Prop := ∃ p ∈ e.values, d ∈ p.2.graph

/-- The entity stands in the default of a field. -/
def Schema.Presets (s : Schema) (d : Entity) : Prop :=
  ∃ q ∈ s.fields, ∃ x, q.2.default? = some x ∧ d ∈ x.graph

inductive Entity.Sound : Entity → Prop
  | intro {e : Entity} (wellFormed : e.WellFormed) (held : ∀ d, e.Holds d → Sound d)
      (preset : ∀ d, e.schema.Presets d → Sound d) : Sound e

namespace Entity

theorem mem_graph_iff {e d : Entity} : d ∈ e.graph ↔ d = e ∨ e.Holds d := by
  rw [graph_eq, List.mem_cons, List.mem_flatMap]
  rfl

theorem Holds.trans {e d x : Entity} (hd : e.Holds d) (hx : x ∈ d.graph) : e.Holds x := by
  obtain ⟨p, hp, hd⟩ := hd
  exact ⟨p, hp, Value.graph_trans hd hx⟩

namespace Sound

variable {e : Entity}

theorem wellFormed (h : e.Sound) : e.WellFormed := by
  cases h
  assumption

theorem held (h : e.Sound) {d : Entity} (hd : e.Holds d) : d.Sound := by
  cases h with
  | intro _ hheld => exact hheld d hd

theorem preset (h : e.Sound) {d : Entity} (hd : e.schema.Presets d) : d.Sound := by
  cases h with
  | intro _ _ hpreset => exact hpreset d hd

theorem graph (h : e.Sound) {d : Entity} (hd : d ∈ e.graph) : d.Sound := by
  rcases mem_graph_iff.mp hd with rfl | hd
  · exact h
  · exact h.held hd

theorem ofSchema {s : Schema} (hs : s.WellFormed) (hpresets : ∀ d, s.Presets d → d.Sound) :
    (Entity.ofSchema s).Sound :=
  ⟨.ofSchema hs, fun _ ⟨_, hp, _⟩ => (nomatch hp), hpresets⟩

end Sound

/-! ## Steps -/

/-- What an operation that is given some entities may do. -/
structure Step (given : Entity → Prop) (e e' : Entity) : Prop where
  schema : e'.schema = e.schema
  wellFormed : e.WellFormed → e'.WellFormed
  held : ∀ d, e'.Holds d → e.Holds d ∨ e.schema.Presets d ∨ given d

theorem Sound.step {given : Entity → Prop} {e e' : Entity} (h : e.Sound) (hstep : Step given e e')
    (hgiven : ∀ d, e'.Holds d → given d → d.Sound) : e'.Sound := by
  refine ⟨hstep.wellFormed h.wellFormed, fun d hd => ?_, fun d hd => h.preset (hstep.schema ▸ hd)⟩
  rcases hstep.held d hd with hheld | hpreset | hd'
  · exact h.held hheld
  · exact h.preset hpreset
  · exact hgiven d hd hd'

namespace Step

variable {given given' : Entity → Prop} {e e' e'' : Entity}

/-- Only the change markers or the context are touched. -/
theorem keep (hschema : e'.schema = e.schema) (hvalues : e'.values = e.values)
    (hwellFormed : e.WellFormed → e'.WellFormed) : Step given e e' :=
  ⟨hschema, hwellFormed, fun d hd => Or.inl (by rwa [Holds, ← hvalues])⟩

theorem refl : Step given e e := keep rfl rfl id

theorem trans (h : Step given e e') (h' : Step given e' e'') : Step given e e'' where
  schema := h'.schema.trans h.schema
  wellFormed := h'.wellFormed ∘ h.wellFormed
  held d hd := by
    rcases h'.held d hd with hheld | hpreset | hgiven
    · exact h.held d hheld
    · exact Or.inr (Or.inl (h.schema ▸ hpreset))
    · exact Or.inr (Or.inr hgiven)

theorem mono (h : Step given e e')
    (hgiven : ∀ d, given d → e.Holds d ∨ e.schema.Presets d ∨ given' d) : Step given' e e' where
  schema := h.schema
  wellFormed := h.wellFormed
  held d hd := by
    rcases h.held d hd with hheld | hpreset | hd
    · exact Or.inl hheld
    · exact Or.inr (Or.inl hpreset)
    · exact hgiven d hd

theorem withContext (c? : Option Context) : Step given e (e.withContext? c?) :=
  keep rfl rfl fun h => ⟨⟨h.schema, h.values, h.declared, h.marked⟩, h.changed⟩

theorem storeCoerced {n : String} {v : Value} (hn : n ∈ e.schema.fieldNames)
    (hv : ∀ d ∈ v.graph, e.Holds d ∨ e.schema.Presets d ∨ given d) :
    Step given e (e.storeCoerced n v) where
  schema := rfl
  wellFormed h := h.storeCoerced hn v
  held d hd := by
    obtain ⟨p, hp, hd⟩ := hd
    rcases Record.mem_insert hp with rfl | hp
    · exact hv d hd
    · exact Or.inl ⟨p, hp, hd⟩

theorem markChanged (n : String) : Step given e (e.markChanged n) := by
  refine keep ?_ ?_ fun h => h.markChanged n <;> rw [Entity.markChanged] <;> split <;> rfl

theorem put {n : String} {v : Value} (h : e.put n v = .ok e') : Step (· ∈ v.graph) e e' := by
  obtain ⟨w, hw, h⟩ := Except.bind_eq_ok_iff.mp h
  cases h
  obtain ⟨⟨f, hf⟩, -⟩ := get_eq_ok_iff.mp hw
  exact storeCoerced (mem_fieldNames hf) fun d hd => Or.inr (Or.inr hd)

section

variable [Codecs]

/-- What a field stores comes with the value, from the default or from codecs. -/
theorem coerced {n : String} {f : Field} {v w : Value} (hf : e.schema.field? n = some f)
    (hw : f.coerce v = .ok w) :
    Step (fun d => d ∈ v.graph ∨ Codecs.Makes d) e (e.storeCoerced n w) := by
  refine storeCoerced (mem_fieldNames hf) ?_
  intro d hd
  rcases Field.origin_of_coerced hw hd with hd | ⟨x, hx, hd⟩ | hd
  · exact Or.inr (Or.inr (Or.inl hd))
  · exact Or.inr (Or.inl ⟨(n, f), Record.mem_of_get? hf, x, hx, hd⟩)
  · exact Or.inr (Or.inr (Or.inr hd))

theorem set {n : String} {v : Value} (h : e.set n v = .ok e') :
    Step (fun d => d ∈ v.graph ∨ Codecs.Makes d) e e' := by
  obtain ⟨f, w, hf, hw, rfl⟩ := set_eq_ok_iff.mp h
  exact ⟨rfl, fun hwf => hwf.set h, (coerced hf hw).held⟩

end

end Step

end Entity

open Entity (Step)

theorem Entity.Sound.withContext? {e : Entity} (h : e.Sound) (c? : Option Context) :
    (e.withContext? c?).Sound :=
  h.step (.withContext c?) fun _ _ hd => (hd : False).elim

/-! ## Assignments and defaults -/

namespace Update

theorem forM_keeps {α : Type} {P : Entity → Prop} {act : α → Update Unit}
    (hact : ∀ a e, P e → P (act a e).2) (as : List α) {e : Entity} (he : P e) :
    P (as.forM act e).2 := by
  induction as generalizing e with
  | nil => exact he
  | cons a as ih =>
      have hnext := hact a e he
      show P ((act a >>= fun _ => as.forM act) e).2
      rcases hend : act a e with ⟨_ | _, e'⟩
      · rw [hend] at hnext
        rwa [ExceptT.bind_error hend]
      · rw [hend] at hnext
        rw [ExceptT.bind_ok hend]
        exact ih hnext

variable [Codecs]

theorem set_step (n : String) (v : Value) (e : Entity) :
    Step (fun d => d ∈ v.graph ∨ Codecs.Makes d) e (Update.set n v e).2 := by
  cases h : e.set n v with
  | ok e' => exact set_ok h ▸ .set h
  | error err => exact set_error h ▸ .refl

/-- What the assignment of a declared default keeps, giving defaults keeps. -/
theorem setDefaults_keeps {P : Entity → Prop}
    (hset : ∀ e n f x, P e → e.schema.field? n = some f → f.default? = some x →
      P (Update.set n x e).2)
    (names? : Option (List String)) {e : Entity} (he : P e) : P (setDefaults names? e).2 := by
  have hdefault (n : String) (e : Entity) (he : P e) : P (setDefault n e).2 := by
    rw [setDefault_apply]
    cases hf : e.schema.field? n with
    | none => exact he
    | some f =>
        dsimp only
        cases hx : f.default? with
        | none => exact he
        | some x =>
            dsimp only
            split
            · exact he
            · exact hset e n f x he hf hx
  rw [setDefaults_apply]
  exact forM_keeps hdefault _ he

theorem setDefaults_step (names? : Option (List String)) (e : Entity) :
    Step Codecs.Makes e (setDefaults names? e).2 := by
  refine setDefaults_keeps (P := Step Codecs.Makes e) (fun e' n f x h hf hx => ?_) names? .refl
  refine h.trans ((set_step n x e').mono ?_)
  rintro d (hd | hd)
  · exact Or.inr (Or.inl ⟨(n, f), Record.mem_of_get? hf, x, hx, hd⟩)
  · exact Or.inr (Or.inr hd)

end Update

/-! ## Calls -/

namespace Dispatcher

variable [Codecs]

theorem exists_of_mem_stageUpdates {s : Schema} {us staged : List (String × Value)}
    (h : stageUpdates s us = .ok staged) {p : String × Value} (hp : p ∈ staged) :
    ∃ f, s.field? p.1 = some f ∧ ∃ u ∈ us, f.coerce u.2 = .ok p.2 := by
  induction us generalizing staged with
  | nil => cases h; cases hp
  | cons u us ih =>
      obtain ⟨n, v⟩ := u
      have hlater {staged : List (String × Value)} (h : stageUpdates s us = .ok staged)
          (hp : p ∈ staged) :
          ∃ f, s.field? p.1 = some f ∧ ∃ u ∈ (n, v) :: us, f.coerce u.2 = .ok p.2 := by
        obtain ⟨f, hf, u, hu, hcoerce⟩ := ih h hp
        exact ⟨f, hf, u, List.mem_cons_of_mem _ hu, hcoerce⟩
      rw [stageUpdates] at h
      split at h
      · exact hlater h hp
      · next f hf =>
          obtain ⟨w, hw, h⟩ := Except.bind_eq_ok_iff.mp h
          obtain ⟨rest, hrest, h⟩ := Except.bind_eq_ok_iff.mp h
          cases h
          rcases List.mem_cons.mp hp with rfl | hp
          · exact ⟨f, hf, (n, v), List.mem_cons_self, inField_eq_ok_iff.mp hw⟩
          · exact hlater hrest hp

/-- A reply is given the entities of its updates. -/
theorem applyReply_step {e e' : Entity} {r : Reply} (h : applyReply e r = .ok e') :
    Step (fun d => (∃ u ∈ r.updates, d ∈ u.2.graph) ∨ Codecs.Makes d) e e' := by
  obtain ⟨staged, hstaged, h⟩ := Except.bind_eq_ok_iff.mp h
  cases h
  have hfold (staged : List (String × Value)) (now : Entity) (hschema : now.schema = e.schema)
      (hfields : ∀ p ∈ staged, ∃ f, e.schema.field? p.1 = some f ∧
        ∃ u ∈ r.updates, f.coerce u.2 = .ok p.2) :
      Step (fun d => (∃ u ∈ r.updates, d ∈ u.2.graph) ∨ Codecs.Makes d) now
        (staged.foldl (fun e p => e.storeCoerced p.1 p.2) now) := by
    induction staged generalizing now with
    | nil => exact .refl
    | cons p staged ih =>
        obtain ⟨⟨f, hf, u, hu, hcoerce⟩, hfields⟩ := List.forall_mem_cons.mp hfields
        refine .trans (.mono (.coerced (hschema ▸ hf) hcoerce) ?_) (ih _ hschema hfields)
        exact fun d hd => Or.inr (Or.inr (hd.imp_left fun hd => ⟨u, hu, hd⟩))
  have hmembers (p : String × Value) (hp : p ∈ staged) := exists_of_mem_stageUpdates hstaged hp
  exact (hfold staged e rfl hmembers).trans (.keep rfl rfl fun h => h.replaceChanges _)

section

variable {σ : Type}

/-- A forwarded call leaves the entity as it was, or with a reply taken over. -/
theorem forward_cases (t : Transport σ) (c : Context) (method : String) (args : Args) (e : Entity)
    (s : σ) : (forward t c method args e s).1.2 = e ∨
      ∃ r e', (t.instanceAction c e method args s).1 = .ok r ∧ applyReply e r = .ok e' ∧
        (forward t c method args e s).1.2 = e' := by
  rcases hsent : t.instanceAction c e method args s with ⟨_ | r, s'⟩
  · exact Or.inl (by rw [forward_error hsent])
  · cases hreply : applyReply e r with
    | ok e' => exact Or.inr ⟨r, e', rfl, hreply, by rw [forward_ok hsent hreply]⟩
    | error err => exact Or.inl (by rw [forward_refused hsent hreply])

/-- Where a call leaves the entity: as it was, where the body left it that ran here, or with a
reply taken over. -/
theorem call_cases (d : Dispatcher σ) (method : String) (args : Args) (e : Entity) (s : σ) :
    (d.call method args e s).1.2 = e ∨
      (∃ m, e.schema.method? method = some m ∧ (m.remotable = false ∨ d.transport? = none) ∧
        (d.call method args e s).1.2 = (d.bodies.ofInstance m.body args e s).1.2) ∨
      ∃ t c r e', d.transport? = some t ∧ e.context? = some c ∧
        (t.instanceAction c e method args s).1 = .ok r ∧ applyReply e r = .ok e' ∧
          (d.call method args e s).1.2 = e' := by
  have hget : (get : EntityRun σ Entity) e s = ((.ok e, e), s) := rfl
  have hlookup : (liftM (e.schema.requireMethod method) : EntityRun σ Method) e s =
      ((e.schema.requireMethod method, e), s) := by
    cases e.schema.requireMethod method <;> rfl
  cases hm : e.schema.method? method with
  | none =>
      rw [Schema.requireMethod, hm] at hlookup
      rw [call, EntityRun.bind_ok hget, Schema.requireMethod, hm, EntityRun.bind_error hlookup]
      exact Or.inl rfl
  | some m =>
      rw [Schema.requireMethod, hm] at hlookup
      rw [call, EntityRun.bind_ok hget, Schema.requireMethod, hm, EntityRun.bind_ok hlookup]
      by_cases hscope : m.scope ≠ .ofInstance
      · rw [if_pos hscope]
        exact Or.inl rfl
      rw [if_neg hscope]
      by_cases hremotable : ¬ m.remotable = true
      · rw [if_pos hremotable]
        exact Or.inr (Or.inl ⟨m, rfl, Or.inl (Bool.not_eq_true _ ▸ hremotable), rfl⟩)
      rw [if_neg hremotable]
      by_cases hargs : args.context?.isSome = true
      · rw [if_pos hargs]
        exact Or.inl rfl
      rw [if_neg hargs]
      cases hcontext : e.context? with
      | none => exact Or.inl rfl
      | some c =>
          cases htransport : d.transport? with
          | none => exact Or.inr (Or.inl ⟨m, rfl, Or.inr rfl, rfl⟩)
          | some t =>
              rcases forward_cases t c method args e s with h | ⟨r, e', hsent, hreply, h⟩
              · exact Or.inl h
              · exact Or.inr (Or.inr ⟨t, c, r, e', rfl, rfl, hsent, hreply, h⟩)

end

end Dispatcher

/-! ## Resets -/

theorem Value.settledItems_eq (vs : List Value) :
    Value.settledItems vs = vs.map fun v => match v with
      | .entity e => .entity e.settled
      | v => v := by
  induction vs with
  | nil => rfl
  | cons v vs ih => cases v <;> simp only [settledItems, ih, List.map_cons]

theorem Value.settledItems_entities (es : List Entity) :
    Value.settledItems (es.map .entity) = es.map fun e => .entity e.settled := by
  rw [settledItems_eq, List.map_map]
  rfl

theorem Entity.settledEntries_eq (es : List (String × Value)) :
    Entity.settledEntries es = es.map fun p => (p.1, p.2.settled) := by
  induction es with
  | nil => rfl
  | cons p es ih => rw [settledEntries, ih, List.map_cons]

theorem Entity.settled_eq (e : Entity) : e.settled = e.resetChanges none true := by
  obtain ⟨schema, version, context?, values, changed⟩ := e
  simp [settled, settledEntries_eq, resetChanges]

/-- A settled value holds what it held, and what its settled children hold. -/
theorem Value.origin_of_settled {v : Value} {d : Entity} (hd : d ∈ v.settled.graph) :
    d ∈ v.graph ∨ ∃ x ∈ v.graph, d ∈ x.settled.graph := by
  cases v with
  | entity x => exact Or.inr ⟨x, x.self_mem_graph, hd⟩
  | list vs =>
      rw [settled, settledItems_eq, graph, itemGraph_eq, List.flatMap_map] at hd
      rw [graph, itemGraph_eq]
      obtain ⟨w, hw, hd⟩ := List.mem_flatMap.mp hd
      cases w with
      | entity x => exact Or.inr ⟨x, List.mem_flatMap.mpr ⟨_, hw, x.self_mem_graph⟩, hd⟩
      | _ => exact Or.inl (List.mem_flatMap.mpr ⟨_, hw, hd⟩)
  | _ => exact Or.inl hd

namespace Entity

/-- Resetting keeps an entity sound if settling keeps those sound that it holds. -/
theorem Sound.reset {e : Entity} (h : e.Sound)
    (hsettled : ∀ x, e.Holds x → x.Sound → x.settled.Sound) (fields? : Option (List String))
    (deep : Bool) : (e.resetChanges fields? deep).Sound := by
  refine ⟨h.wellFormed.resetChanges fields? deep, ?_, fun d hd => h.preset hd⟩
  rintro d ⟨p, hp, hd⟩
  cases deep with
  | false => exact h.held ⟨p, hp, hd⟩
  | true =>
      rw [resetChanges_values] at hp
      obtain ⟨q, hq, rfl⟩ := List.mem_map.mp hp
      dsimp only at hd
      split at hd
      · rcases Value.origin_of_settled hd with hd | ⟨x, hx, hd⟩
        · exact h.held ⟨q, hq, hd⟩
        · exact (hsettled x ⟨q, hq, hx⟩ (h.held ⟨q, hq, hx⟩)).graph hd
      · exact h.held ⟨q, hq, hd⟩

theorem Sound.settled {e : Entity} (h : e.Sound) : e.settled.Sound := by
  induction e using Entity.nested with
  | h e ih =>
      rw [settled_eq]
      exact h.reset (fun x ⟨p, hp, hx⟩ => ih p hp x hx) none true

theorem Sound.resetChanges {e : Entity} (h : e.Sound) (fields? : Option (List String))
    (deep : Bool) : (e.resetChanges fields? deep).Sound :=
  h.reset (fun _ _ hx => hx.settled) fields? deep

end Entity

/-! ## Copies -/

theorem Value.copyItems_eq (vs : List Value) : Value.copyItems vs = vs.map Value.copy := by
  induction vs with
  | nil => rfl
  | cons v vs ih => rw [copyItems, ih, List.map_cons]

theorem Value.copyEntries_eq (es : List (String × Value)) :
    Value.copyEntries es = es.map fun p => (p.1, p.2.copy) := by
  induction es with
  | nil => rfl
  | cons p es ih => rw [copyEntries, ih, List.map_cons]

/-- A value is its own copy if that holds of the entities in it. -/
theorem Value.copy_eq_self {v : Value} (h : ∀ d ∈ v.graph, d.copy = d) : v.copy = v := by
  induction v using Value.nested with
  | null | bool | int | float | str | datetime => rfl
  | list vs ih | tuple vs ih | set vs ih =>
      rw [copy, copyItems_eq, List.map_congr_left fun v hv => ih v hv (forall_graph_items h v hv)]
      exact congrArg _ (List.map_id _)
  | map es ih =>
      rw [copy, copyEntries_eq,
        List.map_congr_left fun p hp => congrArg (p.1, ·) (ih p hp (forall_graph_entries h p hp))]
      exact congrArg _ (List.map_id _)
  | entity e => rw [copy, h e e.self_mem_graph]

/-- Only declared fields have values, so a copy leaves nothing out. -/
theorem Entity.Sound.copy {e : Entity} (h : e.Sound) : e.copy = e := by
  induction e using Entity.nested with
  | h e ih =>
      have hvalues : (Value.copyEntries e.values).filter (fun p => e.schema.hasField p.1) =
          e.values := by
        have hcopied (p : String × Value) (hp : p ∈ e.values) : (p.1, p.2.copy) = p :=
          congrArg (p.1, ·) (Value.copy_eq_self fun d hd => ih p hp d hd (h.held ⟨p, hp, hd⟩))
        rw [Value.copyEntries_eq, List.map_congr_left hcopied, List.map_id'', List.filter_eq_self]
        · intro p hp
          refine Record.contains_iff_mem.mpr (h.wellFormed.declared p.1 ?_)
          exact Record.contains_iff_mem.mpr (List.mem_map_of_mem hp)
        · exact fun _ => rfl
      obtain ⟨schema, version, context?, values, changed⟩ := e
      rw [Entity.copy]
      exact congrArg (Entity.mk schema version context? · changed) hvalues

/-! ## Reading -/

section

variable [Codecs] {registry : Registry} {c? : Option Context}

theorem Entity.ReadFrom.wellFormed {p : Primitive} {e : Entity} (hregistry : registry.WellFormed)
    (h : e.ReadFrom registry c? p) : e.WellFormed where
  schema := hregistry.schemas _ _ (Registry.resolve_eq_ok h.schema).1
  values := h.ascending
  declared n hn := h.declared n (Record.contains_iff_mem.mp hn)
  marked n hn := by
    rw [h.marked, NameSet.mem_ofList] at hn
    exact (List.mem_filter.mp hn).2
  changed := h.marked ▸ NameSet.ascending_ofList _

/-- Where an entity that is read comes from, whatever the document. -/
def Entity.Origin (registry : Registry) (c? : Option Context) (d : Entity) : Prop :=
  (∃ p, d.ReadFrom registry c? p) ∨ (∃ p, d.Supplied registry c? p) ∨ Codecs.Makes d

theorem Entity.tracked_origin :
    Json.Tracked registry c? fun _ d => d.Origin registry c? where
  read _ p _ _ hd := Or.inl ⟨p, hd⟩
  supplied _ p _ _ hd := Or.inr (Or.inl ⟨p, hd⟩)
  made _ _ hd := Or.inr (Or.inr hd)
  item _ _ _ _ h := h
  member _ _ _ _ h := h

/-- Induction over what is read: a property that holds of what stands in defaults and of what
codecs make, and of an entity that is read as soon as it holds of those nested in it. -/
theorem Entity.ReadFrom.nested {P : Entity → Prop} (hregistry : registry.WellFormed)
    (hpresets : ∀ name, ∀ s ∈ registry.schemas name, ∀ d, s.Presets d → P d)
    (hread : ∀ e p, Entity.ReadFrom registry c? p e → (∀ d, e.Holds d → P d) → P e) {e : Entity}
    {p : Primitive} (h : e.ReadFrom registry c? p)
    (hmade : ∀ d, e.Holds d → Codecs.Makes d → P d) : P e := by
  induction e using Entity.nested generalizing p with
  | h e ih =>
      refine hread e p h ?_
      rintro d ⟨q, hq, hd⟩
      have hcodec (hd' : Codecs.Makes d) : P d := hmade d ⟨q, hq, hd⟩ hd'
      have hsupplied (p : Primitive) (hd' : d.Supplied registry c? p) : P d := by
        obtain ⟨v, s, n, f, j, x, -, hs, hf, -, -, -, hx, hdx⟩ := hd'
        exact hpresets _ s (Registry.resolve_eq_ok hs).1 d
          ⟨(n, f), Record.mem_of_get? hf, x, hx, hdx⟩
      have hdata (m : String × Json) (_ : m ∈ p.data) :
          m.2.FieldsHave registry c? fun _ d => d.Origin registry c? :=
        (tracked_origin.entities hregistry m.2).2
      rcases h.origin hdata hq hd with ⟨-, -, ⟨p', hread⟩ | ⟨p', hd'⟩ | hd'⟩ | hd' | hd'
      · refine ih q hq d hd hread ?_
        exact fun x hx => hmade x (Holds.trans ⟨q, hq, hd⟩ (mem_graph_iff.mpr (Or.inr hx)))
      · exact hsupplied p' hd'
      · exact hcodec hd'
      · exact hsupplied p hd'
      · exact hcodec hd'

/-- What is read is sound, if the registered schemas have sound defaults and codecs make
sound entities. -/
theorem Entity.ReadFrom.sound (hregistry : registry.WellFormed)
    (hpresets : ∀ name, ∀ s ∈ registry.schemas name, ∀ d, s.Presets d → d.Sound) {e : Entity}
    {p : Primitive} (h : e.ReadFrom registry c? p)
    (hmade : ∀ d, e.Holds d → Codecs.Makes d → d.Sound) : e.Sound := by
  refine h.nested hregistry hpresets (fun e p h hheld => ?_) hmade
  exact ⟨h.wellFormed hregistry, hheld, hpresets _ _ (Registry.resolve_eq_ok h.schema).1⟩

end

/-! ## Lists -/

theorem Schema.itemType?_eq_some_iff {s : Schema} {type : String} :
    s.itemType? = some type ↔ ∃ isNullable default?,
      s.fields = [(itemsField, ⟨.listOfObjects type, isNullable, default?⟩)] := by
  constructor
  · intro h
    rw [itemType?] at h
    split at h
    · next name type' isNullable default? hfields =>
        split at h
        · next hname =>
            cases h
            exact ⟨isNullable, default?, hname ▸ hfields⟩
        · cases h
    · cases h
  · rintro ⟨isNullable, default?, hfields⟩
    rw [itemType?, hfields]
    rfl

theorem Schema.exists_itemsField {s : Schema} (h : s.isList = true) :
    ∃ type isNullable default?,
      s.fields = [(itemsField, ⟨.listOfObjects type, isNullable, default?⟩)] := by
  obtain ⟨type, htype⟩ := Option.isSome_iff_exists.mp h
  exact ⟨type, itemType?_eq_some_iff.mp htype⟩

namespace EntityList

section

variable [Codecs]

/-- A list type stores the empty list as it is. -/
theorem store_nil {e e' : Entity} (hlist : e.schema.isList = true)
    (h : e.store Schema.itemsField (.list []) = .ok e') :
    e' = e.storeCoerced Schema.itemsField (.list []) := by
  obtain ⟨f, w, hf, hw, rfl⟩ := Entity.store_eq_ok_iff.mp h
  obtain ⟨type, isNullable, default?, hfields⟩ := Schema.exists_itemsField hlist
  rw [Schema.field?, hfields, Record.get?, if_pos rfl] at hf
  cases hf
  cases hw
  rfl

theorem isList_of_ofEntity {e : Entity} {l : EntityList} (h : ofEntity e = .ok l) :
    e.schema.isList = true := by
  by_cases hlist : e.schema.isList = true
  · exact hlist
  · rw [ofEntity, if_pos hlist] at h
    cases h

/-- Wrapping puts the empty list where there is none, and nothing else. -/
theorem ofEntity_step {e : Entity} {l : EntityList} (h : ofEntity e = .ok l) :
    Step (fun _ => False) e l.inner := by
  have hlist := isList_of_ofEntity h
  rw [ofEntity, if_neg (not_not.mpr hlist)] at h
  split at h
  · cases h
    exact .refl
  · obtain ⟨e', he', rfl⟩ := Except.map_eq_ok_iff.mp h
    obtain ⟨f, w, hf, -⟩ := Entity.store_eq_ok_iff.mp he'
    rw [store_nil hlist he']
    exact .storeCoerced (Entity.mem_fieldNames hf) fun _ hd => nomatch hd

theorem isList_of_ofSchema {s : Schema} {l : EntityList} (h : ofSchema s = .ok l) :
    s.isList = true := by
  obtain ⟨e, he, h⟩ := Except.bind_eq_ok_iff.mp h
  obtain ⟨f, w, -, -, rfl⟩ := Entity.store_eq_ok_iff.mp he
  exact isList_of_ofEntity h

theorem ofSchema_step {s : Schema} {l : EntityList} (h : ofSchema s = .ok l) :
    Step (fun _ => False) (Entity.ofSchema s) l.inner := by
  have hlist := isList_of_ofSchema h
  obtain ⟨e, he, h⟩ := Except.bind_eq_ok_iff.mp h
  obtain ⟨f, w, hf, -⟩ := Entity.store_eq_ok_iff.mp he
  refine .trans ?_ (ofEntity_step h)
  rw [store_nil hlist he]
  exact .storeCoerced (Entity.mem_fieldNames hf) fun _ hd => nomatch hd

end

/-- A list is given the entity that it appends. -/
theorem push_step {l l' : EntityList} {item : Entity} (h : l.push item = .ok l') :
    Step (· ∈ item.graph) l.inner l'.inner := by
  rw [push] at h
  split at h
  · cases h
  · obtain ⟨v, hv, h⟩ := Except.bind_eq_ok_iff.mp h
    cases h
    refine .trans ?_ (.markChanged _)
    split
    · next vs =>
        obtain ⟨⟨f, hf⟩, hvalue⟩ := Entity.get_eq_ok_iff.mp hv
        refine .storeCoerced (Entity.mem_fieldNames hf) ?_
        intro d hd
        rw [Value.graph, Value.itemGraph_eq, List.flatMap_append, List.mem_append] at hd
        rcases hd with hd | hd
        · refine Or.inl ⟨_, Record.mem_of_get? hvalue, ?_⟩
          rwa [Value.graph, Value.itemGraph_eq]
        · rw [List.flatMap_singleton] at hd
          exact Or.inr (Or.inr hd)
    · exact .refl

theorem pushRecords_sound {ρ : Type} {c : Context} {item : Schema} {build : ρ → Update Unit}
    {records : List ρ} {l l' : EntityList} (hl : l.inner.Sound)
    (hbuild : ∀ r ∈ records, (build r ((Entity.ofSchema item).bound c)).2.Sound)
    (h : pushRecords c item build records l = .ok l') : l'.inner.Sound := by
  induction records generalizing l with
  | nil => cases h; exact hl
  | cons r records ih =>
      obtain ⟨hr, hbuild⟩ := List.forall_mem_cons.mp hbuild
      rw [pushRecords] at h
      rcases hbuilt : build r ((Entity.ofSchema item).bound c) with ⟨_ | _, e⟩
      · rw [hbuilt] at h
        cases h
      · rw [hbuilt] at h hr
        obtain ⟨next, hpush, h⟩ := Except.bind_eq_ok_iff.mp h
        exact ih (hl.step (push_step hpush) fun d _ hd => hr.settled.graph hd) hbuild h

theorem ofRecords_sound [Codecs] {ρ : Type} {c : Context} {list item : Schema} {records : List ρ}
    {build : ρ → Update Unit} {l : EntityList} (hlist : (Entity.ofSchema list).Sound)
    (hbuild : ∀ r ∈ records, (build r ((Entity.ofSchema item).bound c)).2.Sound)
    (h : ofRecords c list item records build = .ok l) : l.inner.Sound := by
  obtain ⟨first, hfirst, h⟩ := Except.bind_eq_ok_iff.mp h
  obtain ⟨last, hlast, h⟩ := Except.bind_eq_ok_iff.mp h
  cases h
  have hsound := hlist.step (ofSchema_step hfirst) fun _ _ h => h.elim
  have hpushed := pushRecords_sound hsound hbuild hlast
  exact (hpushed.withContext? (some c)).settled

end EntityList

end Skew

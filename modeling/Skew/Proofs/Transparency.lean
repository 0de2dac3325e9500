import Skew.Proofs.Replies

/-!
# Calls here and elsewhere

A method called through a conductor runs on the arrival of the entity and of the
arguments. For a transparent program this makes no difference: the call answers what it
would have answered here, and leaves the entity as it would have left it
(`Conductor.call_mirrors`).

The two runs are alike step by step, so the run elsewhere ends where the run here ends;
what the wire then does to the reply is the subject of the modules before.
-/

namespace Skew

variable {σ : Type}

/-! ## Calls and forwarded calls -/

section

variable [Codecs]

/-- The checks of a call of a remotable method, in their order. -/
theorem Dispatcher.call_remotable (d : Dispatcher σ) {e : Entity} {method : String} {m : Method}
    (hmethod : e.schema.method? method = some m) (hscope : m.scope = .ofInstance)
    (hremotable : m.remotable = true) (args : Args) (s : σ) :
    d.call method args e s =
      if args.context?.isSome then ((.error (.action method .positionalContext), e), s)
      else match e.context? with
        | none => ((.error (.orphanedEntity method e.typeName), e), s)
        | some c => match d.transport? with
          | some t => forward t c method args e s
          | none => d.bodies.ofInstance m.body args e s := by
  have hget : (get : EntityRun σ Entity) e s = ((.ok e, e), s) := rfl
  have hm : (liftM (e.schema.requireMethod method) : EntityRun σ Method) e s = ((.ok m, e), s) := by
    rw [Schema.requireMethod, hmethod]
    rfl
  rw [call, EntityRun.bind_ok hget, EntityRun.bind_ok hm]
  simp only [hscope, hremotable, ne_eq, not_true_eq_false, if_false]
  split
  · rfl
  · cases e.context? with
    | none => rfl
    | some c => cases d.transport? <;> rfl

theorem Dispatcher.call_eq (d : Dispatcher σ) {e : Entity} {method : String} {m : Method}
    (hmethod : e.schema.method? method = some m) (hscope : m.scope = .ofInstance)
    (hremotable : m.remotable = true) (args : Args) {c : Context}
    (hcontext : e.context? = some c) (s : σ) :
    d.call method args e s =
      if args.context?.isSome then ((.error (.action method .positionalContext), e), s)
      else match d.transport? with
        | some t => forward t c method args e s
        | none => d.bodies.ofInstance m.body args e s := by
  rw [d.call_remotable hmethod hscope hremotable, hcontext]

section

variable {t : Transport σ} {c : Context} {method : String} {args : Args} {e e' : Entity} {s s' : σ}

theorem Dispatcher.forward_error {err : EntityError}
    (h : t.instanceAction c e method args s = (.error err, s')) :
    forward t c method args e s = ((.error err, e), s') := by
  have hget : (get : EntityRun σ Entity) e s = ((.ok e, e), s) := rfl
  have hsent : EntityRun.ofRun (t.instanceAction c e method args) e s = ((.error err, e), s') := by
    rw [EntityRun.ofRun, h]
  rw [forward, EntityRun.bind_ok hget, EntityRun.bind_error hsent]

/-- A reply that cannot be taken over leaves the entity as it was. -/
theorem Dispatcher.forward_refused {r : Reply} {err : EntityError}
    (h : t.instanceAction c e method args s = (.ok r, s')) (hreply : applyReply e r = .error err) :
    forward t c method args e s = ((.error err, e), s') := by
  have hget : (get : EntityRun σ Entity) e s = ((.ok e, e), s) := rfl
  have hsent : EntityRun.ofRun (t.instanceAction c e method args) e s = ((.ok r, e), s') := by
    rw [EntityRun.ofRun, h]
  rw [forward, EntityRun.bind_ok hget, EntityRun.bind_ok hsent, hreply]
  rfl

theorem Dispatcher.forward_ok {r : Reply}
    (h : t.instanceAction c e method args s = (.ok r, s')) (hreply : applyReply e r = .ok e') :
    forward t c method args e s = ((.ok r.result, e'), s') := by
  have hget : (get : EntityRun σ Entity) e s = ((.ok e, e), s) := rfl
  have hsent : EntityRun.ofRun (t.instanceAction c e method args) e s = ((.ok r, e), s') := by
    rw [EntityRun.ofRun, h]
  rw [forward, EntityRun.bind_ok hget, EntityRun.bind_ok hsent, hreply]
  rfl

end

end

/-! ## The wire -/

section

variable [Codecs]

structure Args.Portable (registry : Registry) (a : Args) : Prop where
  positional : ∀ v ∈ a.positional, v.Portable registry
  named : ∀ p ∈ a.named, p.2.Portable registry

/-- The arguments as they arrive. -/
def Args.received (c? : Option Context) (a : Args) : Args :=
  ⟨none, a.positional.map (Value.received c?), a.named.map fun p => (p.1, p.2.received c?)⟩

omit [Codecs] in
theorem Args.alike_received {a : Args} (h : a.context? = none) (c? : Option Context) :
    a.Alike (a.received c?) where
  context := h
  positional := by
    rw [received, List.map_map]
    exact List.map_congr_left fun v _ => v.alike_received c?
  named := by
    rw [received, List.map_map]
    exact List.map_congr_left fun p _ => congrArg (p.1, ·) (p.2.alike_received c?)

namespace Conductor

variable (k : Conductor σ) {c : Context}

theorem transferArgs_eq {a : Args} (h : a.Portable k.registry) :
    k.transferArgs c a = pure (a.received (some c)) := by
  have htransfer (v : Value) (hv : v.Portable k.registry) :
      k.transfer c v = pure (v.received (some c)) := by
    obtain ⟨j, hj, hread⟩ := Value.Portable.comes_back k.server (some c) hv
    rw [transfer, hj]
    exact hread
  have hnamed (p : String × Value) (hp : p ∈ a.named) :
      (k.transfer c p.2 >>= fun v => pure (p.1, v)) =
        (pure (p.1, p.2.received (some c)) : Run σ (String × Value)) := by
    rw [htransfer p.2 (h.named p hp), pure_bind]
  rw [transferArgs, List.mapM_eq_pure fun v hv => htransfer v (h.positional v hv), pure_bind]
  exact (congrArg (· >>= _) (List.mapM_eq_pure hnamed)).trans (pure_bind _ _)

theorem reply_eq {v : Value} (h : v.Portable k.client.registry) :
    k.reply c v none = pure (v.received (some c)) := by
  obtain ⟨j, hj, hread⟩ := h.comes_back k.client (some c)
  have hreply : k.reply c v none = (liftM v.serialize >>= k.client.deserialize (some c)) := by
    cases v <;> rfl
  rw [hreply, hj]
  exact hread

/-- What is answered when a call has succeeded. -/
def report (c : Context) (before after : Entity) (result : Value) : Run σ Reply := do
  let updates ← k.updates c before after
  let result ← k.reply c result none
  pure ⟨updates, after.whatChanged, result⟩

/-- A forwarded call: the body runs on what arrives, and its success is reported. -/
theorem instanceAction_eq {e d after : Entity} {p : Primitive} {args received : Args}
    {method : String} {s s' : σ} {x : Outcome Value} (hwrite : e.write = .ok p)
    (hread : k.server.deserialize (some c) p.toJson = pure (.entity d))
    (hargs : k.transferArgs c args = pure received)
    (hcall : k.dispatcher.call method received (d.bound c) s = ((x, after), s')) :
    k.instanceAction c e method args s =
      (liftM x >>= k.report c (d.bound c) after : Run σ Reply) s' := by
  have hget : (get : Run σ σ) s = (.ok s, s) := rfl
  rw [instanceAction, hwrite]
  show (k.server.deserialize (some c) p.toJson >>= _ : Run σ Reply) s = _
  rw [hread, pure_bind]
  simp only
  rw [hargs, pure_bind, ExceptT.bind_ok hget, hcall]
  cases x <;> rfl

end Conductor

/-! ## Transparency -/

/-- What a call may leave behind for the wire to bring back: entities that can be written,
and no map in a field that could be taken for an entity. -/
structure Entity.Survives (registry : Registry) (e : Entity) : Prop where
  writable : ∀ d ∈ e.graph, d.Writable registry
  unnamed : ∀ p ∈ e.values, Primitive.nameKey ∉ p.2.keys

/-- Two calls on one entity with the same outcome: the same refusal, or equal results, and
then entities that mirror each other under the context and version they had. -/
structure Entity.SameCall (e : Entity) (near far : (Outcome Value × Entity) × σ) : Prop where
  results : near.1.1.Matching (fun v w => (w == v) = true) far.1.1
  entities : ∀ v, near.1.1 = .ok v → near.1.2.Mirrors e.context? far.1.2 ∧
    near.1.2.context? = e.context? ∧ near.1.2.version = e.version
  states : far.2 = near.2

omit [Codecs] in
theorem Value.Alike.keys {v w : Value} (h : v.Alike w) : v.keys = w.keys := by
  rw [← v.keys_received none, h, w.keys_received]

theorem Entity.Survives.beq_self {registry : Registry} {e : Entity} (h : e.Survives registry) :
    ∀ p ∈ e.values, Value.beq p.2 p.2 = true := fun p hp =>
  Value.beq_self ((h.writable e e.self_mem_graph).exact p hp) fun d hd =>
    (Entity.forall_graph_values h.writable p hp d hd).exact

/-- What survives here survives elsewhere. -/
theorem Entity.Alike.survives {registry : Registry} {d e : Entity} (h : d.Alike e)
    (hd : d.Survives registry) : e.Survives registry where
  writable := by
    cases h.value.portable (.entity hd.writable) with
    | entity he => exact he
  unnamed p hp := by
    have hmem : (p.1, p.2.received none) ∈ (d.received none).values := by
      rw [h.arrival, e.received_values]
      exact List.mem_map_of_mem (f := fun p => (p.1, p.2.received none)) hp
    rw [d.received_values] at hmem
    obtain ⟨q, hq, heq⟩ := List.mem_map.mp hmem
    have hqp : q.2.Alike p.2 := congrArg Prod.snd heq
    exact hqp.keys ▸ hd.unnamed q hq

/-- What survives can be sent back field by field. -/
theorem Entity.Survives.decodes (n : Endpoint σ) {e : Entity} (h : e.Survives n.registry)
    (hplain : ∀ p ∈ e.schema.fields, p.2.kind.Plain) (c? : Option Context) (name : String)
    (f : Field) (v : Value) (hf : e.schema.field? name = some f)
    (hv : Record.get? e.values name = some v) :
    ∃ j w, v.write name f.kind = .ok j ∧ n.deserialize c? j = pure w ∧
      f.coerce w = .ok (v.received c?) := by
  have hmem := Record.mem_of_get? hv
  have he := h.writable e e.self_mem_graph
  exact Field.decodes n (he.stored _ hmem f hf) (hplain _ (Record.mem_of_get? hf))
    (he.exact _ hmem)
    (fun d hd => Entity.returns fun x hx =>
      Entity.forall_graph_values h.writable _ hmem x (Value.graph_trans hd hx))
    (h.unnamed _ hmem) name

namespace Conductor

variable (k : Conductor σ) {c : Context} {body : Args → Program} {method : String} {m : Method}

/-- A forwarded call of a program runs it on what arrives. -/
theorem instanceAction_run {e far : Entity} {args : Args} {x : Outcome Value}
    (hmethod : e.schema.method? method = some m) (hscope : m.scope = .ofInstance)
    (hremotable : m.remotable = true)
    (hbody : ∀ a, k.bodies.ofInstance m.body a = EntityRun.ofUpdate (body a).run)
    (he : ∀ d ∈ e.graph, d.Sendable k.registry) (hargs : args.Portable k.registry)
    (hrun : (body (args.received (some c))).run (e.received (some c)) = (x, far)) (s : σ) :
    k.instanceAction c e method args s =
      (liftM x >>= k.report c (e.received (some c)) far : Run σ Reply) s := by
  obtain ⟨p, hwrite, hread⟩ : e.Returns k.registry (some c) :=
    Entity.returns fun x hx => (he x hx).toWritable
  have hbound : (e.received (some c)).bound c = e.received (some c) := by
    rw [Entity.received_eq]
    rfl
  have hcall : k.dispatcher.call method (args.received (some c))
      ((e.received (some c)).bound c) s = ((x, far), s) := by
    rw [hbound, Dispatcher.call_eq _ ((e.received_schema _).symm ▸ hmethod) hscope hremotable _
      (e.received_context? (some c))]
    exact (congrFun (congrFun (hbody _) _) s).trans (congrArg (·, s) hrun)
  rw [k.instanceAction_eq hwrite (k.server.deserialize_toJson hread) (k.transferArgs_eq hargs)
    hcall, hbound]

/-- A successful run that survives is reported in full. -/
theorem report_eq (c : Context) (before : Entity) {far : Entity} {w : Value}
    (hfar : far.Survives k.client.registry)
    (hplain : ∀ p ∈ far.schema.fields, p.2.kind.Plain) (hw : w.Portable k.client.registry) :
    ∃ us staged,
      k.report c before far w = pure ⟨us, far.whatChanged, w.received (some c)⟩ ∧
      Dispatcher.stageUpdates far.schema us = .ok staged ∧ (staged.map (·.1)).Nodup ∧
      ∀ n, Record.get? staged n = if isUpdated before far n then
        (Record.get? far.values n).map (Value.received (some c)) else none := by
  obtain ⟨us, staged, hupdates, hstage, hnodup, hstaged⟩ := k.updates_staged before
    (hfar.writable far far.self_mem_graph).coherent (hfar.decodes k.client hplain (some c))
  refine ⟨us, staged, ?_, hstage, hnodup, hstaged⟩
  rw [report, hupdates, pure_bind, k.reply_eq hw, pure_bind]

/-- **Location transparency.** A call through a conductor and the same call here have the
same outcome, when both ends share a registry, the method is a transparent program, and
the wire brings back the arguments and what the call leaves behind. -/
theorem call_mirrors (k : Conductor σ) (caller : Bodies σ) (body : Args → Program)
    (method : String) (m : Method) (e : Entity) (c : Context) (args : Args) (s : σ)
    (hregistry : k.client.registry = k.registry)
    (hmethod : e.schema.method? method = some m) (hscope : m.scope = .ofInstance)
    (hremotable : m.remotable = true)
    (hbody : ∀ a, k.bodies.ofInstance m.body a = EntityRun.ofUpdate (body a).run)
    (htransparent : Program.Transparent body) (hcontext : e.context? = some c)
    (hplain : ∀ p ∈ e.schema.fields, p.2.kind.Plain) (he : ∀ d ∈ e.graph, d.Sendable k.registry)
    (hargs : args.Portable k.registry)
    (hsurvives : ∀ v e', (body args).run e = (.ok v, e') →
      v.Portable k.registry ∧ e'.Survives k.registry) :
    e.SameCall (k.dispatcher.call method args e s)
      ((⟨k.registry, caller, some k.transport⟩ : Dispatcher σ).call method args e s) := by
  rw [Dispatcher.call_eq _ hmethod hscope hremotable args hcontext,
    Dispatcher.call_eq _ hmethod hscope hremotable args hcontext]
  cases hpositional : args.context? with
  | some x => exact ⟨.error _, fun _ h => (by cases h), rfl⟩
  | none =>
      have hhere : k.dispatcher.bodies.ofInstance m.body args e s = ((body args).run e, s) :=
        congrFun (congrFun (hbody args) e) s
      show e.SameCall (k.dispatcher.bodies.ofInstance m.body args e s)
        (Dispatcher.forward k.transport c method args e s)
      rw [hhere]
      -- The two runs are alike.
      have hself := he e e.self_mem_graph
      have hed : e.Alike (e.received (some c)) := Entity.alike_received hcontext
      obtain ⟨houtcome, hends⟩ := (htransparent _ _ (Args.alike_received hpositional (some c))).run
        hed (hed.schema ▸ hplain)
      have hgrows := (body args).run_grows e
      have hnear := (body args).run_wellFormed ⟨hself.coherent, hself.changed⟩
      rcases hx : (body args).run e with ⟨x, near⟩
      rcases hy : (body (args.received (some c))).run (e.received (some c)) with ⟨y, far⟩
      rw [hx] at hgrows hnear
      rw [hx, hy] at houtcome hends
      have hthere := k.instanceAction_run hmethod hscope hremotable hbody he hargs hy s
      cases houtcome with
      | error err =>
          rw [Dispatcher.forward_error (t := k.transport) hthere]
          exact ⟨.error err, fun _ h => (by cases h), rfl⟩
      | @ok v w hvw =>
          obtain ⟨hv, hsurvives⟩ := hsurvives v near hx
          -- What differs is sent back and stored, and the caller ends like the run here.
          have hschema : far.schema = e.schema := hends.schema.symm.trans hgrows.schema
          obtain ⟨us, staged, hreport, hstage, hnodup, hstaged⟩ :=
            k.report_eq c (e.received (some c)) (hregistry ▸ hends.survives hsurvives)
              (hschema ▸ hplain) (hregistry ▸ hvw.portable hv)
          rw [hschema] at hstage
          rw [Dispatcher.forward_ok (t := k.transport) (hthere.trans (congrFun hreport s))
            (Dispatcher.applyReply_eq hstage)]
          refine ⟨.ok ?_, fun u hu => ⟨?_, hgrows.context, hgrows.version⟩, rfl⟩
          · have hwv : (w.received (some c)).Alike v :=
              (w.alike_received (some c)).symm.trans hvw.symm
            exact (hwv.beq (.refl v)).trans hv.beq_self
          · exact Entity.mirrors_takeOver ⟨hself.coherent, hself.changed⟩ hnear hgrows hends
              hsurvives.beq_self hnodup hstaged

end Conductor

end

/-! ## A probe

A routine counts a sample, stores labels that arrive as a list, and answers the entity it
works on, with a composed entity that it never touched. -/

namespace Probe

attribute [local instance] Codecs.none

def cellSchema : Schema :=
  ⟨"Cell", ⟨1, 0, none⟩, [("charge", ⟨.integer true, false, none⟩)], [], [], none⟩

def schema : Schema :=
  ⟨"Probe", ⟨1, 2, none⟩, [("count", ⟨.integer false, false, none⟩),
    ("labels", ⟨.set .string, false, none⟩), ("cell", ⟨.object "Cell", true, none⟩),
    ("since", ⟨.datetime, true, none⟩)], [], [("sample", ⟨.ofInstance, true, ⟨"sample", ""⟩⟩)],
    none⟩

def types : Registry := ⟨[("Cell", [cellSchema]), ("Probe", [schema])]⟩

def sample : Routine :=
  [.assign "count" (.successor "count"), .assign "labels" (.argument 0 "labels"), .answer .itself]

def conductor : Conductor Unit :=
  ⟨Endpoint.ofRegistry types, types,
    ⟨fun r _ => throw (.transport r.routine), fun _ => sample.asInstanceMethod⟩⟩

def context : Context := .ofUser "r1" "u" "p"

def cell : Entity := ⟨cellSchema, ⟨1, 0, none⟩, none, [("charge", .int 7)], ["charge"]⟩

def probe : Entity :=
  ⟨schema, ⟨1, 2, none⟩, some context, [("cell", .entity cell), ("count", .int 1),
    ("since", .datetime ⟨0, 0⟩)], []⟩

def sampled : Entity :=
  ⟨schema, ⟨1, 2, none⟩, some context, [("cell", .entity cell), ("count", .int 2),
    ("labels", .set [.str "a", .str "b"]), ("since", .datetime ⟨0, 0⟩)], ["count", "labels"]⟩

def labels : Args := ⟨none, [.list [.str "a", .str "b", .str "a"]], []⟩

theorem cell_sendable : cell.Sendable types where
  coherent := by decide
  changed := by decide
  known := rfl
  stored := List.forall_mem_cons.mpr ⟨fun _ hf => by cases hf; rfl, nofun⟩
  lossless := List.forall_mem_cons.mpr ⟨trivial, nofun⟩
  exact := List.forall_mem_cons.mpr ⟨List.forall_mem_cons.mpr ⟨trivial, nofun⟩, nofun⟩

theorem probe_sendable : probe.Sendable types where
  coherent := by decide
  changed := by decide
  known := rfl
  stored := by
    simp only [probe, List.forall_mem_cons]
    exact ⟨fun _ hf => by cases hf; rfl, fun _ hf => by cases hf; rfl,
      fun _ hf => by cases hf; rfl, List.forall_mem_nil _⟩
  lossless := by
    simp only [probe, schema, List.forall_mem_cons, Kind.Lossless]
    exact ⟨trivial, trivial, trivial, trivial, List.forall_mem_nil _⟩
  exact := by
    simp [probe, Value.atoms, Value.Exact]
    exact ⟨Or.inl rfl, by decide⟩

theorem sampled_sendable : sampled.Sendable types where
  coherent := by decide
  changed := by decide
  known := rfl
  stored := by
    simp only [sampled, List.forall_mem_cons]
    exact ⟨fun _ hf => by cases hf; rfl, fun _ hf => by cases hf; rfl,
      fun _ hf => by cases hf; rfl, fun _ hf => by cases hf; rfl, List.forall_mem_nil _⟩
  lossless := probe_sendable.lossless
  exact := by
    simp [sampled, Value.atoms, Value.itemAtoms, Value.Exact]
    exact ⟨Or.inl rfl, by decide⟩

theorem sample_run :
    (Routine.program labels sample).run probe = (.ok (.entity sampled), sampled) := by cbv

theorem graph_sendable : ∀ d ∈ probe.graph, d.Sendable types :=
  List.forall_mem_cons.mpr ⟨probe_sendable, List.forall_mem_cons.mpr ⟨cell_sendable, nofun⟩⟩

theorem sampled_writable : ∀ d ∈ sampled.graph, d.Writable types :=
  List.forall_mem_cons.mpr ⟨sampled_sendable.toWritable,
    List.forall_mem_cons.mpr ⟨cell_sendable.toWritable, nofun⟩⟩

/-- The call succeeds, and it makes no difference where. -/
theorem sample_mirrored :
    (conductor.dispatcher.call "sample" labels probe ()).1 = (.ok (.entity sampled), sampled) ∧
      probe.SameCall (conductor.dispatcher.call "sample" labels probe ())
        ((⟨types, conductor.bodies, some conductor.transport⟩ : Dispatcher Unit).call "sample"
          labels probe ()) := by
  refine ⟨rfl, conductor.call_mirrors conductor.bodies (Routine.program · sample) "sample"
    ⟨.ofInstance, true, ⟨"sample", ""⟩⟩ probe context labels () rfl rfl rfl rfl
    (Routine.asInstanceMethod_eq (by simp [sample])) (Routine.program_alike sample) rfl ?_
    graph_sendable ?_ ?_⟩
  · simp only [probe, schema, List.forall_mem_cons, Kind.Plain]
    exact ⟨trivial, trivial, trivial, trivial, List.forall_mem_nil _⟩
  · refine ⟨List.forall_mem_cons.mpr ⟨.list ?_, nofun⟩, nofun⟩
    simp only [List.forall_mem_cons]
    exact ⟨.str _, .str _, .str _, List.forall_mem_nil _⟩
  · intro v e' h
    rw [sample_run] at h
    cases h
    refine ⟨.entity sampled_writable, sampled_writable, ?_⟩
    simp [sampled, Value.keys, Value.itemKeys]

end Probe

end Skew

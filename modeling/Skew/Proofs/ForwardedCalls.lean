import Skew.Proofs.Decoders
import Skew.Proofs.Soundness

/-!
# Forwarded calls

A remotable method of an instance is forwarded where there is a transport. The course of such a
call is told by `Dispatcher.Course`: it is refused before anything is asked, or the transport is
asked once, and then what it reports is taken over as a whole or not at all
(`Dispatcher.call_all_or_nothing`). That what the transport is asked does not show in its answers,
so it is observed on the same dispatcher with a transport that keeps a log.

The change marks of the caller's entity are replaced by the reported ones. Entities that the
caller keeps, or that were reported, may have marks of their own, and these still count
(`Dispatcher.call_whatChanged`): the changes are exactly the reported ones if and only if every
field that holds such an entity is reported as changed.
-/

namespace Skew

variable {σ : Type}

/-! ## Logs -/

/-- What a transport is asked. -/
inductive Asked where
  | ofClass (context : Context) (type method : String) (version : Version) (args : Args)
  | ofInstance (context : Context) (e : Entity) (method : String) (args : Args)

/-- The transport, with a log of what it is asked. -/
def Transport.logged (t : Transport σ) : Transport (σ × List Asked) where
  classAction c type method version args s :=
    let (r, s') := t.classAction c type method version args s.1
    (r, s', s.2 ++ [.ofClass c type method version args])
  instanceAction c e method args s :=
    let (r, s') := t.instanceAction c e method args s.1
    (r, s', s.2 ++ [.ofInstance c e method args])

/-- The methods ask nothing of the transport. -/
def Bodies.logged (b : Bodies σ) : Bodies (σ × List Asked) where
  ofClass body call s :=
    let (r, s') := b.ofClass body call s.1
    (r, s', s.2)
  ofInstance body args e s :=
    let (r, s') := b.ofInstance body args e s.1
    (r, s', s.2)

def Dispatcher.logged (d : Dispatcher σ) : Dispatcher (σ × List Asked) :=
  ⟨d.registry, d.bodies.logged, d.transport?.map Transport.logged⟩

theorem Transport.instanceAction_logged (t : Transport σ) {c : Context} {e : Entity}
    {method : String} {args : Args} {s s' : σ} {r : Outcome Reply}
    (h : t.instanceAction c e method args s = (r, s')) (log : List Asked) :
    t.logged.instanceAction c e method args (s, log) =
      (r, s', log ++ [.ofInstance c e method args]) := by
  rw [logged]
  simp only [h]

section

variable [Codecs]

/-! ## Taking over -/

/-- The second entity is the first with the declared fields among the updates in their stored
form, and nothing else new but its change marks. -/
structure Entity.Takes (e : Entity) (updates : Record Value) (e' : Entity) : Prop where
  schema : e'.schema = e.schema
  version : e'.version = e.version
  context : e'.context? = e.context?
  reported : ∀ n f v, e.schema.field? n = some f → Record.get? updates n = some v →
    ∃ w, f.coerce v = .ok w ∧ Record.get? e'.values n = some w
  kept : ∀ n, e.schema.field? n = none ∨ Record.get? updates n = none →
    Record.get? e'.values n = Record.get? e.values n

/-- The updates hold, under a declared name, a value that the field refuses. -/
inductive Entity.Refuses (e : Entity) (updates : Record Value) : EntityError → Prop
  | invalid {n : String} {f : Field} {v : Value} {fault : ValueFault}
      (hfield : e.schema.field? n = some f) (hupdate : Record.get? updates n = some v)
      (hfault : f.coerce v = .error fault) : Refuses e updates (.invalidValue n fault)

namespace Dispatcher

theorem takes_of_applyReply {e e' : Entity} {r : Reply} (hupdates : Record.Ascending r.updates)
    (h : applyReply e r = .ok e') : e.Takes r.updates e' := by
  obtain ⟨staged, hstaged, rfl⟩ := applyReply_eq_ok_iff.mp h
  obtain ⟨hsub, -⟩ := stageUpdates_spec hstaged
  refine ⟨rfl, rfl, rfl, fun n f v hf hv => ?_, fun n hn => ?_⟩
  · obtain ⟨w, hw, hget⟩ := get_of_applyReply h hupdates hf hv
    exact ⟨w, hw, (Entity.get_eq_ok_iff.mp hget).2⟩
  · have hunstaged : Record.get? staged n = none := by
      refine Record.get?_eq_none_iff.mpr fun hmem => ?_
      rcases hn with hn | hn
      · obtain ⟨p, hp, rfl⟩ := List.mem_map.mp hmem
        obtain ⟨f, hf, -⟩ := exists_of_mem_stageUpdates hstaged hp
        cases hn.symm.trans hf
      · exact Record.get?_eq_none_iff.mp hn (hsub.subset hmem)
    show Record.get? (Record.update e.values staged) n = Record.get? e.values n
    rw [Record.get?_update (hupdates.nodup.sublist hsub), hunstaged, Option.none_or]

theorem exists_of_stageUpdates_error {s : Schema} {us : Record Value} {err : EntityError}
    (h : stageUpdates s us = .error err) :
    ∃ u ∈ us, ∃ f fault, s.field? u.1 = some f ∧ f.coerce u.2 = .error fault ∧
      err = .invalidValue u.1 fault := by
  induction us with
  | nil => cases h
  | cons u us ih =>
      obtain ⟨n, v⟩ := u
      have hlater (h : stageUpdates s us = .error err) :
          ∃ u ∈ (n, v) :: us, ∃ f fault, s.field? u.1 = some f ∧ f.coerce u.2 = .error fault ∧
            err = .invalidValue u.1 fault := by
        obtain ⟨u, hu, hfault⟩ := ih h
        exact ⟨u, List.mem_cons_of_mem _ hu, hfault⟩
      rw [stageUpdates] at h
      split at h
      · exact hlater h
      · next f hf =>
          cases hcoerce : f.coerce v with
          | error fault =>
              rw [hcoerce] at h
              cases h
              exact ⟨(n, v), List.mem_cons_self, f, fault, hf, hcoerce, rfl⟩
          | ok w =>
              rw [hcoerce, inField_ok, Except.ok_bind] at h
              cases hrest : stageUpdates s us with
              | error err' =>
                  rw [hrest] at h
                  cases h
                  exact hlater hrest
              | ok rest =>
                  rw [hrest] at h
                  cases h

theorem refuses_of_applyReply {e : Entity} {r : Reply} (hupdates : Record.Ascending r.updates)
    {err : EntityError} (h : applyReply e r = .error err) : e.Refuses r.updates err := by
  cases hstaged : stageUpdates e.schema r.updates with
  | ok staged =>
      rw [applyReply_eq hstaged] at h
      cases h
  | error err' =>
      rw [applyReply, hstaged] at h
      cases h
      obtain ⟨u, hu, f, fault, hf, hfault, rfl⟩ := exists_of_stageUpdates_error hstaged
      exact .invalid hf (Record.get?_of_mem hupdates.nodup hu) hfault

/-! ## The course of a call -/

/-- How a call of a remotable method goes where there is a transport: what is asked, and where it
ends. -/
inductive Course (t : Transport σ) (method : String) (args : Args) (e : Entity) (s : σ) :
    List Asked → (Outcome Value × Entity) × σ → Prop
  | positional (hargs : args.context?.isSome = true) :
      Course t method args e s [] ((.error (.action method .positionalContext), e), s)
  | orphaned (hargs : args.context? = none) (hcontext : e.context? = none) :
      Course t method args e s [] ((.error (.orphanedEntity method e.typeName), e), s)
  | failed {c : Context} {err : EntityError} {s' : σ} (hargs : args.context? = none)
      (hcontext : e.context? = some c)
      (hsent : t.instanceAction c e method args s = (.error err, s')) :
      Course t method args e s [.ofInstance c e method args] ((.error err, e), s')
  | refused {c : Context} {r : Reply} {err : EntityError} {s' : σ} (hargs : args.context? = none)
      (hcontext : e.context? = some c) (hsent : t.instanceAction c e method args s = (.ok r, s'))
      (hrefuses : e.Refuses r.updates err) :
      Course t method args e s [.ofInstance c e method args] ((.error err, e), s')
  | taken {c : Context} {r : Reply} {e' : Entity} {s' : σ} (hargs : args.context? = none)
      (hcontext : e.context? = some c) (hsent : t.instanceAction c e method args s = (.ok r, s'))
      (htakes : e.Takes r.updates e') :
      Course t method args e s [.ofInstance c e method args] ((.ok r.result, e'), s')

section

variable {t : Transport σ} {method : String} {args : Args} {e : Entity} {s : σ}

theorem Course.length_le {asked : List Asked} {out : (Outcome Value × Entity) × σ}
    (h : Course t method args e s asked out) : asked.length ≤ 1 := by
  cases h <;> simp

theorem Course.asked_eq {asked : List Asked} {out : (Outcome Value × Entity) × σ}
    (h : Course t method args e s asked out) {a : Asked} (ha : a ∈ asked) :
    args.context? = none ∧ ∃ c, e.context? = some c ∧ a = .ofInstance c e method args := by
  cases h with
  | positional | orphaned => cases ha
  | failed hargs hcontext | refused hargs hcontext | taken hargs hcontext =>
      exact ⟨hargs, _, hcontext, List.mem_singleton.mp ha⟩

theorem Course.eq_of_error {asked : List Asked} {err : EntityError} {e' : Entity} {s' : σ}
    (h : Course t method args e s asked ((.error err, e'), s')) : e' = e := by
  cases h <;> rfl

theorem Course.takes_of_ok {asked : List Asked} {v : Value} {e' : Entity} {s' : σ}
    (h : Course t method args e s asked ((.ok v, e'), s')) :
    ∃ c r, e.context? = some c ∧ t.instanceAction c e method args s = (.ok r, s') ∧
      v = r.result ∧ e.Takes r.updates e' := by
  cases h with
  | taken _ hcontext hsent htakes => exact ⟨_, _, hcontext, hsent, rfl, htakes⟩

/-- What a transport reports for fields is a record. -/
def Reports (t : Transport σ) : Prop :=
  ∀ c e method args s r s', t.instanceAction c e method args s = (.ok r, s') →
    Record.Ascending r.updates

theorem forward_course (hreports : Reports t) {c : Context} (hargs : args.context? = none)
    (hcontext : e.context? = some c) :
    Course t method args e s [.ofInstance c e method args] (forward t c method args e s) ∧
      ∀ log, forward t.logged c method args e (s, log) =
        ((forward t c method args e s).1, (forward t c method args e s).2,
          log ++ [.ofInstance c e method args]) := by
  rcases hsent : t.instanceAction c e method args s with ⟨err | r, s'⟩
  · rw [forward_error hsent]
    exact ⟨.failed hargs hcontext hsent, fun log =>
      forward_error (t.instanceAction_logged hsent log)⟩
  · have hupdates := hreports _ _ _ _ _ _ _ hsent
    cases hreply : applyReply e r with
    | error err =>
        rw [forward_refused hsent hreply]
        exact ⟨.refused hargs hcontext hsent (refuses_of_applyReply hupdates hreply), fun log =>
          forward_refused (t.instanceAction_logged hsent log) hreply⟩
    | ok e' =>
        rw [forward_ok hsent hreply]
        exact ⟨.taken hargs hcontext hsent (takes_of_applyReply hupdates hreply), fun log =>
          forward_ok (t.instanceAction_logged hsent log) hreply⟩

/-- A call takes this course, and asks what the course says. -/
theorem call_course (d : Dispatcher σ) (htransport : d.transport? = some t) (hreports : Reports t)
    {m : Method} (hmethod : e.schema.method? method = some m) (hscope : m.scope = .ofInstance)
    (hremotable : m.remotable = true) :
    ∃ asked, Course t method args e s asked (d.call method args e s) ∧
      ∀ log, d.logged.call method args e (s, log) =
        ((d.call method args e s).1, (d.call method args e s).2, log ++ asked) := by
  have hlogged : d.logged.transport? = some t.logged := by
    rw [logged, htransport]
    rfl
  simp only [d.call_remotable hmethod hscope hremotable,
    d.logged.call_remotable hmethod hscope hremotable, htransport, hlogged]
  cases hargs : args.context? with
  | some c =>
      exact ⟨[], .positional (by rw [hargs]; rfl), fun log => by rw [List.append_nil]; rfl⟩
  | none =>
      cases hcontext : e.context? with
      | none => exact ⟨[], .orphaned hargs hcontext, fun log => by rw [List.append_nil]; rfl⟩
      | some c => exact ⟨_, forward_course hreports hargs hcontext⟩

/-- **All or nothing.** A call of a remotable method that is forwarded asks the transport at most
once, and only without a positional context and for the context that the entity is bound to. If it
ends in an error, whether because it is refused, because the transport fails or because a declared
field refuses what is reported for it, the entity is as it was. If it succeeds, it answers what the
transport reports, and the entity takes over all that is reported for declared fields, in their
stored form, and nothing else. -/
theorem call_all_or_nothing (d : Dispatcher σ) (htransport : d.transport? = some t)
    (hreports : Reports t) {m : Method} (hmethod : e.schema.method? method = some m)
    (hscope : m.scope = .ofInstance) (hremotable : m.remotable = true) :
    ∃ asked,
      (∀ log, d.logged.call method args e (s, log) =
        ((d.call method args e s).1, (d.call method args e s).2, log ++ asked)) ∧
      Course t method args e s asked (d.call method args e s) ∧
      asked.length ≤ 1 ∧
      (∀ a ∈ asked, args.context? = none ∧
        ∃ c, e.context? = some c ∧ a = .ofInstance c e method args) ∧
      (∀ err e' s', d.call method args e s = ((.error err, e'), s') → e' = e) ∧
      ∀ v e' s', d.call method args e s = ((.ok v, e'), s') →
        ∃ c r, e.context? = some c ∧ t.instanceAction c e method args s = (.ok r, s') ∧
          v = r.result ∧ e.Takes r.updates e' := by
  obtain ⟨asked, hcourse, hlog⟩ := call_course d htransport hreports hmethod hscope hremotable
  exact ⟨asked, hlog, hcourse, hcourse.length_le, fun _ => hcourse.asked_eq,
    fun _ _ _ hend => (hend ▸ hcourse).eq_of_error,
    fun _ _ _ hend => (hend ▸ hcourse).takes_of_ok⟩

/-! ## Changes after a call -/

theorem changed_of_applyReply {r : Reply} {e' : Entity} (h : applyReply e r = .ok e') :
    e'.changed = NameSet.ofList (r.changed.filter e'.isSet) := by
  obtain ⟨staged, -, rfl⟩ := applyReply_eq_ok_iff.mp h
  rfl

theorem names_of_applyReply (hvalues : Record.Ascending e.values) {r : Reply} {e' : Entity}
    (h : applyReply e r = .ok e') : (e'.values.map (·.1)).Nodup := by
  obtain ⟨staged, -, rfl⟩ := applyReply_eq_ok_iff.mp h
  exact (hvalues.update staged).nodup

/-- **The reported changes.** After a forwarded call that succeeds, the changed fields of the
caller's entity are those that are reported and set, and those that hold an entity, or a list with
an entity, that has changes of its own. So they are exactly the reported ones if and only if each
of the latter is reported. -/
theorem call_whatChanged {d : Dispatcher σ} (htransport : d.transport? = some t) {m : Method}
    (hmethod : e.schema.method? method = some m) (hscope : m.scope = .ofInstance)
    (hremotable : m.remotable = true) {c : Context} (hcontext : e.context? = some c)
    (hvalues : Record.Ascending e.values) {e' : Entity} {v : Value} {s' : σ}
    (hcall : d.call method args e s = ((.ok v, e'), s')) :
    ∃ r t', t.instanceAction c e method args s = (.ok r, t') ∧
      (∀ n, n ∈ e'.whatChanged ↔ (n ∈ r.changed ∧ e'.isSet n = true) ∨
        ∃ w, Record.get? e'.values n = some w ∧ ∃ x ∈ w.children, x.whatChanged ≠ []) ∧
      (e'.whatChanged = NameSet.ofList (r.changed.filter e'.isSet) ↔
        ∀ n w, Record.get? e'.values n = some w → (∃ x ∈ w.children, x.whatChanged ≠ []) →
          n ∈ r.changed) := by
  obtain ⟨r, t', hsent, hreply⟩ :=
    exists_reply htransport hmethod hscope hremotable hcontext hcall
  have hmarked := changed_of_applyReply hreply
  have hmem (n : String) : n ∈ e'.whatChanged ↔ (n ∈ r.changed ∧ e'.isSet n = true) ∨
      ∃ w, Record.get? e'.values n = some w ∧ ∃ x ∈ w.children, x.whatChanged ≠ [] := by
    simp only [Entity.mem_whatChanged_iff (names_of_applyReply hvalues hreply), hmarked,
      NameSet.mem_ofList, List.mem_filter, Value.hasChanges_iff]
  refine ⟨r, t', hsent, hmem, fun heq n w hw hchanges => ?_, fun h => ?_⟩
  · have hn := (hmem n).mpr (Or.inr ⟨w, hw, hchanges⟩)
    rw [heq, NameSet.mem_ofList, List.mem_filter] at hn
    exact hn.1
  · have hascending : NameSet.Ascending e'.whatChanged := by
      rw [Entity.whatChanged_eq, hmarked]
      exact (NameSet.ascending_ofList _).union _
    refine NameSet.ext hascending (NameSet.ascending_ofList _) fun n => ?_
    rw [hmem, NameSet.mem_ofList, List.mem_filter]
    refine or_iff_left_of_imp ?_
    rintro ⟨w, hw, hchanges⟩
    exact ⟨h n w hw hchanges, Record.contains_iff.mpr ⟨w, hw⟩⟩

end

end Dispatcher

/-- A conductor reports a record. -/
theorem Conductor.reports (k : Conductor σ) : Dispatcher.Reports k.transport := by
  intro c e method args s r s' h
  obtain ⟨before, after, hserves⟩ := k.exists_serves h
  obtain ⟨t, t', hupdates⟩ := k.updates_of_reply h hserves
  exact k.updates_ascending hupdates

end

/-! ## A desk

A drawer that was filed in is kept by both ends of a call. Where the drawer is still marked at the
other end, the desk is reported as changed there too. Where the other end forgets all marks, the
drawer's own mark stays here. -/

namespace Desk

attribute [local instance] Codecs.none

def drawerSchema : Schema :=
  ⟨"Drawer", ⟨1, 0, none⟩, [("files", ⟨.integer true, false, none⟩)], [], [], none⟩

def rename : Method := ⟨.ofInstance, true, ⟨"rename", ""⟩⟩

def tidy : Method := ⟨.ofInstance, true, ⟨"tidy", ""⟩⟩

def schema : Schema :=
  ⟨"Desk", ⟨1, 0, none⟩,
    [("drawer", ⟨.object "Drawer", false, none⟩), ("label", ⟨.string, false, none⟩)], [],
    [("rename", rename), ("tidy", tidy)], none⟩

def types : Registry := Registry.empty.registerAll [drawerSchema, schema]

/-- One method assigns a label, the other forgets all changes. -/
def run (body : BodyRef) : Routine :=
  if body.routine = "tidy" then [.reset true] else [.assign "label" (.const (.str "north"))]

def conductor : Conductor Unit :=
  ⟨Endpoint.ofRegistry types, types,
    ⟨fun b _ => throw (.transport b.routine), fun b => (run b).asInstanceMethod⟩⟩

def here : Dispatcher Unit := ⟨types, conductor.bodies, some conductor.transport⟩

def context : Context := .ofUser "r1" "u" "p"

def drawer (changed : List String) : Entity :=
  ⟨drawerSchema, ⟨1, 0, none⟩, some context, [("files", .int 3)], changed⟩

def desk : Entity :=
  ⟨schema, ⟨1, 0, none⟩, some context, [("drawer", .entity (drawer ["files"])),
    ("label", .str "south")], []⟩

def renamed : Entity :=
  ⟨schema, ⟨1, 0, none⟩, some context, [("drawer", .entity (drawer ["files"])),
    ("label", .str "north")], ["drawer", "label"]⟩

def tidied : Entity :=
  ⟨schema, ⟨1, 0, none⟩, some context, [("drawer", .entity (drawer [])), ("label", .str "south")],
    []⟩

theorem reply_rename : conductor.instanceAction context desk "rename" .empty () =
    (.ok ⟨[("label", .str "north")], ["drawer", "label"], .null⟩, ()) := rfl

theorem reply_tidy : conductor.instanceAction context desk "tidy" .empty () =
    (.ok ⟨[], [], .null⟩, ()) := rfl

theorem call_rename : here.call "rename" .empty desk () = ((.ok .null, renamed), ()) := by
  have htaken : Dispatcher.applyReply desk ⟨[("label", .str "north")], ["drawer", "label"], .null⟩ =
      .ok renamed := rfl
  rw [here.call_eq (m := rename) rfl rfl rfl _ (c := context) rfl]
  exact Dispatcher.forward_ok (t := conductor.transport) reply_rename htaken

theorem call_tidy : here.call "tidy" .empty desk () = ((.ok .null, desk), ()) := by
  have htaken : Dispatcher.applyReply desk ⟨[], [], .null⟩ = .ok desk := rfl
  rw [here.call_eq (m := tidy) rfl rfl rfl _ (c := context) rfl]
  exact Dispatcher.forward_ok (t := conductor.transport) reply_tidy htaken

/-- The label that the other end reports is taken over. -/
theorem rename_taken : Dispatcher.Reports conductor.transport ∧
    here.call "rename" .empty desk () = ((.ok .null, renamed), ()) ∧
    ∃ c r, desk.context? = some c ∧
      conductor.instanceAction c desk "rename" .empty () = (.ok r, ()) ∧
      Value.null = r.result ∧ desk.Takes r.updates renamed := by
  obtain ⟨_, -, -, -, -, -, htaken⟩ := @Dispatcher.call_all_or_nothing Unit _ conductor.transport
    "rename" .empty desk () here rfl conductor.reports rename rfl rfl rfl
  exact ⟨conductor.reports, call_rename, htaken _ _ _ call_rename⟩

/-- All marks are as reported, that of the drawer too. -/
theorem rename_marked : Record.Ascending desk.values ∧
    here.call "rename" .empty desk () = ((.ok .null, renamed), ()) ∧
    ∃ r t, conductor.instanceAction context desk "rename" .empty () = (.ok r, t) ∧
      (∀ n, n ∈ renamed.whatChanged ↔ (n ∈ r.changed ∧ renamed.isSet n = true) ∨
        ∃ w, Record.get? renamed.values n = some w ∧ ∃ x ∈ w.children, x.whatChanged ≠ []) ∧
      (renamed.whatChanged = NameSet.ofList (r.changed.filter renamed.isSet) ↔
        ∀ n w, Record.get? renamed.values n = some w → (∃ x ∈ w.children, x.whatChanged ≠ []) →
          n ∈ r.changed) := by
  have hvalues : Record.Ascending desk.values := by decide
  exact ⟨hvalues, call_rename, Dispatcher.call_whatChanged (d := here) (t := conductor.transport)
    rfl (m := rename) rfl rfl rfl (c := context) rfl hvalues call_rename⟩

/-- The method forgets all changes, and where it runs it leaves a clean desk. Called from here it
reports none, and the desk is not clean. -/
theorem tidied_keeps_mark : Record.Ascending desk.values ∧
    conductor.instanceAction context desk "tidy" .empty () = (.ok ⟨[], [], .null⟩, ()) ∧
    here.call "tidy" .empty desk () = ((.ok .null, desk), ()) ∧ desk.whatChanged = ["drawer"] ∧
    conductor.dispatcher.call "tidy" .empty desk () = ((.ok .null, tidied), ()) ∧
    tidied.whatChanged = [] :=
  ⟨by decide, reply_tidy, call_tidy, rfl, rfl, rfl⟩

end Desk

end Skew

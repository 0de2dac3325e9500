import Skew.Proofs.ClassCalls
import Skew.Proofs.Decoders

/-!
# Results of class calls

A class method that runs on another node answers an entity as that node knows its type. It is
sent at the version by which the caller knows the type, and the caller reads it by its own
schema. So whatever the two nodes know of the type, a call that succeeds answers an entity of
the caller's newest schema, at its version, with the fields that schema declares as far as the
backport left them in the data (`Conductor.callClass_arrives`).

Nothing is assumed of the tables and hooks of the other node: a backport that leaves data the
caller cannot read makes the call fail.
-/

namespace Skew

variable {σ : Type}

section

variable [Codecs]

/-! ## What is sent -/

/-- Where an entity is does not show on the wire. -/
theorem Entity.writeFor_bound (e : Entity) (c : Context) (target? : Option Version) :
    (e.bound c).writeFor target? = e.writeFor target? := by
  cases e
  rfl

/-- What is sent for a peer is of the type of the entity, and stamped with the version that the
peer wants. -/
theorem Entity.stamp_of_writeFor {e : Entity} {target : Version} {p : Primitive}
    (h : e.writeFor (some target) = .ok p) :
    p.name = e.schema.name ∧ ∃ v, p.version = v.text ∧ target.isExactly v = true := by
  rw [writeFor] at h
  split at h
  · next hexact =>
      rw [write_eq] at h
      obtain ⟨data, -, rfl⟩ := Except.map_eq_ok_iff.mp h
      exact ⟨rfl, e.version, rfl, hexact⟩
  · obtain ⟨data, -, h⟩ := Except.bind_eq_ok_iff.mp h
    split at h
    · cases h
      exact ⟨rfl, target, rfl, Version.isExactly_iff.mpr rfl⟩
    · cases h

/-! ## The call -/

omit [Codecs] in
theorem Schema.requireMethod_eq_ok_iff {schema : Schema} {name : String} {m : Method} :
    schema.requireMethod name = .ok m ↔ schema.method? name = some m := by
  rw [requireMethod]
  split
  · next h => simp [h]
  · next h => simp [h]

omit [Codecs] in
/-- A class call that succeeds where there is no transport has run the method, remotable or
not. -/
theorem Dispatcher.ran_of_callClassOn {d : Dispatcher σ} (htransport : d.transport? = none)
    {c : Context} {schema : Schema} {method : String} {args : Args} {u : Value} {s s' : σ}
    (h : d.callClassOn c schema method args s = (.ok u, s')) :
    ∃ m v, schema.method? method = some m ∧
      d.bodies.ofClass m.body ⟨d.registry, schema, c, args⟩ s = (.ok v, s') ∧ u = v.bound c := by
  rw [callClassOn] at h
  obtain ⟨m, t, hm, h⟩ := ExceptT.bind_eq_ok_iff.mp h
  obtain ⟨hm, ht⟩ := ExceptT.liftM_eq_ok_iff.mp hm
  rw [ht] at h
  by_cases hscope : m.scope ≠ .ofClass
  · rw [if_pos hscope] at h
    cases h
  · rw [if_neg hscope] at h
    replace h : (d.bodies.ofClass m.body ⟨d.registry, schema, c, args⟩ >>=
        fun v => pure (v.bound c)) s = (.ok u, s') := by
      rw [← h, htransport]
      cases m.remotable <;> rfl
    obtain ⟨v, t', hv, h⟩ := ExceptT.bind_eq_ok_iff.mp h
    cases h
    exact ⟨m, v, Schema.requireMethod_eq_ok_iff.mp hm, hv, rfl⟩

/-- The conductor's node runs a class method on the arrival of the arguments, as its own newest
schema of the type lists it, and the method answers. -/
def Conductor.RunsClass (k : Conductor σ) (c : Context) (type method : String) (args : Args)
    (s : σ) (v : Value) : Prop :=
  ∃ schema m received s₁ s₂, k.registry.latest type = .ok schema ∧
    schema.method? method = some m ∧ k.transferArgs c args s = (.ok received, s₁) ∧
    k.bodies.ofClass m.body ⟨k.registry, schema, c, received⟩ s₁ = (.ok v, s₂)

/-- A class call that the conductor carries out answers the reply to what the method
answered there. -/
theorem Conductor.runsClass_of_classAction (k : Conductor σ) {c : Context} {type method : String}
    {version : Version} {args : Args} {u : Value} {s s' : σ}
    (h : k.classAction c type method version args s = (.ok u, s')) :
    ∃ v t, k.RunsClass c type method args s v ∧
      k.reply c (v.bound c) (some version) t = (.ok u, s') := by
  rw [classAction] at h
  obtain ⟨received, s₁, hargs, h⟩ := ExceptT.bind_eq_ok_iff.mp h
  obtain ⟨w, t, hcall, h⟩ := ExceptT.bind_eq_ok_iff.mp h
  rw [Dispatcher.callClass] at hcall
  obtain ⟨schema, _, hlatest, hcall⟩ := ExceptT.bind_eq_ok_iff.mp hcall
  obtain ⟨hlatest, ht⟩ := ExceptT.liftM_eq_ok_iff.mp hlatest
  obtain ⟨m, v, hm, hv, hw⟩ := Dispatcher.ran_of_callClassOn rfl hcall
  rw [ht] at hv
  rw [hw] at h
  exact ⟨v, t, ⟨schema, m, received, s₁, t, hlatest, hm, hargs, hv⟩, h⟩

/-- What a caller holds of an entity that another node answered: the entity of the caller's
newest schema of the type, with the fields that are left in what was sent. -/
structure Entity.Arrived (registry : Registry) (c : Context) (type : String) (e r : Entity) :
    Prop where
  schema : registry.latest type = .ok e.schema
  version : e.version.isExactly e.schema.version = true
  context : e.context? = some c
  data : ∃ p, r.writeFor (some e.schema.version) = .ok p ∧
    (∀ n, e.isSet n = true ↔ n ∈ e.schema.fieldNames ∧ Record.contains p.data n = true) ∧
    ∀ n f v, e.schema.field? n = some f → e.get n = .ok v →
      ∃ j, Record.get? p.data n = some j ∧ f.take n (j.reading registry (some c)) = .ok v

omit [Codecs] in
theorem Entity.bound_of_context {e : Entity} {c : Context} (h : e.context? = some c) :
    e.bound c = e := by
  cases e
  cases h
  rfl

/-- A reply to an entity, sent at the version of the caller's newest schema of its type, is
read by that schema. -/
theorem Conductor.arrived_of_reply (k : Conductor σ) (hregistry : k.client.registry.WellFormed)
    (hstrict : k.client.Strict) {c : Context} {r : Entity} {schema : Schema} {u : Value} {s s' : σ}
    (hlatest : k.client.registry.latest r.schema.name = .ok schema)
    (hreply : k.reply c (.entity (r.bound c)) (some schema.version) s = (.ok u, s')) :
    ∃ e, u = .entity e ∧ e.Arrived k.client.registry c r.schema.name r := by
  rw [k.reply_some] at hreply
  obtain ⟨j, t, hj, hread⟩ := ExceptT.bind_eq_ok_iff.mp hreply
  obtain ⟨hj, -⟩ := ExceptT.liftM_eq_ok_iff.mp hj
  rw [Value.sentFor, Entity.writeFor_bound] at hj
  obtain ⟨p, hp, rfl⟩ := Except.map_eq_ok_iff.mp hj
  obtain ⟨e, rfl, he⟩ := Endpoint.Reads.toJson hstrict ⟨t, s', hread⟩
  have hfrom := (Entity.ofPrimitive_eq_ok_iff hregistry).mp he
  obtain ⟨hname, v, hv, hexact⟩ := Entity.stamp_of_writeFor hp
  have hversion : e.version = v := by
    have h := hfrom.version
    rw [hv, Version.ofText_text] at h
    exact (Except.ok.inj h).symm
  have hschema : e.schema = schema := by
    have h := hfrom.schema
    rw [hversion, hname, Registry.resolve_of_latest hlatest hexact] at h
    exact (Except.ok.inj h).symm
  refine ⟨e, rfl, ?_, ?_, hfrom.context, p, ?_, hfrom.isSet_iff, ?_⟩
  · rw [hschema, hlatest]
  · rw [hschema, hversion]
    exact Version.isExactly_iff.mpr (Version.isExactly_iff.mp hexact).symm
  · rw [hschema, hp]
  · intro n f w hf hw
    obtain ⟨g, j, hg, hj, htake⟩ := hfrom.exists_take (Entity.get_eq_ok_iff.mp hw).2
    cases hf.symm.trans hg
    exact ⟨j, hj, htake⟩

/-- **A result arrives at the caller's version.** -/
theorem Conductor.callClass_arrives (k : Conductor σ) (hregistry : k.client.registry.WellFormed)
    (hstrict : k.client.Strict) {d : Dispatcher σ} (hd : d.registry = k.client.registry)
    (htransport : d.transport? = some k.transport) {c : Context} {type method : String}
    {schema : Schema} {m : Method} {args : Args} {u : Value} {s s' : σ}
    (hlatest : k.client.registry.latest type = .ok schema)
    (hmethod : schema.method? method = some m) (hscope : m.scope = .ofClass)
    (hremotable : m.remotable = true)
    (hreturns : ∀ v, k.RunsClass c type method args s v →
      ∃ r, v = .entity r ∧ r.schema.name = type)
    (hcall : d.callClass c type method args s = (.ok u, s')) :
    ∃ r e, k.RunsClass c type method args s (.entity r) ∧ u = .entity e ∧
      e.Arrived k.client.registry c type r := by
  have hname : schema.name = type :=
    hregistry.named type schema (List.mem_of_head? (Registry.latest_eq_ok_iff.mp hlatest))
  rw [d.callClass_eq (hd ▸ hlatest), d.callClassOn_eq hmethod hscope hremotable, htransport]
    at hcall
  obtain ⟨w, s₁, hw, hcall⟩ := ExceptT.bind_eq_ok_iff.mp hcall
  cases hcall
  obtain ⟨v, t, hruns, hreply⟩ := k.runsClass_of_classAction (hname ▸ hw)
  obtain ⟨r, rfl, hr⟩ := hreturns v hruns
  obtain ⟨e, rfl, he⟩ := k.arrived_of_reply hregistry hstrict (hr ▸ hlatest) hreply
  refine ⟨r, e, hruns, ?_, hr ▸ he⟩
  rw [Value.bound, e.bound_of_context he.context]

end

/-! ## A kiosk

The kiosk knows tickets and their venues at 1.0. The office it asks issues them at 1.1, with a
gate, and with the hall of the venue. -/

namespace Kiosk

attribute [local instance] Codecs.none

def methods : Record Method := [("issue", ⟨.ofClass, true, ⟨"issue", ""⟩⟩)]

def city : Field := ⟨.string, false, none⟩

def seat : Field := ⟨.integer true, false, none⟩

def venue : Field := ⟨.object "Venue", false, none⟩

def firstVenue : Schema := ⟨"Venue", ⟨1, 0, none⟩, [("city", city)], [], [], none⟩

def firstTicket : Schema :=
  ⟨"Ticket", ⟨1, 0, none⟩, [("seat", seat), ("venue", venue)], [], methods, none⟩

def secondVenue : Schema :=
  ⟨"Venue", ⟨1, 1, none⟩, [("city", city), ("hall", city)], [], [], none⟩

def secondTicket : Schema :=
  ⟨"Ticket", ⟨1, 1, none⟩, [("seat", seat), ("gate", city), ("venue", venue)],
    [("venue", [(⟨1, 0, none⟩, ⟨1, 0, none⟩), (⟨1, 1, none⟩, ⟨1, 1, none⟩)])], methods, none⟩

def kiosk : Registry := Registry.empty.registerAll [firstVenue, firstTicket]

def office : Registry := Registry.empty.registerAll [secondVenue, secondTicket]

def hall : Entity :=
  ⟨secondVenue, ⟨1, 1, none⟩, none, [("city", .str "Ulm"), ("hall", .str "B")], []⟩

def ticket : Entity :=
  ⟨secondTicket, ⟨1, 1, none⟩, none, [("gate", .str "G2"), ("seat", .int 7),
    ("venue", .entity hall)], []⟩

def conductor : Conductor Unit :=
  ⟨⟨kiosk, none, ⟨false, false⟩⟩, office,
    ⟨fun _ => Routine.asClassMethod [.answer (.const (.entity ticket))],
      fun b _ => throw (.transport b.routine)⟩⟩

def counter : Dispatcher Unit := ⟨kiosk, conductor.bodies, some conductor.transport⟩

def context : Context := .ofUser "r1" "u" "p"

/-- The ticket as the kiosk holds it. -/
def sold : Entity :=
  ⟨firstTicket, ⟨1, 0, none⟩, some context, [("seat", .int 7), ("venue", .entity
    ⟨firstVenue, ⟨1, 0, none⟩, some context, [("city", .str "Ulm")], []⟩)], []⟩

theorem kiosk_wellFormed : kiosk.WellFormed := by
  refine Registry.wellFormed_empty.registerAll ?_
  simp only [List.forall_mem_cons]
  exact ⟨by decide, by decide, List.forall_mem_nil _⟩

theorem latest_firstTicket : kiosk.latest "Ticket" = .ok firstTicket := rfl

/-- The data of the ticket, with its venue at a version. -/
def data (venueVersion : String) : Members :=
  [("gate", .str "G2"), ("seat", .int 7), ("venue", (⟨"nova", "Venue", venueVersion,
    [("city", .str "Ulm"), ("hall", .str "B")], []⟩ : Primitive).toJson)]

theorem ticket_adapted : ticket.makeCompatible ⟨1, 0, none⟩ (data "1.1") = (.ok (), data "1.0") :=
  rfl

theorem ticket_sent : (ticket.bound context).writeFor (some ⟨1, 0, none⟩) =
    .ok (ticket.wrap ⟨1, 0, none⟩ (data "1.0")) := by
  have hexact : Version.isExactly ⟨1, 0, none⟩ ticket.version = false := by decide
  have hdata : ticket.data = .ok (data "1.1") := rfl
  rw [Entity.writeFor_bound, Entity.writeFor, hexact, if_neg Bool.false_ne_true,
    Entity.writeAt_eq hdata, ticket_adapted]

theorem ticket_read : Entity.ofPrimitive kiosk (some context)
    (ticket.wrap ⟨1, 0, none⟩ (data "1.0")) = .ok sold := rfl

theorem reply_ticket : conductor.reply context (.entity (ticket.bound context))
    (some ⟨1, 0, none⟩) = pure (.entity sold) := by
  rw [conductor.reply_some, Value.sentFor, ticket_sent]
  exact conductor.client.deserialize_toJson ticket_read

theorem call_issue : counter.callClass context "Ticket" "issue" .empty () =
    (.ok (.entity sold), ()) := by
  have hargs : conductor.transferArgs context .empty = pure .empty := rfl
  have hcall : conductor.dispatcher.callClass context "Ticket" "issue" .empty =
      pure (.entity (ticket.bound context)) := rfl
  have haction : conductor.classAction context "Ticket" "issue" ⟨1, 0, none⟩ .empty =
      pure (.entity sold) := by
    rw [Conductor.classAction, hargs, pure_bind, hcall, pure_bind, reply_ticket]
  rw [counter.callClass_eq latest_firstTicket,
    counter.callClassOn_eq (m := ⟨.ofClass, true, ⟨"issue", ""⟩⟩) rfl rfl rfl]
  exact ExceptT.bind_ok (congrFun haction ())

theorem issued_at_office {v : Value}
    (h : conductor.RunsClass context "Ticket" "issue" .empty () v) : v = .entity ticket := by
  obtain ⟨schema, m, received, s₁, s₂, hlatest, hmethod, hargs, hrun⟩ := h
  cases hrun
  rfl

/-- The ticket that the office issues at 1.1 arrives at 1.0. -/
theorem issue_arrives : counter.callClass context "Ticket" "issue" .empty () =
    (.ok (.entity sold), ()) ∧ ∃ r e, conductor.RunsClass context "Ticket" "issue" .empty ()
      (.entity r) ∧ Value.entity sold = .entity e ∧ e.Arrived kiosk context "Ticket" r :=
  ⟨call_issue, conductor.callClass_arrives kiosk_wellFormed ⟨rfl, Or.inl rfl⟩ (d := counter) rfl
    rfl latest_firstTicket (m := ⟨.ofClass, true, ⟨"issue", ""⟩⟩) rfl rfl rfl
    (fun _ hv => ⟨ticket, issued_at_office hv, rfl⟩) call_issue⟩

end Kiosk

end Skew

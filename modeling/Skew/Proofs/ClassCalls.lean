import Skew.Proofs.Registries
import Skew.Proofs.Transparency

/-!
# Class calls here and elsewhere

A class method called through a conductor runs on the arrival of the arguments, and its
result is sent back. A result that is an entity is sent at the version that the caller knows
the called type by; every other result is sent as it is.

So it makes no difference where the method runs as long as the result is no entity, or one
of that version already (`Conductor.callClass_mirrors`). Any other entity comes back as what
its backport to that version is read as, and that may be another version of it or nothing
at all.
-/

namespace Skew

variable {σ : Type}

section

variable [Codecs]

/-! ## Values on the wire -/

/-- The version of an entity; other values have none. -/
def Value.version? : Value → Option Version
  | .entity e => some e.version
  | _ => none

/-- The value is sent, and read as the other one. -/
def Value.ReadAs (n : Endpoint σ) (c? : Option Context) (v w : Value) : Prop :=
  ∃ j, v.serialize = .ok j ∧ n.deserialize c? j = pure w

/-- Equal values, of the same version if they are entities. -/
structure Value.Same (v w : Value) : Prop where
  equal : (v == w) = true
  version? : v.version? = w.version?

/-- A portable value survives the wire. -/
theorem Value.Portable.survives (n : Endpoint σ) {v : Value} (h : v.Portable n.registry)
    (c? : Option Context) : ∃ w, v.ReadAs n c? w ∧ w.Same v := by
  obtain ⟨j, hj, hread⟩ := h.comes_back n c?
  refine ⟨v.received c?, ⟨j, hj, hread⟩, ⟨?_, ?_⟩⟩
  · exact ((v.alike_received c?).symm.beq (.refl v)).trans h.beq_self
  · cases v <;> simp [Value.received, Value.version?]

omit [Codecs] in
theorem Value.alike_bound (v : Value) (c : Context) : (v.bound c).Alike v := by
  cases v with
  | entity e => cases e; rfl
  | _ => rfl

omit [Codecs] in
/-- Nothing is read off a context. -/
theorem Value.Same.bound {v w : Value} (h : v.Same w) (c : Context) : (v.bound c).Same w where
  equal := ((v.alike_bound c).beq (.refl w)).trans h.equal
  version? := by
    rw [← h.version?]
    cases v <;> rfl

omit [Codecs] in
theorem Value.context?_of_bound {v : Value} {c : Context} {e : Entity}
    (h : v.bound c = .entity e) : e.context? = some c := by
  cases v <;> cases h
  rfl

/-! ## The call in steps -/

namespace Dispatcher

variable (d : Dispatcher σ) {c : Context} {s : Schema} {method : String} {m : Method}

omit [Codecs] in
theorem callClassOn_eq (hmethod : s.method? method = some m) (hscope : m.scope = .ofClass)
    (hremotable : m.remotable = true) (args : Args) :
    d.callClassOn c s method args = ((match d.transport? with
      | some t => t.classAction c s.name method s.version args
      | none => d.bodies.ofClass m.body ⟨d.registry, s, c, args⟩) >>=
        fun v => pure (v.bound c)) := by
  have hm : (liftM (s.requireMethod method) : Run σ Method) = pure m := by
    rw [Schema.requireMethod, hmethod]
    rfl
  rw [callClassOn, hm, pure_bind]
  simp only [hscope, hremotable, ne_eq, not_true_eq_false, if_false]
  cases d.transport? <;> rfl

omit [Codecs] in
theorem callClass_eq {type : String} (hlatest : d.registry.latest type = .ok s) (args : Args) :
    d.callClass c type method args = d.callClassOn c s method args := by
  rw [callClass, hlatest]
  rfl

end Dispatcher

/-- The document of a result, for a caller that knows the called type at a version. -/
def Value.sentFor (v : Value) (target : Version) : Outcome Json :=
  match v with
  | .entity e => (e.writeFor (some target)).map Primitive.toJson
  | v => v.serialize

theorem Value.sentFor_eq {v : Value} {target : Version}
    (h : ∀ e, v = .entity e → target.isExactly e.version = true) :
    v.sentFor target = v.serialize := by
  cases v with
  | entity e => rw [sentFor, Entity.writeFor, if_pos (h e rfl), serialize]
  | _ => rfl

/-- What a routine answers as the method of a class. -/
def Routine.classOutcome (r : Routine) (call : ClassCall) : Outcome Value :=
  match perform call.args r call.newEntity with
  | (.ok (some v), _) => .ok v
  | (.ok none, e) => .ok (.entity e)
  | (.error err, _) => .error err

/-- Routines are functions of the call. -/
theorem Routine.asClassMethod_eq (r : Routine) (call : ClassCall) :
    r.asClassMethod call = (liftM (r.classOutcome call) : Run σ Value) := by
  rw [asClassMethod, classOutcome]
  rcases perform call.args r call.newEntity with ⟨err | v?, e⟩
  · rfl
  · cases v? <;> rfl

namespace Conductor

variable (k : Conductor σ) {c : Context} {schema : Schema} {type method : String} {m : Method}
  {f : Args → Outcome Value}

/-- A dispatcher with the registry of the conductor, whose calls the conductor runs. -/
def caller (bodies : Bodies σ) : Dispatcher σ := ⟨k.registry, bodies, some k.transport⟩

/-- What a document, once there is one, is for the caller. -/
def answer (c : Context) (x : Outcome Json) : Run σ Value := do
  let j ← x
  let v ← k.client.deserialize (some c) j
  pure (v.bound c)

/-- A reply reads what is sent for the caller. -/
theorem reply_some (c : Context) (v : Value) (target : Version) :
    k.reply c v (some target) =
      (liftM (v.sentFor target) >>= k.client.deserialize (some c)) := by
  cases v <;> rfl

omit [Codecs] in
theorem callClass_here (hlatest : k.registry.latest type = .ok schema)
    (hmethod : schema.method? method = some m) (hscope : m.scope = .ofClass)
    (hremotable : m.remotable = true)
    (hbody : ∀ a, k.bodies.ofClass m.body ⟨k.registry, schema, c, a⟩ = liftM (f a)) (args : Args) :
    k.dispatcher.callClass c type method args = liftM ((f args).map (·.bound c)) := by
  rw [Dispatcher.callClass_eq _ hlatest, Dispatcher.callClassOn_eq _ hmethod hscope hremotable]
  refine (congrArg (· >>= fun v => pure (v.bound c)) (hbody args)).trans ?_
  cases f args <;> rfl

/-- The conductor runs the same method, since the newest schema of a type stands under its
name, and the result is sent back at the version of that schema. -/
theorem callClass_there (bodies : Bodies σ) (hregistry : k.registry.WellFormed)
    (hlatest : k.registry.latest type = .ok schema) (hmethod : schema.method? method = some m)
    (hscope : m.scope = .ofClass) (hremotable : m.remotable = true) {args received : Args}
    (hargs : k.transferArgs c args = pure received) :
    (k.caller bodies).callClass c type method args =
      (k.dispatcher.callClass c type method received >>= fun v =>
        k.answer c (v.sentFor schema.version)) := by
  have hname : schema.name = type :=
    hregistry.named type schema (List.mem_of_head? (Registry.latest_eq_ok_iff.mp hlatest))
  rw [Dispatcher.callClass_eq (k.caller bodies) hlatest,
    Dispatcher.callClassOn_eq _ hmethod hscope hremotable]
  show (k.classAction c schema.name method schema.version args >>= fun v => pure (v.bound c)) = _
  rw [classAction, hargs, pure_bind, hname, bind_assoc]
  refine bind_congr ?_
  intro v
  rw [k.reply_some, bind_assoc]
  rfl

/-- **Location transparency of class calls.** Let a class method be a function of its
arguments, in the context of the call, and let the arguments arrive as some that it cannot
tell from them. If the call here answers a value that survives the wire, the call through the
conductor answers the same value, in that context, provided that it is no entity or one of the
version of the called schema. An entity of another version comes back as its backport to that
version. -/
theorem callClass_mirrors (k : Conductor σ) (bodies : Bodies σ) (type method : String)
    (schema : Schema) (m : Method) (f : Args → Outcome Value) (c : Context)
    (args received : Args) (r : Value) (s : σ) (hregistry : k.registry.WellFormed)
    (hlatest : k.registry.latest type = .ok schema) (hmethod : schema.method? method = some m)
    (hscope : m.scope = .ofClass) (hremotable : m.remotable = true)
    (hbody : ∀ a, k.bodies.ofClass m.body ⟨k.registry, schema, c, a⟩ = liftM (f a))
    (hargs : k.transferArgs c args = pure received) (hsame : f received = f args)
    (hlocal : (k.dispatcher.callClass c type method args s).1 = .ok r) :
    ((∀ e, r = .entity e → schema.version.isExactly e.version = true) →
      ∀ w, r.ReadAs k.client (some c) w → w.Same r →
      ∃ u, (k.caller bodies).callClass c type method args s = (.ok u, s) ∧ u.Same r ∧
        ∀ e, u = .entity e → e.context? = some c) ∧
    (∀ e, r = .entity e → schema.version.isExactly e.version = false →
      (k.caller bodies).callClass c type method args s =
        k.answer c ((e.writeAt schema.version).map Primitive.toJson) s) := by
  have hhere (a : Args) := k.callClass_here hlatest hmethod hscope hremotable hbody a
  have hthere := k.callClass_there bodies hregistry hlatest hmethod hscope hremotable hargs
  have hf : (f args).map (·.bound c) = .ok r := by
    rw [hhere] at hlocal
    rw [← hlocal]
    cases f args <;> rfl
  rw [hhere, hsame, hf] at hthere
  replace hthere : (k.caller bodies).callClass c type method args =
    k.answer c (r.sentFor schema.version) := hthere.trans (pure_bind _ _)
  constructor
  · rintro hexact w ⟨j, hj, hread⟩ hw
    refine ⟨w.bound c, ?_, hw.bound c, fun e he => Value.context?_of_bound he⟩
    rw [hthere, Value.sentFor_eq hexact, hj, answer]
    show (k.client.deserialize (some c) j >>= fun v => pure (v.bound c) : Run σ Value) s = _
    rw [hread]
    rfl
  · rintro e rfl hother
    rw [hthere, Value.sentFor, Entity.writeFor, if_neg (hother ▸ Bool.false_ne_true)]

end Conductor

end

/-! ## A booth

Tickets have a row from 1.1 on. The booth issues a new ticket, and hands back what it is
given to check. -/

namespace Booth

attribute [local instance] Codecs.none

def voucherSchema : Schema :=
  ⟨"Voucher", ⟨1, 0, none⟩, [("code", ⟨.string, false, none⟩)], [], [], none⟩

def firstSchema : Schema :=
  ⟨"Ticket", ⟨1, 0, none⟩, [("seat", ⟨.integer false, false, none⟩)], [], [], none⟩

def schema : Schema :=
  ⟨"Ticket", ⟨1, 1, none⟩, [("seat", ⟨.integer false, false, none⟩),
    ("row", ⟨.integer false, true, none⟩)], [],
    [("issue", ⟨.ofClass, true, ⟨"issue", ""⟩⟩), ("check", ⟨.ofClass, true, ⟨"check", ""⟩⟩)], none⟩

def types : Registry := Registry.empty.registerAll [voucherSchema, firstSchema, schema]

def routine (name : String) : Routine :=
  if name = "issue" then [.assign "seat" (.argument 0 "seat")]
  else [.answer (.argument 0 "item")]

def conductor : Conductor Unit :=
  ⟨Endpoint.ofRegistry types, types,
    ⟨fun b => (routine b.routine).asClassMethod, fun b => (routine b.routine).asInstanceMethod⟩⟩

def context : Context := .ofUser "r1" "u" "p"

def seat : Args := ⟨none, [.int 7], []⟩

def ticket : Entity := ⟨schema, ⟨1, 1, none⟩, some context, [("seat", .int 7)], ["seat"]⟩

def voucher : Entity := ⟨voucherSchema, ⟨1, 0, none⟩, some context, [("code", .str "A1")], []⟩

def old : Entity := ⟨firstSchema, ⟨1, 0, none⟩, some context, [("seat", .int 4)], []⟩

def checking (e : Entity) : Args := ⟨none, [.entity e], []⟩

theorem types_wellFormed : types.WellFormed := by
  refine Registry.wellFormed_empty.registerAll ?_
  simp only [List.forall_mem_cons]
  exact ⟨by decide, by decide, by decide, List.forall_mem_nil _⟩

theorem latest_ticket : types.latest "Ticket" = .ok schema := rfl

theorem issue_here : (conductor.dispatcher.callClass context "Ticket" "issue" seat ()).1 =
    .ok (.entity ticket) := rfl

theorem transferArgs_seat : conductor.transferArgs context seat = pure seat := by
  rw [conductor.transferArgs_eq ⟨List.forall_mem_cons.mpr ⟨.int 7, List.forall_mem_nil _⟩,
    List.forall_mem_nil _⟩]
  rfl

theorem ticket_portable : (Value.entity ticket).Portable types := by
  refine .entity (List.forall_mem_cons.mpr ⟨?_, nofun⟩)
  exact {
    coherent := by decide
    known := rfl
    stored := List.forall_mem_cons.mpr ⟨fun _ hf => by cases hf; rfl, nofun⟩
    lossless := by
      simp only [schema, List.forall_mem_cons, Kind.Lossless]
      exact ⟨trivial, trivial, List.forall_mem_nil _⟩
    exact := List.forall_mem_cons.mpr ⟨List.forall_mem_cons.mpr ⟨trivial, nofun⟩, nofun⟩ }

/-- A ticket is issued, and it makes no difference where. -/
theorem issue_mirrored :
    (conductor.dispatcher.callClass context "Ticket" "issue" seat ()).1 = .ok (.entity ticket) ∧
      ∃ u, (conductor.caller conductor.bodies).callClass context "Ticket" "issue" seat () =
        (.ok u, ()) ∧ u.Same (.entity ticket) ∧ ∀ e, u = .entity e → e.context? = some context := by
  obtain ⟨w, hread, hw⟩ := ticket_portable.survives conductor.client (some context)
  refine ⟨issue_here, (conductor.callClass_mirrors conductor.bodies "Ticket" "issue" schema
    ⟨.ofClass, true, ⟨"issue", ""⟩⟩
    (fun a => (routine "issue").classOutcome ⟨types, schema, context, a⟩) context seat seat
    (.entity ticket) () types_wellFormed latest_ticket rfl rfl rfl
    (fun _ => Routine.asClassMethod_eq _ _) transferArgs_seat rfl issue_here).1 ?_ w hread hw⟩
  intro e he
  cases he
  exact Version.isExactly_iff.mpr rfl

theorem voucher_readAs :
    (Value.entity voucher).ReadAs conductor.client (some context) (.entity voucher) :=
  ⟨_, rfl, rfl⟩

theorem old_readAs : (Value.entity old).ReadAs conductor.client (some context) (.entity old) :=
  ⟨_, rfl, rfl⟩

theorem voucher_checked_here :
    (conductor.dispatcher.callClass context "Ticket" "check" (checking voucher) ()).1 =
      .ok (.entity voucher) := rfl

theorem old_checked_here :
    (conductor.dispatcher.callClass context "Ticket" "check" (checking old) ()).1 =
      .ok (.entity old) := rfl

theorem voucher_checked_there :
    ((conductor.caller conductor.bodies).callClass context "Ticket" "check" (checking voucher)
      ()).1 = .error (.incompatibleVersion "Voucher" ⟨1, 1, none⟩ ⟨1, 0, none⟩) := rfl

theorem old_checked_there :
    ((conductor.caller conductor.bodies).callClass context "Ticket" "check" (checking old) ()).1 =
      .ok (.entity ⟨schema, ⟨1, 1, none⟩, some context, [("seat", .int 4)], []⟩) := rfl

/-- It does make a difference for a result of another version, although the wire brings it
back as an argument and as a result: a voucher is refused, and an old ticket turns into a new
one. -/
theorem not_mirrored_at_other_versions :
    (conductor.transferArgs context (checking voucher) = pure (checking voucher) ∧
      (Value.entity voucher).ReadAs conductor.client (some context) (.entity voucher) ∧
      (conductor.dispatcher.callClass context "Ticket" "check" (checking voucher) ()).1 =
        .ok (.entity voucher) ∧
      ((conductor.caller conductor.bodies).callClass context "Ticket" "check" (checking voucher)
        ()).1 = .error (.incompatibleVersion "Voucher" ⟨1, 1, none⟩ ⟨1, 0, none⟩)) ∧
    (conductor.transferArgs context (checking old) = pure (checking old) ∧
      (Value.entity old).ReadAs conductor.client (some context) (.entity old) ∧
      (conductor.dispatcher.callClass context "Ticket" "check" (checking old) ()).1 =
        .ok (.entity old) ∧
      ∃ u, ((conductor.caller conductor.bodies).callClass context "Ticket" "check" (checking old)
        ()).1 = .ok u ∧ u.version? ≠ some old.version) :=
  ⟨⟨rfl, voucher_readAs, voucher_checked_here, voucher_checked_there⟩,
    rfl, old_readAs, old_checked_here, _, old_checked_there, by decide⟩

end Booth

end Skew

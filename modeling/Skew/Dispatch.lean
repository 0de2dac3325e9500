import Skew.Endpoint

/-!
# Calling methods

A dispatcher runs the methods that schemas list. A remotable method is forwarded
when there is a transport; without one it runs here, like all other methods.

A forwarded call of an instance needs the context the entity is bound to. Its
reply replaces the fields that the other side reports, all of them or none, and
the changed fields become exactly those reported.
-/

namespace Skew

/-! ## Arguments -/

structure Args where
  /-- a context among the arguments, which is only there to be refused -/
  context? : Option Context
  positional : List Value
  named : Record Value

namespace Args

def empty : Args := ⟨none, [], []⟩

/-- The argument at a position, or else the one with the name. -/
def get? (a : Args) (index : Nat) (name : String) : Option Value :=
  a.positional[index]? <|> Record.get? a.named name

def require (a : Args) (index : Nat) (name : String) : Outcome Value :=
  match a.get? index name with
  | some v => .ok v
  | none => .error (.action name (.missingArgument name))

end Args

/-! ## Methods -/

/-- What the method of a class sees. -/
structure ClassCall where
  registry : Registry
  schema : Schema
  context : Context
  args : Args

/-- A new entity of the called type, bound to the context of the call. -/
def ClassCall.newEntity (c : ClassCall) : Entity := (Entity.ofSchema c.schema).bound c.context

/-- A computation on an entity and on the state of the node. -/
abbrev EntityRun (σ α : Type) := ExceptT EntityError (StateT Entity (StateM σ)) α

namespace EntityRun

variable {σ α : Type}

/-- A computation on the entity alone. -/
def ofUpdate (u : Update α) : EntityRun σ α := fun e s => (u e, s)

/-- A computation on the state alone. -/
def ofRun (r : Run σ α) : EntityRun σ α := fun e s =>
  let (a, s) := r s
  ((a, e), s)

end EntityRun

/-- What the methods do. -/
structure Bodies (σ : Type) where
  ofClass : BodyRef → ClassCall → Run σ Value
  ofInstance : BodyRef → Args → EntityRun σ Value

/-! ## Transport -/

/-- The outcome of a forwarded instance call. -/
structure Reply where
  /-- new values of fields -/
  updates : Record Value
  changed : NameSet
  result : Value

/-- Carries calls to the node that runs them. -/
structure Transport (σ : Type) where
  classAction : Context → (type method : String) → Version → Args → Run σ Value
  instanceAction : Context → Entity → (method : String) → Args → Run σ Reply

/-! ## Dispatchers -/

structure Dispatcher (σ : Type) where
  registry : Registry
  bodies : Bodies σ
  transport? : Option (Transport σ)

def Schema.requireMethod (s : Schema) (name : String) : Outcome Method :=
  match s.method? name with
  | some m => .ok m
  | none => .error (.unknownMethod s.name name)

/-- Binds a value that is an entity. -/
def Value.bound (v : Value) (c : Context) : Value :=
  match v with
  | .entity e => .entity (e.bound c)
  | v => v

namespace Dispatcher

variable {σ : Type} (d : Dispatcher σ)

/-- Calls a method of a class as listed by a given schema. -/
def callClassOn (c : Context) (s : Schema) (method : String) (args : Args) : Run σ Value := do
  let m ← s.requireMethod method
  if m.scope ≠ .ofClass then throw (.action method .notClassMethod)
  let v ← match m.remotable, d.transport? with
    | true, some t => t.classAction c s.name method s.version args
    | _, _ => d.bodies.ofClass m.body ⟨d.registry, s, c, args⟩
  pure (v.bound c)

/-- Calls a method of a class as listed by the newest schema of the type. -/
def callClass (c : Context) (type method : String) (args : Args) : Run σ Value := do
  let s ← d.registry.latest type
  d.callClassOn c s method args

/-- The updates in the form their fields store; those of undeclared fields are left
out. -/
def stageUpdates [Codecs] (s : Schema) : List (String × Value) → Outcome (List (String × Value))
  | [] => .ok []
  | (n, v) :: us =>
    match s.field? n with
    | none => stageUpdates s us
    | some f => do
      let v ← inField n (f.coerce v)
      let us ← stageUpdates s us
      .ok ((n, v) :: us)

/-- Takes over what the other side reports. -/
def applyReply [Codecs] (e : Entity) (r : Reply) : Outcome Entity := do
  let staged ← stageUpdates e.schema r.updates
  let e := staged.foldl (fun e (n, v) => e.storeCoerced n v) e
  .ok (e.replaceChanges r.changed)

/-- Forwards an instance call. -/
def forward [Codecs] (t : Transport σ) (c : Context) (method : String) (args : Args) :
    EntityRun σ Value := do
  let e ← get
  let r ← EntityRun.ofRun (t.instanceAction c e method args)
  let e ← applyReply e r
  set e
  pure r.result

/-- Calls a method of an instance. -/
def call [Codecs] (method : String) (args : Args) : EntityRun σ Value := do
  let e ← get
  let m ← e.schema.requireMethod method
  if m.scope ≠ .ofInstance then throw (.action method .notInstanceMethod)
  if ¬ m.remotable then d.bodies.ofInstance m.body args
  else if args.context?.isSome then throw (.action method .positionalContext)
  else match e.context? with
    | none => throw (.orphanedEntity method e.typeName)
    | some c =>
      match d.transport? with
      | some t => forward t c method args
      | none => d.bodies.ofInstance m.body args

end Dispatcher

end Skew

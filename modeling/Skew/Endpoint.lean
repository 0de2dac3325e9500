import Skew.Config
import Skew.Wire.Backport
import Skew.Wire.Reading

/-!
# Endpoints

One node's end of the wire: values go out as documents and come back in, with
entities turned into primitives and back wherever they stand. Tuples and sets go
out as arrays and come back as lists; instants come back as texts.

When a primitive has a version that no schema takes, the endpoint may read it
without its patch, and may then ask an authority once for the newest version it
knows. What the authority sends is read without further fallbacks.
-/

namespace Skew

/-- A computation that may change the state of the node, and may fail. What it did
to the state before it failed stays done. -/
abbrev Run (σ α : Type) := ExceptT EntityError (StateM σ) α

/-- A peer that adapts a primitive to an older version. -/
abbrev Authority (σ : Type) := Option Context → Primitive → Version → Run σ Primitive

structure Endpoint (σ : Type) where
  registry : Registry
  authority? : Option (Authority σ)
  policy : SkewPolicy

/-! ## Sending -/

section Sending

variable [Codecs]

mutual

/-- The document of a value. -/
def Value.serialize : Value → Outcome Json
  | .null => .ok .null
  | .bool b => .ok (.bool b)
  | .int n => .ok (.int n.toInt)
  | .float x =>
    if x.isFinite then .ok (.float x)
    else .error (.invalidValue "value" (.unsendable (Decimal.plain.text x)))
  | .str s => .ok (.str s)
  | .datetime t => .ok (.str t.wireText)
  | .list vs => (Value.serializeItems vs).map .arr
  | .tuple vs => (Value.serializeItems vs).map .arr
  | .set vs => (Value.serializeItems vs).map .arr
  | .map es => (Value.serializeEntries es).map .obj
  | .entity e => e.write.map Primitive.toJson

def Value.serializeItems : List Value → Outcome (List Json)
  | [] => .ok []
  | v :: vs => do
    let j ← v.serialize
    let js ← Value.serializeItems vs
    .ok (j :: js)

def Value.serializeEntries : List (String × Value) → Outcome (List (String × Json))
  | [] => .ok []
  | (n, v) :: es => do
    let j ← v.serialize
    let ms ← Value.serializeEntries es
    .ok ((n, j) :: ms)

end

end Sending

/-! ## Receiving -/

namespace Endpoint

/-- An endpoint without an authority. -/
def ofRegistry {σ : Type} (r : Registry) : Endpoint σ := ⟨r, none, .standard⟩

variable {σ : Type} [Codecs] (n : Endpoint σ) (context? : Option Context)

/-- Reads a primitive; if its version is not known, something else is tried. -/
def attempt (p : Primitive) (otherwise : Primitive → EntityError → Run σ Entity) : Run σ Entity :=
  match Entity.ofPrimitive n.registry context? p with
  | .ok e => pure e
  | .error (.incompatibleVersion type requested supported) =>
    otherwise p (.incompatibleVersion type requested supported)
  | .error err => throw err

/-- Asks the authority for the newest known version; `err` stands if there is nobody
to ask. -/
def askAuthority (p : Primitive) (err : EntityError) : Run σ Entity :=
  match n.authority?, (n.registry.versions p.name).head?, n.policy.requestBackport with
  | some authority, some target, true => do
    let q ← authority context? p target
    let e ← Entity.ofPrimitive n.registry context? q
    pure e
  | _, _, _ => throw err

/-- Reads a primitive without its patch if that is tolerated. -/
def bridgeSkew (p : Primitive) (err : EntityError) : Run σ Entity := do
  let version ← Version.ofText p.version
  if version.hasPatch ∧ n.policy.toleratePatch then
    n.attempt context? { p with version := version.truncated.text } (n.askAuthority context?)
  else n.askAuthority context? p err

/-- The entity of a primitive, with the fallbacks of the policy. -/
def processObject (p : Primitive) : Run σ Entity := n.attempt context? p (n.bridgeSkew context?)

mutual

/-- The value of a document. -/
def deserialize : Json → Run σ Value
  | .obj ms =>
    if Record.contains ms Primitive.nameKey then do
      let p ← Primitive.ofMembers ms
      let e ← n.processObject context? p
      pure (.entity e)
    else do
      let es ← deserializeMembers ms
      pure (.map es)
  | .arr js => do
    let vs ← deserializeItems js
    pure (.list vs)
  | .null => pure .null
  | .bool b => pure (.bool b)
  | .int i => pure (.ofInt i)
  | .float x => pure (.float x)
  | .str s => pure (.str s)

def deserializeItems : List Json → Run σ (List Value)
  | [] => pure []
  | j :: js => do
    let v ← deserialize j
    let vs ← deserializeItems js
    pure (v :: vs)

def deserializeMembers : List (String × Json) → Run σ (List (String × Value))
  | [] => pure []
  | (k, j) :: ms => do
    let v ← deserialize j
    let es ← deserializeMembers ms
    pure ((k, v) :: es)

end

end Endpoint

/-- The primitive for an older version, made by a node that knows the newer one. -/
def Registry.backport [Codecs] (r : Registry) (context? : Option Context) (p : Primitive)
    (target : Version) : Outcome Primitive := do
  let e ← Entity.ofPrimitive r context? p
  e.writeAt target

/-- A registry as an authority. -/
def Authority.ofRegistry {σ : Type} [Codecs] (r : Registry) : Authority σ :=
  fun context? p target => do
    let q ← r.backport context? p target
    pure q

end Skew

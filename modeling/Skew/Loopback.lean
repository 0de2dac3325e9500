import Skew.Dispatch

/-!
# Loopback

A conductor plays the other node of forwarded calls within one process. Every
argument, entity and result crosses the wire between the two registries, so a
difference of versions shows as it would between real nodes.
-/

namespace Skew

structure Conductor (σ : Type) where
  /-- the caller's end of the wire -/
  client : Endpoint σ
  /-- the registry of the node that runs the calls -/
  registry : Registry
  bodies : Bodies σ

namespace Conductor

variable {σ : Type} [Codecs] (k : Conductor σ)

def server : Endpoint σ := Endpoint.ofRegistry k.registry

/-- Runs calls on the conductor's own node. -/
def dispatcher : Dispatcher σ := ⟨k.registry, k.bodies, none⟩

/-- An argument as it arrives at the server. -/
def transfer (c : Context) (v : Value) : Run σ Value := do
  let j ← v.serialize
  k.server.deserialize (some c) j

def transferArgs (c : Context) (a : Args) : Run σ Args := do
  let positional ← a.positional.mapM (k.transfer c)
  let named ← a.named.mapM fun (n, v) => do
    let v ← k.transfer c v
    pure (n, v)
  pure ⟨none, positional, named⟩

/-- A result as it arrives at the caller. An entity is sent at the version asked for,
if one is. -/
def reply (c : Context) (v : Value) (target? : Option Version) : Run σ Value := do
  let j ← match v, target? with
    | .entity e, some target => (e.writeFor (some target)).map Primitive.toJson
    | v, _ => v.serialize
  k.client.deserialize (some c) j

def classAction (c : Context) (type method : String) (version : Version) (args : Args) :
    Run σ Value := do
  let args ← k.transferArgs c args
  let v ← k.dispatcher.callClass c type method args
  k.reply c v (some version)

/-- The field holds a value that it did not hold before. -/
def isUpdated (before after : Entity) (name : String) : Bool :=
  match after.get name, before.get name with
  | .ok v, .ok w => !(w == v)
  | .ok _, .error _ => true
  | .error _, _ => false

/-- The new values of fields, as they arrive at the caller. -/
def updates (c : Context) (before after : Entity) : Run σ (List (String × Value)) :=
  after.schema.fields.foldlM (fun us (name, f) => do
    if isUpdated before after name then
      let v ← after.get name
      let j ← v.write name f.kind
      let v ← k.client.deserialize (some c) j
      pure (Record.insert us name v)
    else pure us) []

def instanceAction (c : Context) (e : Entity) (method : String) (args : Args) : Run σ Reply := do
  let p ← e.write
  let v ← k.server.deserialize (some c) p.toJson
  match v with
  | .entity received =>
    let before := received.bound c
    let args ← k.transferArgs c args
    let ((result, after), state) := k.dispatcher.call method args before (← get)
    set state
    let result ← result
    let updates ← k.updates c before after
    let result ← k.reply c result none
    pure ⟨updates, after.whatChanged, result⟩
  | _ => throw (.malformed .lostEntity)

def transport : Transport σ := ⟨k.classAction, k.instanceAction⟩

end Conductor

end Skew

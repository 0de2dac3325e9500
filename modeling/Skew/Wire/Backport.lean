import Skew.Wire.Threshold
import Skew.Wire.Writing

/-!
# Backports

A primitive is adapted so that a peer at an older version can read it. The
composed fields follow their relationship tables, at every depth: a child that
did not exist yet is dropped, the others are adapted to the version the table
gives and stamped with it. The hook of the schema runs last.

What was adapted before a failure stays adapted.
-/

namespace Skew

/-- Edits a document; what it did stays when it fails. -/
abbrev JsonEdit := Json → Outcome Unit × Json

/-- Adapts the wire form of a composed field to a version; the flag asks to
leave children alone that are no newer. -/
abbrev ChildAdapter := Version → Bool → JsonEdit

namespace Edit

/-- Edits the member of a name; nothing happens if there is none. -/
def member (name : String) (edit : JsonEdit) : Edit Unit := fun ms =>
  match Record.get? ms name with
  | none => (.ok (), ms)
  | some j => match edit j with
    | (r, j) => (r, Record.insert ms name j)

def erase (name : String) : Edit Unit := modify (Record.erase · name)

def insert (name : String) (j : Json) : Edit Unit := modify (Record.insert · name j)

end Edit

namespace Primitive

/-- Keeps the change markers that name data. -/
def keepChanges (ms data : Members) : Members :=
  match Record.get? ms changesKey with
  | some (.arr js) =>
    Record.insert ms changesKey
      (.arr (js.filter fun j => (j.str?.map (Record.contains data)).getD false))
  | _ => ms

/-- The version that a primitive is stamped with, or the given one. -/
def stampedVersion (ms : Members) (version : Version) : Outcome Version :=
  match Record.get? ms versionKey with
  | some (.str s) => Version.ofText s
  | _ => .ok version

def stamp (ms : Members) (goal : Version) : Json :=
  .obj (Record.insert ms versionKey (.str goal.text))

/-- Adapts the primitive of a child to a version. `version` is the version of the
child itself and `adapt` adapts its data. -/
def adaptChild (version : Version) (adapt : Version → Edit Unit) (goal : Version)
    (boundOnly : Bool) : JsonEdit
  | .obj ms =>
    match stampedVersion ms version with
    | .error err => (.error err, .obj ms)
    | .ok current =>
      if boundOnly ∧ current.release ≤ goal.release then (.ok (), .obj ms)
      else if current.isExactly goal then (.ok (), stamp ms goal)
      else match Record.get? ms dataKey with
        | some (.obj data) =>
          match adapt goal data with
          | (.error err, data) => (.error err, .obj (Record.insert ms dataKey (.obj data)))
          | (.ok (), data) =>
            (.ok (), stamp (keepChanges (Record.insert ms dataKey (.obj data)) data) goal)
        | _ => (.error (.malformed .childWithoutData), .obj ms)
  | j => (.error (.malformed .childNotObject), j)

end Primitive

namespace Schema

/-- Applies the rule of one composed field. -/
def adaptField (s : Schema) (target : Version) (name : String) (adapter : ChildAdapter) :
    Edit Unit :=
  match (s.relationship? name).bind (Relationship.rule? · target) with
  | none => throw (.action "make_compatible" (.noRule name))
  | some .drop => Edit.erase name
  | some (.backport goal) => Edit.member name (adapter goal false)
  | some (.upperBound goal) => Edit.member name (adapter goal true)

/-- Adapts data to a target version: the composed fields that are set, in order of
declaration, then the hook. -/
def adapt (s : Schema) (children : Record ChildAdapter) (target : Version) : Edit Unit := do
  s.fields.forM fun (name, f) =>
    match f.kind.isObject, Record.get? children name with
    | true, some adapter => s.adaptField target name adapter
    | _, _ => pure ()
  match s.hook? with
  | some hook => hook target
  | none => pure ()

end Schema

mutual

/-- Adapts the data of an entity to a peer at the target version. -/
def Entity.makeCompatible : Entity → Version → Edit Unit
  | ⟨schema, _, _, values, _⟩, target => schema.adapt (Entity.childAdapters values) target

def Entity.childAdapters : List (String × Value) → List (String × ChildAdapter)
  | [] => []
  | (n, v) :: es => (n, v.adaptWire n) :: Entity.childAdapters es

/-- Adapts the wire form of a field's value: an entity, or the entities of a list. -/
def Value.adaptWire : Value → String → ChildAdapter
  | .entity e, _, goal, boundOnly, j =>
    Primitive.adaptChild e.version (Entity.makeCompatible e) goal boundOnly j
  | .list vs, field, goal, boundOnly, j =>
    match j with
    | .arr js => match Value.adaptItems vs goal boundOnly js with
      | (r, js) => (r, .arr js)
    | j => (.error (.malformed (.notSequence field)), j)
  | _, _, _, _, j => (.ok (), j)

/-- Adapts the documents of the entities in a list, one by one. -/
def Value.adaptItems : List Value → Version → Bool → List Json → Outcome Unit × List Json
  | .entity e :: vs, goal, boundOnly, j :: js =>
    match Primitive.adaptChild e.version (Entity.makeCompatible e) goal boundOnly j with
    | (.ok (), j) => match Value.adaptItems vs goal boundOnly js with
      | (r, js) => (r, j :: js)
    | (.error err, j) => (.error err, j :: js)
  | .entity _ :: _, _, _, [] => (.ok (), [])
  | _ :: vs, goal, boundOnly, js => Value.adaptItems vs goal boundOnly js
  | [], _, _, js => (.ok (), js)

end

namespace Entity

variable [Codecs]

/-- The primitive at a target version. It is adapted also for the entity's own
version, so that newer children are brought down. -/
def writeAt (e : Entity) (target : Version) : Outcome Primitive := do
  let data ← e.data
  match e.makeCompatible target data with
  | (.ok (), data) => .ok (e.wrap target data)
  | (.error err, _) => .error err

/-- The primitive for a peer: adapted only if it wants another version. -/
def writeFor (e : Entity) (target? : Option Version) : Outcome Primitive :=
  match target? with
  | some target => if target.isExactly e.version then e.write else e.writeAt target
  | none => e.write

end Entity

end Skew

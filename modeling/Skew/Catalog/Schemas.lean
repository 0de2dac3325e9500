import Skew.Registry
import Skew.Schema.Declaration

/-!
# The catalog

The built-in types, each at every version a node may be released with: metrics and
lists of them (1.0 and 1.1), build requests that compose such a list (1.0 and 1.1),
migrations (1.0 to 1.2) and lists of them (1.0). A schema has exactly the fields
that exist at its version, and its hook removes the fields a peer does not know.
-/

namespace Skew.Catalog

def metricNames : List String :=
  ["cpu.frequency", "cpu.user.time", "cpu.kernel.time", "cpu.idle.time", "cpu.iowait.time",
    "cpu.user.percent", "cpu.kernel.percent", "cpu.idle.percent", "cpu.iowait.percent",
    "cpu.percent", "numa.membw.current", "numa.membw.max"]

def migrationTypes : List String := ["migration", "resize", "live-migration", "evacuation"]

def required (k : Kind) : Field := ⟨k, false, none⟩

def nullable (k : Kind) : Field := ⟨k, true, none⟩

def release (major minor : UInt32) : Version := ⟨major, minor, none⟩

/-- The version, given as a text, is no older than a release. -/
def atLeast (version : String) (since : Version) : Outcome Bool := do
  let v ← Version.ofText version
  .ok (since.release ≤ v.release)

/-- Fields that came with a release, as a hook: an older peer gets them removed. -/
def removeNewer (fields : List (String × Version)) : Hook := fun target =>
  fields.forM fun (name, since) =>
    if target.release < since.release then modify (Record.erase · name) else pure ()

/-! ## Metrics -/

def monitorMetric (version : String) : Outcome Schema := do
  let d := Declaration.start "MonitorMetric" version
    |>.field "name" (required (.enum metricNames))
    |>.field "value" (required (.integer false))
    |>.field "timestamp" (required .datetime)
    |>.field "source" (required .string)
  let d := if ← atLeast version (release 1 1) then
    d.field "numa_membw_values" (nullable (.dict (.integer false))) else d
  (d.hook (removeNewer [("numa_membw_values", release 1 1)])).build

/-- The metric lists are counted like the metrics in them. -/
def metricTable (version : String) : Outcome (List (String × String)) := do
  .ok (if ← atLeast version (release 1 1) then [("1.0", "1.0"), ("1.1", "1.1")]
    else [("1.0", "1.0")])

def monitorMetricList (version : String) : Outcome Schema := do
  (Declaration.list "MonitorMetricList" version "MonitorMetric" (← metricTable version)).build

def buildRequest (version : String) : Outcome Schema := do
  let table ← metricTable version
  Declaration.start "BuildRequest" version
    |>.field "id" (required (.integer false))
    |>.field "instance_uuid" (required .uuid)
    |>.field "project_id" (required .string)
    |>.field "metrics" (nullable (.object "MonitorMetricList"))
    |>.timestamps
    |>.relationship "metrics" table
    |>.build

/-! ## Migrations -/

def getById : String := "Migration.get_by_id"
def create : String := "Migration.create"
def save : String := "Migration.save"
def getInProgress : String := "MigrationList.get_in_progress_by_host_and_node"

def remotable (scope : Scope) (routine store : String) : Method := ⟨scope, true, ⟨routine, store⟩⟩

/-- Migrations, whose methods use the named store. -/
def migration (version store : String) : Outcome Schema := do
  let text := nullable .string
  let d := Declaration.start "Migration" version
    |>.field "id" (required (.integer false))
    |>.field "source_compute" text
    |>.field "dest_compute" text
    |>.field "source_node" text
    |>.field "dest_node" text
    |>.field "dest_host" text
    |>.field "old_instance_type_id" (nullable (.integer false))
    |>.field "new_instance_type_id" (nullable (.integer false))
    |>.field "instance_uuid" (nullable .uuid)
    |>.field "status" text
    |>.persistent
  let d := if ← atLeast version (release 1 1) then
    d.field "migration_type" (nullable (.enum migrationTypes)) else d
  let d := if ← atLeast version (release 1 2) then
    d.field "hidden" ⟨.boolean, false, some (.bool false)⟩ else d
  d.hook (removeNewer [("hidden", release 1 2), ("migration_type", release 1 1)])
    |>.method "get_by_id" (remotable .ofClass getById store)
    |>.method "create" (remotable .ofInstance create store)
    |>.method "save" (remotable .ofInstance save store)
    |>.build

def migrationList (version store : String) : Outcome Schema :=
  Declaration.list "MigrationList" version "Migration" [("1.0", "1.2")]
    |>.method "get_in_progress_by_host_and_node" (remotable .ofClass getInProgress store)
    |>.build

/-! ## All of it -/

/-- The type of a name, at a version. -/
def schema? (name version store : String) : Option (Outcome Schema) :=
  match name with
  | "MonitorMetric" => some (monitorMetric version)
  | "MonitorMetricList" => some (monitorMetricList version)
  | "BuildRequest" => some (buildRequest version)
  | "Migration" => some (migration version store)
  | "MigrationList" => some (migrationList version store)
  | _ => none

def monitorSchemas (version : String) : Outcome (List Schema) := do
  .ok [← monitorMetric version, ← monitorMetricList version, ← buildRequest version]

/-- Every version of every type, in order of registration. -/
def schemas (store : String) : Outcome (List Schema) := do
  let monitors ← ["1.0", "1.1"].mapM monitorSchemas
  let migrations ← ["1.0", "1.1", "1.2"].mapM (migration · store)
  .ok (monitors.flatten ++ migrations ++ [← migrationList "1.0" store])

/-- A registry with the whole catalog. -/
def registry (store : String) : Outcome Registry := do
  .ok (Registry.empty.registerAll (← schemas store))

end Skew.Catalog

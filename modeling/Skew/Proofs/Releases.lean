import Skew.Catalog.Methods
import Skew.Proofs.Coercion

/-!
# The catalog as it was released

The schemas of the catalog written out, for each release of each type. A newer release only
adds fields at the end, and a field that two releases share is the same in both.
-/

namespace Skew.Catalog

/-- The first releases of the tables: owner and element are counted alike. -/
def firstRows : Relationship := [(release 1 0, release 1 0)]

def secondRows : Relationship := [(release 1 0, release 1 0), (release 1 1, release 1 1)]

/-! ## Metrics -/

def metricFields : List (String × Field) :=
  [("name", required (.enum metricNames)), ("value", required (.integer false)),
    ("timestamp", required .datetime), ("source", required .string)]

def bandwidth : String × Field := ("numa_membw_values", nullable (.dict (.integer false)))

def metricSchema (version : Version) (newer : List (String × Field)) : Schema :=
  ⟨"MonitorMetric", version, metricFields ++ newer, [], [],
    some (removeNewer [("numa_membw_values", release 1 1)])⟩

def metricListSchema (version : Version) (rows : Relationship) : Schema :=
  ⟨"MonitorMetricList", version,
    [("objects", ⟨.listOfObjects "MonitorMetric", false, some (.list [])⟩)],
    [("objects", rows)], [], none⟩

def requestFields : List (String × Field) :=
  [("id", required (.integer false)), ("instance_uuid", required .uuid),
    ("project_id", required .string), ("metrics", nullable (.object "MonitorMetricList")),
    ("created_at", nullable .datetime), ("updated_at", nullable .datetime)]

def requestSchema (version : Version) (rows : Relationship) : Schema :=
  ⟨"BuildRequest", version, requestFields, [("metrics", rows)], [], none⟩

theorem monitorMetric_first :
    monitorMetric "1.0" = .ok (metricSchema (release 1 0) []) := rfl

theorem monitorMetric_second :
    monitorMetric "1.1" = .ok (metricSchema (release 1 1) [bandwidth]) := rfl

theorem monitorMetricList_first :
    monitorMetricList "1.0" = .ok (metricListSchema (release 1 0) firstRows) := rfl

theorem monitorMetricList_second :
    monitorMetricList "1.1" = .ok (metricListSchema (release 1 1) secondRows) := rfl

theorem buildRequest_first :
    buildRequest "1.0" = .ok (requestSchema (release 1 0) firstRows) := rfl

theorem buildRequest_second :
    buildRequest "1.1" = .ok (requestSchema (release 1 1) secondRows) := rfl

/-! ## Migrations -/

def migrationFields : List (String × Field) :=
  [("id", required (.integer false)), ("source_compute", nullable .string),
    ("dest_compute", nullable .string), ("source_node", nullable .string),
    ("dest_node", nullable .string), ("dest_host", nullable .string),
    ("old_instance_type_id", nullable (.integer false)),
    ("new_instance_type_id", nullable (.integer false)), ("instance_uuid", nullable .uuid),
    ("status", nullable .string), ("created_at", nullable .datetime),
    ("updated_at", nullable .datetime), ("deleted_at", nullable .datetime),
    ("deleted", ⟨.boolean, false, some (.bool false)⟩)]

def migrationType : String × Field := ("migration_type", nullable (.enum migrationTypes))

def hidden : String × Field := ("hidden", ⟨.boolean, false, some (.bool false)⟩)

def migrationSchema (store : String) (version : Version) (newer : List (String × Field)) :
    Schema :=
  ⟨"Migration", version, migrationFields ++ newer, [],
    [("create", remotable .ofInstance create store),
      ("get_by_id", remotable .ofClass getById store), ("save", remotable .ofInstance save store)],
    some (removeNewer [("hidden", release 1 2), ("migration_type", release 1 1)])⟩

theorem migration_first (store : String) :
    migration "1.0" store = .ok (migrationSchema store (release 1 0) []) := by cbv

theorem migration_second (store : String) :
    migration "1.1" store = .ok (migrationSchema store (release 1 1) [migrationType]) := by cbv

theorem migration_third (store : String) :
    migration "1.2" store = .ok (migrationSchema store (release 1 2) [migrationType, hidden]) := by
  cbv

end Skew.Catalog

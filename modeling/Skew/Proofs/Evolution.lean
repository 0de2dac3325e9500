import Mathlib.Data.List.Nodup
import Skew.Proofs.Backport
import Skew.Proofs.Coercion
import Skew.Proofs.Registration
import Skew.Proofs.Releases

/-!
# How the catalog evolves

A type of the catalog has one line of fields, each with the release it came with, and a
definition has those that came up to its version (`Defines.field?_iff`). What else later proofs
need of the nine definitions stands here too: their tables count children like their owners
(`Defines.table`), their hooks remove just the newer fields (`Defines.runHook`), and their fields
are flat or compose entities of a type that is released like the owner (`line_offered`).
-/

namespace Skew

/-- What the kind stores has no float in it, and its wire form nothing that is read as an
entity. -/
def Kind.Flat : Kind → Prop
  | .integer _ | .string | .boolean | .datetime | .uuid | .address | .enum _
  | .dict (.integer _) => True
  | _ => False

theorem Kind.Flat.plain {k : Kind} (hk : k.Flat) : k.Plain := by
  cases k with
  | dict k => cases k <;> trivial
  | _ => trivial

theorem Kind.Flat.lossless [Codecs] {k : Kind} (hk : k.Flat) : k.Lossless := by
  cases k with
  | dict k => cases k <;> trivial
  | _ => trivial

theorem Kind.Flat.isObject {k : Kind} (hk : k.Flat) : k.isObject = false := by
  cases k <;> first | rfl | cases hk

/-- The type of the entities that a field of the kind composes. -/
def Kind.child? : Kind → Option String
  | .object type | .listOfObjects type => some type
  | _ => none

theorem Kind.isObject_of_child? {k : Kind} {type : String} (h : k.child? = some type) :
    k.isObject = true := by
  cases k <;> first | rfl | cases h

namespace Catalog

/-! ## Definitions -/

/-- The versions of the types that may be sent to nodes with older ones. -/
def releases (name : String) : List Version :=
  if name = "Migration" then [release 1 0, release 1 1, release 1 2]
  else if name ∈ ["MonitorMetric", "MonitorMetricList", "BuildRequest"] then
    [release 1 0, release 1 1]
  else []

/-- The definition that the catalog has of a type at a version. -/
def Defines (store name : String) (v : Version) (s : Schema) : Prop :=
  v ∈ releases name ∧ schema? name v.text store = some (.ok s)

/-- All of them. -/
def definitions (store : String) : List Schema :=
  [metricSchema (release 1 0) [], metricSchema (release 1 1) [bandwidth],
    metricListSchema (release 1 0) firstRows, metricListSchema (release 1 1) secondRows,
    requestSchema (release 1 0) firstRows, requestSchema (release 1 1) secondRows,
    migrationSchema store (release 1 0) [], migrationSchema store (release 1 1) [migrationType],
    migrationSchema store (release 1 2) [migrationType, hidden]]

/-- The fields of a type in order, each with the release that it came with. -/
def line (name : String) : List (Version × String × Field) :=
  if name = "Migration" then migrationFields.map (release 1 0, ·) ++
    [(release 1 1, migrationType), (release 1 2, hidden)]
  else if name = "MonitorMetric" then
    metricFields.map (release 1 0, ·) ++ [(release 1 1, bandwidth)]
  else if name = "MonitorMetricList" then
    [(release 1 0, "objects", ⟨.listOfObjects "MonitorMetric", false, some (.list [])⟩)]
  else if name = "BuildRequest" then requestFields.map (release 1 0, ·)
  else []

/-- The part of a line up to a version. -/
def fieldsAt (name : String) (v : Version) : List (String × Field) :=
  (line name).filterMap fun (since, q) => if since.release ≤ v.release then some q else none

theorem forall_mem_definitions {P : Schema → Prop} {store : String} :
    (∀ s ∈ definitions store, P s) ↔
      (P (metricSchema (release 1 0) []) ∧ P (metricSchema (release 1 1) [bandwidth])) ∧
      (P (metricListSchema (release 1 0) firstRows) ∧
        P (metricListSchema (release 1 1) secondRows)) ∧
      (P (requestSchema (release 1 0) firstRows) ∧ P (requestSchema (release 1 1) secondRows)) ∧
      P (migrationSchema store (release 1 0) []) ∧
      P (migrationSchema store (release 1 1) [migrationType]) ∧
      P (migrationSchema store (release 1 2) [migrationType, hidden]) := by
  simp only [definitions, List.forall_mem_cons, List.not_mem_nil, false_implies, implies_true,
    and_true, and_assoc]

/-- The catalog has the definitions listed. -/
theorem defined (store : String) : ∀ s ∈ definitions store,
    s.version ∈ releases s.name ∧ schema? s.name s.version.text store = some (.ok s) := by
  have hfirst : (release 1 0).text = "1.0" := by decide
  have hsecond : (release 1 1).text = "1.1" := by decide
  have hthird : (release 1 2).text = "1.2" := by decide
  simp only [forall_mem_definitions, metricSchema, metricListSchema, requestSchema,
    migrationSchema, hfirst, hsecond, hthird]
  refine ⟨⟨⟨by decide, ?_⟩, by decide, ?_⟩, ⟨⟨by decide, ?_⟩, by decide, ?_⟩,
    ⟨⟨by decide, ?_⟩, by decide, ?_⟩, ⟨by decide, ?_⟩, ⟨by decide, ?_⟩, by decide, ?_⟩
  · exact congrArg some monitorMetric_first
  · exact congrArg some monitorMetric_second
  · exact congrArg some monitorMetricList_first
  · exact congrArg some monitorMetricList_second
  · exact congrArg some buildRequest_first
  · exact congrArg some buildRequest_second
  · exact congrArg some (migration_first store)
  · exact congrArg some (migration_second store)
  · exact congrArg some (migration_third store)

theorem exists_definition (store : String) {name : String} {v : Version} (hv : v ∈ releases name) :
    ∃ s ∈ definitions store, s.name = name ∧ s.version = v := by
  have hnames : name = "Migration" ∧ v ∈ [release 1 0, release 1 1, release 1 2] ∨
      name ∈ ["MonitorMetric", "MonitorMetricList", "BuildRequest"] ∧
        v ∈ [release 1 0, release 1 1] := by
    rw [releases] at hv
    split at hv
    · next hname => exact Or.inl ⟨hname, hv⟩
    split at hv
    · next hname => exact Or.inr ⟨hname, hv⟩
    · cases hv
  simp only [List.mem_cons, List.not_mem_nil, or_false] at hnames
  rcases hnames with ⟨rfl, rfl | rfl | rfl⟩ | ⟨rfl | rfl | rfl, rfl | rfl⟩ <;>
    simp [definitions, metricSchema, metricListSchema, requestSchema, migrationSchema]

theorem defines_iff {store name : String} {v : Version} {s : Schema} :
    Defines store name v s ↔ s ∈ definitions store ∧ s.name = name ∧ s.version = v := by
  constructor
  · rintro ⟨hv, hs⟩
    obtain ⟨t, ht, rfl, rfl⟩ := exists_definition store hv
    rw [(defined store t ht).2] at hs
    cases hs
    exact ⟨ht, rfl, rfl⟩
  · rintro ⟨hs, rfl, rfl⟩
    exact defined store s hs

theorem Defines.unique {store name : String} {v : Version} {s t : Schema}
    (hs : Defines store name v s) (ht : Defines store name v t) : s = t := by
  have h := hs.2
  rw [ht.2] at h
  cases h
  rfl

theorem Defines.name {store name : String} {v : Version} {s : Schema}
    (h : Defines store name v s) : s.name = name := (defines_iff.mp h).2.1

theorem Defines.version {store name : String} {v : Version} {s : Schema}
    (h : Defines store name v s) : s.version = v := (defines_iff.mp h).2.2

theorem exists_defines (store : String) {name : String} {v : Version} (hv : v ∈ releases name) :
    ∃ s, Defines store name v s := by
  obtain ⟨s, hs, hname, hversion⟩ := exists_definition store hv
  exact ⟨s, defines_iff.mpr ⟨hs, hname, hversion⟩⟩

theorem releases_cases {name : String} {v : Version} (hv : v ∈ releases name) :
    v = release 1 0 ∨ v = release 1 1 ∨ v = release 1 2 := by
  rw [releases] at hv
  split_ifs at hv <;> simp only [List.mem_cons, List.not_mem_nil, or_false] at hv <;> tauto

/-- Releases are told apart by their numbers. -/
theorem release_injOn {name name' : String} {v w : Version} (hv : v ∈ releases name)
    (hw : w ∈ releases name') (h : v.release = w.release) : v = w := by
  rcases releases_cases hv with rfl | rfl | rfl <;>
    rcases releases_cases hw with rfl | rfl | rfl <;> first | rfl | exact absurd h (by decide)

/-- Releases have no patch. -/
theorem release_rank {name : String} {v : Version} (hv : v ∈ releases name) :
    v.rank = v.release * 4294967296 := by
  rcases releases_cases hv with rfl | rfl | rfl <;> rfl

theorem release_major {name : String} {v : Version} (hv : v ∈ releases name) : v.major = 1 := by
  rcases releases_cases hv with rfl | rfl | rfl <;> rfl

theorem release_exact {name name' : String} {v w : Version} (hv : v ∈ releases name)
    (hw : w ∈ releases name') (h : v.isExactly w = true) : v = w := by
  rw [Version.isExactly_iff, release_rank hv, release_rank hw] at h
  exact release_injOn hv hw (by omega)

/-- Data of an older release is accepted. -/
theorem release_accepts {name name' : String} {v w : Version} (hv : v ∈ releases name)
    (hw : w ∈ releases name') (h : v.release ≤ w.release) : w.accepts v = true := by
  rw [Version.accepts, release_rank hv, release_rank hw, release_major hv, release_major hw]
  exact decide_eq_true ⟨rfl, by omega⟩

theorem first_le_release {name : String} {v : Version} (hv : v ∈ releases name) :
    (release 1 0).release ≤ v.release := by
  rcases releases_cases hv with rfl | rfl | rfl <;> decide

theorem definitions_distinct (store : String) : Registry.Distinct (definitions store) := by
  have hkeys : (definitions store).map (fun s => (s.name, s.version)) =
      ["MonitorMetric", "MonitorMetricList", "BuildRequest"].flatMap (fun name =>
        [(name, release 1 0), (name, release 1 1)]) ++
      [("Migration", release 1 0), ("Migration", release 1 1), ("Migration", release 1 2)] := rfl
  have hpairwise : ((definitions store).map fun s => (s.name, s.version)).Pairwise
      fun p q => p.1 = q.1 → p.2.isExactly q.2 = false := by
    rw [hkeys]
    decide
  exact List.pairwise_map.mp hpairwise

/-- A node with all definitions has each under its own version. -/
theorem Defines.resolve {store name : String} {v : Version} {s : Schema}
    (h : Defines store name v s) :
    (Registry.empty.registerAll (definitions store)).resolve name v = .ok s := by
  obtain ⟨hs, rfl, rfl⟩ := defines_iff.mp h
  exact (Registry.resolution_resolve s.version).unique
    (.exact ((definitions_distinct store).lastAt_iff.mpr ⟨hs, rfl⟩) (Version.isExactly_self _))

/-- The older of two versions. -/
def older (v w : Version) : Version := if w.release < v.release then w else v

theorem older_of_lt {v w : Version} (h : w.release < v.release) : older v w = w := if_pos h

theorem older_of_ge {v w : Version} (h : v.release ≤ w.release) : older v w = v :=
  if_neg (Nat.not_lt.mpr h)

theorem older_of_le {name name' : String} {v w : Version} (hv : v ∈ releases name)
    (hw : w ∈ releases name') (h : w.release ≤ v.release) : older v w = w := by
  rcases Nat.lt_or_eq_of_le h with hlt | heq
  · exact older_of_lt hlt
  · rw [older_of_ge (Nat.le_of_eq heq.symm), release_injOn hw hv heq]

theorem older_mem {name : String} {v w : Version} (hv : v ∈ releases name)
    (hw : w ∈ releases name) : older v w ∈ releases name := by
  unfold older
  split
  · exact hw
  · exact hv

theorem older_le (v w : Version) : (older v w).release ≤ w.release := by
  unfold older
  split
  · exact Nat.le_refl _
  · next h => exact Nat.not_lt.mp h

/-! ## Fields -/

theorem definitions_fields (store : String) :
    ∀ s ∈ definitions store, s.fields = fieldsAt s.name s.version := by
  rw [forall_mem_definitions]
  and_intros <;> cbv

theorem line_nodup (name : String) : ((line name).map (·.2.1)).Nodup := by
  rw [line]
  split_ifs <;> decide

theorem mem_fieldsAt_iff {name : String} {v : Version} {q : String × Field} :
    q ∈ fieldsAt name v ↔ ∃ p ∈ line name, p.1.release ≤ v.release ∧ p.2 = q := by
  rw [fieldsAt, List.mem_filterMap]
  refine exists_congr ?_
  rintro ⟨since, q'⟩
  refine and_congr_right ?_
  intro _
  dsimp only
  split
  · next hsince => simp [hsince]
  · next hsince => simp [hsince]

/-- A name stands once in a line. -/
theorem line_unique {name : String} {p q : Version × String × Field} (hp : p ∈ line name)
    (hq : q ∈ line name) (h : p.2.1 = q.2.1) : p = q :=
  List.inj_on_of_nodup_map (line_nodup name) hp hq h

theorem definitions_wellFormed (store : String) : ∀ s ∈ definitions store, s.WellFormed := by
  rw [forall_mem_definitions]
  have hnewer (newer : List (String × Field)) (v : Version)
      (hnewer : ((migrationFields ++ newer).map fun q : String × Field => q.1).Nodup) :
      (migrationSchema store v newer).WellFormed := ⟨hnewer, List.forall_mem_nil _⟩
  exact ⟨⟨by decide, by decide⟩, ⟨by decide, by decide⟩, ⟨by decide, by decide⟩,
    hnewer _ _ (by decide), hnewer _ _ (by decide), hnewer _ _ (by decide)⟩

theorem Defines.wellFormed {store name : String} {v : Version} {s : Schema}
    (h : Defines store name v s) : s.WellFormed :=
  definitions_wellFormed store s (defines_iff.mp h).1

theorem Defines.field?_iff {store name : String} {v : Version} {s : Schema}
    (h : Defines store name v s) {n : String} {f : Field} :
    s.field? n = some f ↔ ∃ p ∈ line name, p.1.release ≤ v.release ∧ p.2 = (n, f) := by
  obtain ⟨hs, rfl, rfl⟩ := defines_iff.mp h
  rw [← mem_fieldsAt_iff, ← definitions_fields store s hs]
  constructor
  · exact Record.mem_of_get?
  · exact Record.get?_of_mem h.wellFormed.fields

theorem Defines.mem_fieldNames_iff {store name : String} {v : Version} {s : Schema}
    (h : Defines store name v s) {n : String} :
    n ∈ s.fieldNames ↔ ∃ p ∈ line name, p.1.release ≤ v.release ∧ p.2.1 = n := by
  obtain ⟨hs, rfl, rfl⟩ := defines_iff.mp h
  rw [Schema.fieldNames, definitions_fields store s hs, List.mem_map]
  constructor
  · rintro ⟨q, hq, rfl⟩
    obtain ⟨p, hp, hle, rfl⟩ := mem_fieldsAt_iff.mp hq
    exact ⟨p, hp, hle, rfl⟩
  · rintro ⟨p, hp, hle, rfl⟩
    exact ⟨p.2, mem_fieldsAt_iff.mpr ⟨p, hp, hle, rfl⟩, rfl⟩

theorem Defines.field?_eq {store store' name : String} {v w : Version} {s t : Schema}
    (hs : Defines store name v s) (ht : Defines store' name w t) {n : String} {f g : Field}
    (hf : s.field? n = some f) (hg : t.field? n = some g) : f = g := by
  obtain ⟨p, hp, -, hpf⟩ := hs.field?_iff.mp hf
  obtain ⟨q, hq, -, hqg⟩ := ht.field?_iff.mp hg
  have hpq : p = q := line_unique hp hq (by rw [hpf, hqg])
  rw [hpq, hqg] at hpf
  cases hpf
  rfl

/-- A newer definition has the fields of an older one. -/
theorem Defines.mem_fieldNames_mono {store store' name : String} {v w : Version} {s t : Schema}
    (hs : Defines store name v s) (ht : Defines store' name w t) (hle : v.release ≤ w.release)
    {n : String} (hn : n ∈ s.fieldNames) : n ∈ t.fieldNames := by
  obtain ⟨p, hp, hsince, hname⟩ := hs.mem_fieldNames_iff.mp hn
  exact ht.mem_fieldNames_iff.mpr ⟨p, hp, Nat.le_trans hsince hle, hname⟩

/-- Composed fields came with the first release. -/
theorem line_composed (name : String) :
    ∀ p ∈ line name, p.2.2.kind.isObject = true → p.1 = release 1 0 := by
  rw [line]
  split_ifs <;> decide

theorem Defines.field?_composed {store store' name : String} {v w : Version} {s t : Schema}
    (hs : Defines store name v s) (ht : Defines store' name w t) {n : String} {f : Field}
    (hf : s.field? n = some f) (hkind : f.kind.isObject = true) : t.field? n = some f := by
  obtain ⟨p, hp, -, hpf⟩ := hs.field?_iff.mp hf
  refine ht.field?_iff.mpr ⟨p, hp, ?_, hpf⟩
  rw [line_composed name p hp (by rw [hpf]; exact hkind)]
  exact first_le_release ht.1

/-- What is composed are metrics and lists of them. -/
theorem line_child (name : String) : ∀ p ∈ line name, ∀ type ∈ p.2.2.kind.child?,
    type ∈ ["MonitorMetric", "MonitorMetricList"] := by
  rw [line]
  split_ifs <;> decide

/-- No field is named like the member for the namespace. -/
theorem line_ne_space (name : String) : ∀ p ∈ line name, p.2.1 ≠ Primitive.spaceKey := by
  rw [line]
  split_ifs <;> decide

/-- A field of a line: it stores something flat, or entities of a type that is released like
the owner. -/
inductive Offered (name : String) : Field → Prop
  | required {k : Kind} (hk : k.Flat) : Offered name (required k)
  | nullable {k : Kind} (hk : k.Flat) : Offered name (nullable k)
  | flag : Offered name ⟨.boolean, false, some (.bool false)⟩
  | one {type : String} (howner : releases name = [release 1 0, release 1 1])
      (hchild : releases type = [release 1 0, release 1 1]) :
      Offered name (.mk (.object type) true none)
  | many {type : String} (howner : releases name = [release 1 0, release 1 1])
      (hchild : releases type = [release 1 0, release 1 1]) :
      Offered name ⟨.listOfObjects type, false, some (.list [])⟩

theorem line_offered (name : String) : ∀ p ∈ line name, Offered name p.2.2 := by
  rw [line]
  split_ifs with hmigration hmetric hlist hrequest
  · simp only [migrationFields, migrationType, hidden, List.map_cons, List.map_nil,
      List.cons_append, List.nil_append, List.forall_mem_cons]
    and_intros
    all_goals
      first
      | exact .required trivial
      | exact .nullable trivial
      | exact .flag
      | exact List.forall_mem_nil _
  · simp only [metricFields, bandwidth, List.map_cons, List.map_nil,
      List.cons_append, List.nil_append, List.forall_mem_cons]
    and_intros
    all_goals
      first
      | exact .required trivial
      | exact .nullable trivial
      | exact List.forall_mem_nil _
  · rw [List.forall_mem_singleton]
    exact .many (by rw [hlist]; decide) (by decide)
  · simp only [requestFields, List.map_cons, List.map_nil, List.forall_mem_cons]
    and_intros
    · exact .required trivial
    · exact .required trivial
    · exact .required trivial
    · exact .one (by rw [hrequest]; decide) (by decide)
    · exact .nullable trivial
    · exact .nullable trivial
    · exact List.forall_mem_nil _
  · exact List.forall_mem_nil _

theorem Defines.offered {store name : String} {v : Version} {s : Schema}
    (h : Defines store name v s) {n : String} {f : Field} (hf : s.field? n = some f) :
    Offered name f := by
  obtain ⟨p, hp, -, hpf⟩ := h.field?_iff.mp hf
  have hoffered := line_offered name p hp
  rw [hpf] at hoffered
  exact hoffered

namespace Offered

variable {name : String} {f : Field} (h : Offered name f)
include h

theorem plain : f.kind.Plain := by
  cases h with
  | required hk | nullable hk => exact hk.plain
  | _ => trivial

theorem lossless [Codecs] : f.kind.Lossless := by
  cases h with
  | required hk | nullable hk => exact hk.lossless
  | _ => trivial

theorem default [Codecs] : ∀ x, f.default? = some x → f.coerce x = .ok x ∧ x.graph = [] := by
  cases h with
  | required hk | nullable hk | one => nofun
  | flag | many =>
      rintro x ⟨⟩
      exact ⟨rfl, rfl⟩

end Offered

/-! ## Tables -/

/-- The table gives children the version of their owner, up to a version. -/
def countsAlike (versions : List Version) (v : Version) (table : Relationship) : Bool :=
  !table.isEmpty && versions.all fun w =>
    v.release < w.release || (table.childAt? w = some w && !table.isPast w)

theorem definitions_tables (store : String) : ∀ s ∈ definitions store,
    s.fields.all (fun q => !q.2.kind.isObject ||
      (s.relationship? q.1).any (countsAlike (releases s.name) s.version)) = true := by
  rw [forall_mem_definitions]
  and_intros <;> rfl

/-- Up to the version of a definition, children are to have the version of their owner. -/
theorem Defines.table {store name : String} {v : Version} {s : Schema}
    (h : Defines store name v s) {n : String} {f : Field} (hf : s.field? n = some f)
    (hkind : f.kind.isObject = true) : ∃ table, s.relationship? n = some table ∧ table ≠ [] ∧
      ∀ w ∈ releases name, w.release ≤ v.release →
        table.childAt? w = some w ∧ table.isPast w = false := by
  obtain ⟨hs, rfl, rfl⟩ := defines_iff.mp h
  have htables := List.all_eq_true.mp (definitions_tables store s hs) (n, f) (Record.mem_of_get? hf)
  rw [hkind, Bool.not_true, Bool.false_or] at htables
  cases htable : s.relationship? n with
  | none =>
      rw [htable] at htables
      cases htables
  | some table =>
      rw [htable, Option.any_some, countsAlike, Bool.and_eq_true, List.all_eq_true] at htables
      obtain ⟨hne, hrows⟩ := htables
      refine ⟨table, rfl, ?_, ?_⟩
      · rintro rfl
        cases hne
      · intro w hw hle
        have hrow := hrows w hw
        rw [decide_eq_false (Nat.not_lt.mpr hle), Bool.false_or, Bool.and_eq_true,
          decide_eq_true_eq, Bool.not_eq_true'] at hrow
        exact hrow

/-! ## Hooks -/

/-- Newer fields are removed, and nothing else. -/
theorem removeNewer_ends {newer : List (String × Version)} (hnewer : (newer.map (·.1)).Nodup)
    (target : Version) {ms : Members} (hms : Record.Ascending ms) :
    Edit.Ends (removeNewer newer target) ms (fun data => Record.Ascending data ∧
      (∀ n, n ∉ newer.map (·.1) → Record.get? data n = Record.get? ms n) ∧
      ∀ p ∈ newer, Record.get? data p.1 =
        if target.release < p.2.release then none else Record.get? ms p.1) (fun _ => False) := by
  unfold removeNewer
  refine @Edit.ends_forM ms _ Version newer hnewer _
    (fun p slot => slot = if target.release < p.2.release then none else Record.get? ms p.1) hms ?_
  rintro ⟨n, since⟩ - now hnow hget
  dsimp only
  split
  · refine Edit.ends_mono Edit.ends_erase ?_
    rintro ms' rfl
    exact Edit.onlyAt_erase hnow rfl
  · exact Edit.ends_pure (Edit.onlyAt_self hnow hget)

/-- What the hook of a type removes. -/
def newer (name : String) : List (String × Version) :=
  if name = "Migration" then [("hidden", release 1 2), ("migration_type", release 1 1)]
  else if name = "MonitorMetric" then [("numa_membw_values", release 1 1)]
  else []

theorem definitions_hooks (store : String) : ∀ s ∈ definitions store,
    ∀ w, s.runHook w = removeNewer (newer s.name) w := by
  rw [forall_mem_definitions]
  exact ⟨⟨fun _ => rfl, fun _ => rfl⟩, ⟨fun _ => rfl, fun _ => rfl⟩, ⟨fun _ => rfl, fun _ => rfl⟩,
    fun _ => rfl, fun _ => rfl, fun _ => rfl⟩

theorem newer_nodup (name : String) : ((newer name).map (·.1)).Nodup := by
  rw [newer]
  split_ifs <;> decide

/-- What hooks remove is what came after the first release. -/
theorem mem_newer (name : String) :
    (∀ p ∈ line name, p.1 = release 1 0 ∨ (p.2.1, p.1) ∈ newer name) ∧
      ∀ q ∈ newer name, ∃ p ∈ line name, p.1 = q.2 ∧ p.2.1 = q.1 := by
  rw [line, newer]
  split_ifs
  · exact ⟨by decide, by decide⟩
  · exact ⟨by decide, by decide⟩
  · exact ⟨by decide, by decide⟩
  · exact ⟨by decide, by decide⟩
  · exact ⟨by decide, by decide⟩

/-- The hook of a definition leaves just what an older definition declares. -/
theorem Defines.runHook {store name : String} {v w : Version} {s t : Schema}
    (hs : Defines store name v s) (ht : Defines store name w t) {slots : Members}
    (hslots : Record.Ascending slots)
    (hnames : ∀ n, n ∉ s.fieldNames → Record.get? slots n = none) :
    (s.runHook w).Ends slots (fun data => Record.Ascending data ∧
      ∀ n, Record.get? data n = if n ∈ t.fieldNames then Record.get? slots n else none)
      (fun _ => False) := by
  have hhook : s.runHook w = removeNewer (newer name) w := by
    rw [← hs.name]
    exact definitions_hooks store s (defines_iff.mp hs).1 w
  rw [hhook]
  refine Edit.ends_mono (removeNewer_ends (newer_nodup name) w hslots) ?_
  rintro data ⟨hdata, hkept, hnewer⟩
  refine ⟨hdata, fun n => ?_⟩
  obtain ⟨hline, hsince⟩ := mem_newer name
  by_cases hn : n ∈ (newer name).map (·.1)
  · obtain ⟨q, hq, rfl⟩ := List.mem_map.mp hn
    obtain ⟨p, hp, hpq, hname⟩ := hsince q hq
    rw [hnewer q hq, ← hpq]
    by_cases hle : p.1.release ≤ w.release
    · rw [if_neg (Nat.not_lt.mpr hle), if_pos (ht.mem_fieldNames_iff.mpr ⟨p, hp, hle, hname⟩)]
    · rw [if_pos (Nat.not_le.mp hle), if_neg]
      intro hdeclared
      obtain ⟨p', hp', hle', hname'⟩ := ht.mem_fieldNames_iff.mp hdeclared
      exact hle (line_unique hp' hp (hname'.trans hname.symm) ▸ hle')
  · rw [hkept n hn]
    split
    · rfl
    · next hundeclared =>
        refine hnames n ?_
        intro hdeclared
        obtain ⟨p, hp, -, rfl⟩ := hs.mem_fieldNames_iff.mp hdeclared
        rcases hline p hp with hfirst | hp'
        · exact hundeclared
            (ht.mem_fieldNames_iff.mpr ⟨p, hp, hfirst ▸ first_le_release ht.1, rfl⟩)
        · exact hn (List.mem_map_of_mem (f := (·.1)) hp')

end Catalog

end Skew

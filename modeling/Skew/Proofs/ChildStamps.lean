import Skew.Proofs.Registries
import Skew.Proofs.SentChildren

/-!
# Stamps of children

An entity is sent at a version by walking its composed fields, also where it is the version that
the entity has, so that children at a newer patch are brought down to the version of the
relationship table. A child that the walk opens is stamped with the child version of the last
threshold reached, patch included; so whoever reads that version reads the child.

Two kinds of children are overlooked (`Value.Overlooks`), and exactly these stay newer than the
table has them (`Entity.writeAt_stamps`). Past the last threshold, "no newer" is asked of releases
alone, and a child that is newer by its patch passes. And the entities of a tuple or set are
written but not opened.
-/

namespace Skew

/-- A child that is newer than the goal, patch included, and stays so: the walk does not open it,
or it is past the last threshold and only the patch is newer. -/
def Value.Overlooks (v : Value) (past : Bool) (goal : Version) (d : Entity) : Prop :=
  goal.rank < d.version.rank ∧
    (v.isWalked = false ∨ past = true ∧ d.version.release = goal.release)

section

variable [Codecs]

/-- The stamp is no newer than the goal unless the child is overlooked. -/
theorem Value.Sends.rank_le_iff {v : Value} {past : Bool} {goal : Version} {d : Entity}
    {doc : Json} (h : v.Sends past goal d doc) :
    ∃ stamp, doc.stamp? = some stamp ∧ (stamp.rank ≤ goal.rank ↔ ¬ v.Overlooks past goal d) := by
  rcases h.labelled with ⟨hleaves, hstamp, -⟩ | ⟨hopen, hstamp, -⟩
  · refine ⟨d.version, hstamp, ?_⟩
    rw [← Nat.not_lt]
    refine not_congr ⟨fun hnewer => ⟨hnewer, ?_⟩, And.left⟩
    have hrelease : goal.release ≤ d.version.release :=
      Version.release_le_of_rank_le (Nat.le_of_lt hnewer)
    exact hleaves.imp_right fun ⟨hpast, hbound⟩ => ⟨hpast, Nat.le_antisymm hbound hrelease⟩
  · refine ⟨goal, hstamp, iff_of_true (Nat.le_refl _) ?_⟩
    rintro ⟨-, hoverlooked⟩
    exact hopen (hoverlooked.imp_right fun ⟨hpast, heq⟩ => ⟨hpast, Nat.le_of_eq heq⟩)

/-- **Newer patches are brought down.** Let an entity without a hook be sent at a version, its own
or another. Each document in the entry of a composed field is that of one entity in the field. It
is stamped no newer than the child version of the last threshold that the version has reached,
patch included, exactly if the child is not overlooked; and then a node that can read children at
the table's version is not stopped by the version of this one, within the same major. -/
theorem Entity.writeAt_stamps {e : Entity} (hschema : e.schema.WellFormed)
    (hhook : e.schema.hook? = none) {target : Version} {p : Primitive}
    (hwrite : e.writeAt target = .ok p) {n : String} {f : Field}
    (hfield : e.schema.field? n = some f) (hkind : f.kind.isObject = true) {j : Json}
    (hsent : Record.get? p.data n = some j) :
    ∃ v table goal, Record.get? e.values n = some v ∧ e.schema.relationship? n = some table ∧
      table.childAt? target = some goal ∧
      List.Forall₂ (fun d doc => ∃ stamp, doc.stamp? = some stamp ∧
        (stamp.rank ≤ goal.rank ↔ ¬ v.Overlooks (table.isPast target) goal d) ∧
        (stamp.rank ≤ goal.rank → stamp.major = goal.major → ∀ r : Registry,
          (∃ s, r.resolve d.schema.name goal = .ok s) →
            ∃ s, r.resolve d.schema.name stamp = .ok s)) v.entities j.childDocuments := by
  obtain ⟨raw, data, hraw, hrun, rfl⟩ := exists_run_of_writeAt hwrite
  obtain ⟨f', v, _, hfield', hv, -, -⟩ := exists_written_of_sent hschema hhook hraw hrun hsent
  cases hfield.symm.trans hfield'
  have hentry := sends_of_makeCompatible hschema hhook hraw hrun n
  rw [Sends, composed?_eq_some_iff.mpr ⟨f, hfield, hkind, hv⟩] at hentry
  obtain ⟨table, htable, ⟨-, hnone⟩ | ⟨goal, j', hgoal, hj, hchildren⟩⟩ := hentry
  · rw [wrap] at hsent
    cases hsent.symm.trans hnone
  · rw [wrap] at hsent
    cases hsent.symm.trans hj
    refine ⟨v, table, goal, hv, htable, hgoal, hchildren.imp fun d doc hdoc => ?_⟩
    obtain ⟨stamp, hstamp, hiff⟩ := hdoc.rank_le_iff
    exact ⟨stamp, hstamp, hiff, fun hrank hmajor r hgoal =>
      Registry.exists_resolve_of_rank_le hgoal hmajor hrank⟩

end

/-! ## A workbench

A tool has a patch that the tables do not know of. Where the table of the bench has its last
threshold, the tool is brought down; past it, and in a rack that holds its tools in a tuple, it
stays as it is. -/

namespace Bench

attribute [local instance] Codecs.none

def toolSchema : Schema :=
  ⟨"Tool", ⟨1, 0, some 1⟩, [("label", ⟨.string, false, none⟩)], [], [], none⟩

def table : Relationship := [(⟨1, 0, none⟩, ⟨1, 0, none⟩)]

def benchSchema : Schema :=
  ⟨"Bench", ⟨1, 1, none⟩, [("tool", ⟨.object "Tool", false, none⟩)], [("tool", table)], [], none⟩

def rackSchema : Schema :=
  ⟨"Rack", ⟨1, 0, none⟩, [("tools", ⟨.listOfObjects "Tool", false, none⟩)], [("tools", table)], [],
    none⟩

def tool : Entity := ⟨toolSchema, ⟨1, 0, some 1⟩, none, [("label", .str "saw")], []⟩

def bench : Entity := ⟨benchSchema, ⟨1, 1, none⟩, none, [("tool", .entity tool)], []⟩

def rack : Entity := ⟨rackSchema, ⟨1, 0, none⟩, none, [("tools", .tuple [.entity tool])], []⟩

/-- The tool, sent at a version. -/
def sentTool (version : Version) : Json := (tool.wrap version [("label", .str "saw")]).toJson

def sentBench (version toolVersion : Version) : Primitive :=
  bench.wrap version [("tool", sentTool toolVersion)]

def sentRack : Primitive := rack.wrap ⟨1, 0, none⟩ [("tools", .arr [sentTool ⟨1, 0, some 1⟩])]

theorem bench_at_threshold :
    bench.writeAt ⟨1, 0, none⟩ = .ok (sentBench ⟨1, 0, none⟩ ⟨1, 0, none⟩) := by
  have hdata : bench.data = .ok [("tool", sentTool ⟨1, 0, some 1⟩)] := rfl
  have hrun : bench.makeCompatible ⟨1, 0, none⟩ [("tool", sentTool ⟨1, 0, some 1⟩)] =
      (.ok (), [("tool", sentTool ⟨1, 0, none⟩)]) :=
    Entity.makeCompatible_single rfl rfl rfl rfl
  rw [Entity.writeAt_eq hdata, hrun]
  rfl

theorem bench_past_threshold :
    bench.writeAt ⟨1, 1, none⟩ = .ok (sentBench ⟨1, 1, none⟩ ⟨1, 0, some 1⟩) := by
  have hdata : bench.data = .ok [("tool", sentTool ⟨1, 0, some 1⟩)] := rfl
  have hrun : bench.makeCompatible ⟨1, 1, none⟩ [("tool", sentTool ⟨1, 0, some 1⟩)] =
      (.ok (), [("tool", sentTool ⟨1, 0, some 1⟩)]) :=
    Entity.makeCompatible_single rfl rfl rfl rfl
  rw [Entity.writeAt_eq hdata, hrun]
  rfl

theorem rack_at_threshold : rack.writeAt ⟨1, 0, none⟩ = .ok sentRack := by
  have hdata : rack.data = .ok sentRack.data := rfl
  have hrun : rack.makeCompatible ⟨1, 0, none⟩ sentRack.data = (.ok (), sentRack.data) :=
    Entity.makeCompatible_single rfl rfl rfl rfl
  rw [Entity.writeAt_eq hdata, hrun]
  rfl

/-- At the threshold the tool is brought down. -/
theorem bench_stamps : benchSchema.WellFormed ∧ benchSchema.hook? = none ∧
    bench.writeAt ⟨1, 0, none⟩ = .ok (sentBench ⟨1, 0, none⟩ ⟨1, 0, none⟩) ∧
    ∃ v table goal, Record.get? bench.values "tool" = some v ∧
      benchSchema.relationship? "tool" = some table ∧
      table.childAt? ⟨1, 0, none⟩ = some goal ∧
      List.Forall₂ (fun d doc => ∃ stamp, doc.stamp? = some stamp ∧
        (stamp.rank ≤ goal.rank ↔ ¬ v.Overlooks (table.isPast ⟨1, 0, none⟩) goal d) ∧
        (stamp.rank ≤ goal.rank → stamp.major = goal.major → ∀ r : Registry,
          (∃ s, r.resolve d.schema.name goal = .ok s) →
            ∃ s, r.resolve d.schema.name stamp = .ok s)) v.entities
        (sentTool ⟨1, 0, none⟩).childDocuments := by
  have hsent : Record.get? (sentBench ⟨1, 0, none⟩ ⟨1, 0, none⟩).data "tool" =
      some (sentTool ⟨1, 0, none⟩) := rfl
  exact ⟨by decide, rfl, bench_at_threshold,
    Entity.writeAt_stamps (e := bench) (by decide) rfl bench_at_threshold rfl rfl hsent⟩

/-- Every child that is sent is stamped no newer than the table gives, patch included. -/
def BroughtDown (e : Entity) (target : Version) : Prop :=
  ∀ p n v table goal j, e.writeAt target = .ok p → e.composed? n = some v →
    e.schema.relationship? n = some table → table.childAt? target = some goal →
    Record.get? p.data n = some j →
    ∀ doc ∈ j.childDocuments, ∀ stamp, doc.stamp? = some stamp → stamp.rank ≤ goal.rank

/-- A node that knows the tools only as the tables do. -/
def peer : Registry := Registry.empty.register { toolSchema with version := ⟨1, 0, none⟩ }

/-- The tool on the bench stays newer past the threshold, and so does one in a tuple at it; a peer
that knows the version of the table refuses both. -/
theorem not_all_brought_down :
    (benchSchema.WellFormed ∧ benchSchema.hook? = none ∧
      benchSchema.relationship? "tool" = some table ∧ ¬ BroughtDown bench bench.version) ∧
    (rackSchema.WellFormed ∧ rackSchema.hook? = none ∧
      rackSchema.relationship? "tools" = some table ∧ ¬ BroughtDown rack rack.version) ∧
    peer.resolve "Tool" ⟨1, 0, some 1⟩ =
      .error (.incompatibleVersion "Tool" ⟨1, 0, some 1⟩ ⟨1, 0, none⟩) := by
  have hstamp : (sentTool ⟨1, 0, some 1⟩).stamp? = some ⟨1, 0, some 1⟩ :=
    Json.stamp?_obj (Primitive.get?_members_version (tool.wrap ⟨1, 0, some 1⟩ _))
  have hnewer : ¬ (⟨1, 0, some 1⟩ : Version).rank ≤ (⟨1, 0, none⟩ : Version).rank := by decide
  have hpast : table.childAt? ⟨1, 1, none⟩ = some ⟨1, 0, none⟩ := by decide
  have hat : table.childAt? ⟨1, 0, none⟩ = some ⟨1, 0, none⟩ := by decide
  have hbench : Record.get? (sentBench ⟨1, 1, none⟩ ⟨1, 0, some 1⟩).data "tool" =
      some (sentTool ⟨1, 0, some 1⟩) := rfl
  have hrack : Record.get? sentRack.data "tools" = some (.arr [sentTool ⟨1, 0, some 1⟩]) := rfl
  refine ⟨⟨by decide, rfl, rfl, fun h => hnewer ?_⟩, ⟨by decide, rfl, rfl, fun h => hnewer ?_⟩, rfl⟩
  · exact h _ "tool" (.entity tool) table _ _ bench_past_threshold rfl rfl hpast hbench _
      List.mem_cons_self _ hstamp
  · exact h _ "tools" (.tuple [.entity tool]) table _ _ rack_at_threshold rfl rfl hat hrack _
      List.mem_cons_self _ hstamp

end Bench

end Skew

import Mathlib.Data.List.Induction
import Skew.Proofs.Gathering
import Skew.Proofs.Soundness
import Skew.Proofs.Thresholds

/-!
# Schemas after any calls

A declaration is the outcome of calls, in order, and a schema is a declaration that has passed
its checks. The four collections of a declaration do not see each other: what the calls say about
fields, tables, methods and hooks is four lists (`Call.fields` and its like), and each collection
is one fold over its own list (`Script.declaration_eq`).

So what counts is a matter of these lists. Of the entries under one name the last one counts
(`Record.LastUnder`), in all three collections by names; the first one only gives a field its
place. Building asks for no more than readable versions, declared fields and ascending owners of
the tables that count, and the schema has what counts and nothing else (`Script.build_exact`).
-/

namespace Skew

/-! ## The last entry under a name -/

namespace Record

variable {α : Type}

/-- Of the entries under the name, the last one. -/
def LastUnder (entries : List (String × α)) (n : String) (a : α) : Prop :=
  (entries.filter fun e => e.1 = n).getLast? = some (n, a)

theorem LastUnder.mem {entries : List (String × α)} {n : String} {a : α}
    (h : LastUnder entries n a) : (n, a) ∈ entries :=
  List.mem_of_mem_filter (List.mem_of_getLast? h)

theorem lastUnder_concat {entries : List (String × α)} {m n : String} {a b : α} :
    LastUnder (entries ++ [(m, b)]) n a ↔ m = n ∧ b = a ∨ m ≠ n ∧ LastUnder entries n a := by
  rw [LastUnder, List.filter_append, List.getLast?_append, List.filter_singleton]
  by_cases hm : m = n
  · simp [hm]
  · simp [hm, LastUnder]

theorem exists_lastUnder_iff {entries : List (String × α)} {n : String} :
    (∃ a, LastUnder entries n a) ↔ n ∈ entries.map (·.1) := by
  constructor
  · rintro ⟨a, ha⟩
    exact List.mem_map_of_mem ha.mem
  · intro hn
    obtain ⟨e, he, rfl⟩ := List.mem_map.mp hn
    have hmem : e ∈ entries.filter fun f => f.1 = e.1 :=
      List.mem_filter.mpr ⟨he, decide_eq_true rfl⟩
    obtain ⟨last, hlast⟩ := Option.isSome_iff_exists.mp
      (List.getLast?_isSome.mpr (List.ne_nil_of_mem hmem))
    have hname : last.1 = e.1 := of_decide_eq_true
      (List.mem_filter.mp (List.mem_of_getLast? hlast)).2
    exact ⟨last.2, hname ▸ hlast⟩

/-- In a record of pairs that later entries win, a name has its last entry. -/
theorem get?_ofPairs {entries : List (String × α)} {n : String} {a : α} :
    get? (ofPairs entries) n = some a ↔ LastUnder entries n a := by
  induction entries using List.reverseRecOn with
  | nil => simp [ofPairs, get?, LastUnder]
  | append_singleton entries e ih =>
      obtain ⟨m, b⟩ := e
      rw [lastUnder_concat, ← ih, ofPairs, List.foldl_append, List.foldl_cons, List.foldl_nil,
        get?_insert]
      by_cases hm : m = n <;> simp [hm, ofPairs]

end Record

namespace Declaration

open Record (LastUnder)

/-! ## Calls -/

inductive Call where
  | field (name : String) (f : Field)
  | timestamps
  | persistent
  | relationship (name : String) (table : List (String × String))
  | method (name : String) (m : Method)
  | hook (h : Hook)

namespace Call

def apply (d : Declaration) : Call → Declaration
  | .field n f => d.field n f
  | .timestamps => d.timestamps
  | .persistent => d.persistent
  | .relationship n table => d.relationship n table
  | .method n m => d.method n m
  | .hook h => d.hook h

/-- The fields that a call declares, in order. -/
def fields : Call → List (String × Field)
  | .field n f => [(n, f)]
  | .timestamps => [("created_at", timestamp), ("updated_at", timestamp)]
  | .persistent =>
    [("created_at", timestamp), ("updated_at", timestamp), ("deleted_at", timestamp),
      ("deleted", ⟨.boolean, false, some (.bool false)⟩)]
  | _ => []

def tables : Call → List (String × List (String × String))
  | .relationship n table => [(n, table)]
  | _ => []

def methods : Call → List (String × Method)
  | .method n m => [(n, m)]
  | _ => []

def hooks : Call → List Hook
  | .hook h => [h]
  | _ => []

end Call

/-- How a declaration begins: with nothing, or as a list type. -/
inductive Opening where
  | plain
  | list (itemType : String) (table : List (String × String))

namespace Opening

def declaration (name version : String) : Opening → Declaration
  | .plain => start name version
  | .list itemType table => Declaration.list name version itemType table

/-- A list type is a plain declaration on which two calls were made. -/
def calls : Opening → List Call
  | .plain => []
  | .list itemType table =>
    [.field Schema.itemsField ⟨.listOfObjects itemType, false, some (.list [])⟩,
      .relationship Schema.itemsField table]

end Opening

/-- A declaration as it is written down: a beginning, then any calls. -/
structure Script where
  name : String
  version : String
  opening : Opening
  calls : List Call

namespace Script

variable (c : Script)

def declaration : Declaration := c.calls.foldl Call.apply (c.opening.declaration c.name c.version)

def allCalls : List Call := c.opening.calls ++ c.calls

/-- Every declaration of a field, in order. -/
def fields : List (String × Field) := c.allCalls.flatMap Call.fields

def fieldNames : List String := c.fields.map (·.1)

def tables : List (String × List (String × String)) := c.allCalls.flatMap Call.tables

def methods : List (String × Method) := c.allCalls.flatMap Call.methods

def hooks : List Hook := c.allCalls.flatMap Call.hooks

end Script

/-! ## What calls leave behind -/

/-- Fields as they stand after the declarations, one after the other. -/
def fieldsAfter (entries : List (String × Field)) (fs : List (String × Field)) :
    List (String × Field) :=
  entries.foldl (fun fs e => replaceField e.1 e.2 fs) fs

/-- Tables as they stand after they were given, one after the other. -/
def tablesAfter (entries ts : List (String × List (String × String))) :
    List (String × List (String × String)) :=
  entries.foldl (fun ts e => ts.filter (·.1 ≠ e.1) ++ [e]) ts

/-- A call adds what it says, each thing to its own collection. -/
theorem apply_eq (d : Declaration) (c : Call) :
    c.apply d = ⟨d.name, d.version, fieldsAfter c.fields d.fields, tablesAfter c.tables d.relationships,
      Record.update d.methods c.methods, c.hooks.getLast?.or d.hook?⟩ := by
  cases c <;> rfl

theorem foldl_apply (calls : List Call) (d : Declaration) :
    calls.foldl Call.apply d =
      ⟨d.name, d.version, fieldsAfter (calls.flatMap Call.fields) d.fields,
        tablesAfter (calls.flatMap Call.tables) d.relationships,
        Record.update d.methods (calls.flatMap Call.methods),
        (calls.flatMap Call.hooks).getLast?.or d.hook?⟩ := by
  induction calls generalizing d with
  | nil => rfl
  | cons c calls ih =>
      rw [List.foldl_cons, ih, apply_eq]
      simp only [List.flatMap_cons, fieldsAfter, tablesAfter, Record.update, List.foldl_append,
        List.getLast?_append, Option.or_assoc]

/-- A script declares four collections, each from what its calls say about it. -/
theorem Script.declaration_eq (c : Script) :
    c.declaration = ⟨c.name, c.version, fieldsAfter c.fields [], tablesAfter c.tables [],
      Record.ofPairs c.methods, c.hooks.getLast?⟩ := by
  have hopening : c.opening.declaration c.name c.version =
      c.opening.calls.foldl Call.apply (start c.name c.version) := by
    cases c.opening <;> rfl
  rw [declaration, hopening, ← List.foldl_append, foldl_apply, start, Option.or_none]
  rfl

/-! ## Fields -/

theorem get?_replaceField (name : String) (f : Field) (fs : List (String × Field)) (n : String) :
    Record.get? (replaceField name f fs) n = if name = n then some f else Record.get? fs n := by
  induction fs with
  | nil => rfl
  | cons g fs ih =>
      obtain ⟨m, g⟩ := g
      rw [replaceField]
      split
      · next hm =>
          subst hm
          simp only [Record.get?]
          split <;> rfl
      · next hm =>
          simp only [Record.get?, ih]
          split
          · next hmn => rw [if_neg (hmn ▸ Ne.symm hm)]
          · rfl

theorem names_replaceField {name : String} {f : Field} {fs : List (String × Field)} :
    (replaceField name f fs).map (·.1) =
      if name ∈ fs.map (·.1) then fs.map (·.1) else fs.map (·.1) ++ [name] := by
  induction fs with
  | nil => rfl
  | cons g fs ih =>
      obtain ⟨m, g⟩ := g
      rw [replaceField]
      split
      · next hm => simp [hm]
      · next hm =>
          simp only [List.map_cons, ih, List.mem_cons, Ne.symm hm, false_or]
          split <;> rfl

theorem fieldsAfter_concat (entries : List (String × Field)) (e : String × Field) :
    fieldsAfter (entries ++ [e]) [] = replaceField e.1 e.2 (fieldsAfter entries []) := by
  rw [fieldsAfter, List.foldl_append]
  rfl

theorem get?_fieldsAfter {entries : List (String × Field)} {n : String} {f : Field} :
    Record.get? (fieldsAfter entries []) n = some f ↔ LastUnder entries n f := by
  induction entries using List.reverseRecOn with
  | nil => simp [fieldsAfter, Record.get?, LastUnder]
  | append_singleton entries e ih =>
      obtain ⟨m, g⟩ := e
      rw [Record.lastUnder_concat, ← ih, fieldsAfter_concat, get?_replaceField]
      by_cases hm : m = n <;> simp [hm]

theorem nodup_fieldsAfter (entries : List (String × Field)) :
    ((fieldsAfter entries []).map (·.1)).Nodup := by
  induction entries using List.reverseRecOn with
  | nil => exact List.nodup_nil
  | append_singleton entries e ih =>
      rw [fieldsAfter_concat]
      exact replaceField_nodup _ _ ih

theorem mem_names_fieldsAfter {entries : List (String × Field)} {n : String} :
    n ∈ (fieldsAfter entries []).map (·.1) ↔ n ∈ entries.map (·.1) := by
  rw [← Record.contains_iff_mem, Record.contains_iff, ← Record.exists_lastUnder_iff]
  exact exists_congr fun f => get?_fieldsAfter

/-- Fields stand in the order in which they were first declared. -/
theorem ordered_fieldsAfter (entries : List (String × Field)) :
    ((fieldsAfter entries []).map (·.1)).Pairwise fun m n =>
      (entries.map (·.1)).idxOf m < (entries.map (·.1)).idxOf n := by
  induction entries using List.reverseRecOn with
  | nil => exact List.Pairwise.nil
  | append_singleton entries e ih =>
      have hearlier {n : String} (hn : n ∈ (fieldsAfter entries []).map (·.1)) :
          ((entries ++ [e]).map (·.1)).idxOf n = (entries.map (·.1)).idxOf n := by
        rw [List.map_append, List.idxOf_append_of_mem (mem_names_fieldsAfter.mp hn)]
      have hkept : ((fieldsAfter entries []).map (·.1)).Pairwise fun m n =>
          ((entries ++ [e]).map (·.1)).idxOf m < ((entries ++ [e]).map (·.1)).idxOf n :=
        ih.imp_of_mem fun hm hn hlt => by rwa [hearlier hm, hearlier hn]
      rw [fieldsAfter_concat, names_replaceField]
      split
      · exact hkept
      · next hnew =>
          -- A new name stands behind all others, and its index is their number.
          rw [mem_names_fieldsAfter] at hnew
          refine List.pairwise_append.mpr ⟨hkept, List.pairwise_singleton _ _, ?_⟩
          intro m hm n hn
          obtain rfl := List.mem_singleton.mp hn
          rw [hearlier hm, List.map_append, List.idxOf_append_of_notMem hnew]
          exact Nat.lt_of_lt_of_le (List.idxOf_lt_length_of_mem (mem_names_fieldsAfter.mp hm))
            (Nat.le_add_right _ _)

/-! ## Tables -/

theorem tablesAfter_concat (entries : List (String × List (String × String)))
    (e : String × List (String × String)) :
    tablesAfter (entries ++ [e]) [] = (tablesAfter entries []).filter (·.1 ≠ e.1) ++ [e] := by
  rw [tablesAfter, List.foldl_append]
  rfl

/-- The tables that survive are those given last. -/
theorem mem_tablesAfter {entries : List (String × List (String × String))} {n : String}
    {table : List (String × String)} :
    (n, table) ∈ tablesAfter entries [] ↔ LastUnder entries n table := by
  induction entries using List.reverseRecOn with
  | nil => simp [tablesAfter, LastUnder]
  | append_singleton entries e ih =>
      obtain ⟨m, last⟩ := e
      rw [Record.lastUnder_concat, ← ih, tablesAfter_concat, List.mem_append, List.mem_filter,
        List.mem_singleton, Prod.mk.injEq]
      by_cases hm : m = n
      · simp [hm, eq_comm]
      · simp [hm, Ne.symm hm]

/-- At most one table survives for each field. -/
theorem nodup_tablesAfter (entries : List (String × List (String × String))) :
    ((tablesAfter entries []).map (·.1)).Nodup := by
  induction entries using List.reverseRecOn with
  | nil => exact List.nodup_nil
  | append_singleton entries e ih =>
      rw [tablesAfter_concat, List.map_append, List.map_singleton]
      refine List.nodup_append.mpr ⟨?_, List.nodup_cons.mpr ⟨List.not_mem_nil, List.nodup_nil⟩, ?_⟩
      · exact List.Nodup.sublist (List.filter_sublist.map _) ih
      · intro n hn m hm
        obtain rfl := List.mem_singleton.mp hm
        obtain ⟨t, ht, rfl⟩ := List.mem_map.mp hn
        simpa using (List.mem_filter.mp ht).2

/-! ## Checking -/

/-- The rows of a table, each text read as the version that it denotes. -/
def Reads (table : List (String × String)) (rows : Relationship) : Prop :=
  List.Forall₂ (fun entry row => Version.ofText entry.1 = .ok row.1 ∧
    Version.ofText entry.2 = .ok row.2) table rows

theorem readTable_eq_ok_iff {table : List (String × String)} {rows : Relationship} :
    readTable table = .ok rows ↔ Reads table rows := by
  have hentry (entry : String × String) (row : Version × Version) :
      (do
        let owner ← Version.ofText entry.1
        let child ← Version.ofText entry.2
        Except.ok (owner, child)) = (Except.ok row : Outcome (Version × Version)) ↔
      Version.ofText entry.1 = .ok row.1 ∧ Version.ofText entry.2 = .ok row.2 := by
    simp only [Except.bind_eq_ok_iff, Except.ok.injEq]
    constructor
    · rintro ⟨owner, howner, child, hchild, rfl⟩
      exact ⟨howner, hchild⟩
    · rintro ⟨howner, hchild⟩
      exact ⟨_, howner, _, hchild, rfl⟩
  rw [readTable, List.mapM_eq_ok_iff]
  constructor
  · exact fun h => h.imp fun entry row => (hentry entry row).mp
  · exact fun h => h.imp fun entry row => (hentry entry row).mpr

theorem Reads.unique {table : List (String × String)} {rows rows' : Relationship}
    (h : Reads table rows) (h' : Reads table rows') : rows = rows' := by
  rw [← readTable_eq_ok_iff] at h h'
  exact Except.ok.inj (h.symm.trans h')

theorem checkTable_eq_ok_iff {d : Declaration} {n : String} {table : List (String × String)}
    {rows : Relationship} : d.checkTable n table = .ok rows ↔
      n ∈ d.fields.map (·.1) ∧ Reads table rows ∧
        rows.Pairwise fun r s => r.1.release < s.1.release := by
  rw [← Record.contains_iff_mem, ← readTable_eq_ok_iff, ← ascending_iff_pairwise, checkTable]
  constructor
  · intro h
    split at h
    · cases h
    · next hfield =>
        obtain ⟨read, hread, h⟩ := Except.bind_eq_ok_iff.mp h
        split at h
        · cases h
        · next hasc =>
            cases h
            exact ⟨not_not.mp hfield, hread, not_not.mp hasc⟩
  · rintro ⟨hfield, hread, hasc⟩
    rw [if_neg (not_not.mpr hfield), hread]
    exact if_neg (not_not.mpr hasc)

/-- The tables are checked one after the other and kept under the names of their fields. -/
theorem build_eq (d : Declaration) : d.build = (do
    let version ← Version.ofText d.version
    let tables ← Record.gather d.relationships (fun n table => some (d.checkTable n table)) []
    .ok ⟨d.name, version, d.fields, tables, d.methods, d.hook?⟩) := by
  have hstep : (fun (tables : Record Relationship) (p : String × List (String × String)) =>
      (d.checkTable p.1 p.2).map (Record.insert tables p.1)) =
      fun tables p =>
        d.checkTable p.1 p.2 >>= fun rows => pure (Record.insert tables p.1 rows) := by
    funext tables p
    cases d.checkTable p.1 p.2 <;> rfl
  rw [build, hstep]
  rfl

theorem exists_build_iff {d : Declaration} : (∃ s, d.build = .ok s) ↔
    (∃ v, Version.ofText d.version = .ok v) ∧
      ∀ p ∈ d.relationships, ∃ rows, d.checkTable p.1 p.2 = .ok rows := by
  rw [build_eq]
  constructor
  · rintro ⟨s, h⟩
    obtain ⟨v, hv, h⟩ := Except.bind_eq_ok_iff.mp h
    obtain ⟨tables, htables, -⟩ := Except.bind_eq_ok_iff.mp h
    exact ⟨⟨v, hv⟩, fun p hp => Record.steps_ok_of_gather htables p hp _ rfl⟩
  · rintro ⟨⟨v, hv⟩, h⟩
    rw [hv, Except.ok_bind]
    cases htables : Record.gather d.relationships
        (fun n table => some (d.checkTable n table)) [] with
    | ok tables => exact ⟨_, rfl⟩
    | error err =>
        obtain ⟨p, hp, herr⟩ := Record.exists_error_of_gather htables
        obtain ⟨rows, hrows⟩ := h p hp
        rw [hrows] at herr
        cases herr

/-- A schema has what its declaration has, and the tables as they were checked. -/
structure Makes (d : Declaration) (s : Schema) : Prop where
  name : s.name = d.name
  version : Version.ofText d.version = .ok s.version
  fields : s.fields = d.fields
  methods : s.methods = d.methods
  hook : s.hook? = d.hook?
  distinct : (s.relationships.map (·.1)).Nodup
  given : ∀ n rows, s.relationship? n = some rows ↔
    ∃ table, (n, table) ∈ d.relationships ∧ d.checkTable n table = .ok rows

theorem makes_of_build {d : Declaration} (hd : (d.relationships.map (·.1)).Nodup) {s : Schema}
    (h : d.build = .ok s) : d.Makes s := by
  rw [build_eq] at h
  obtain ⟨v, hv, h⟩ := Except.bind_eq_ok_iff.mp h
  obtain ⟨tables, htables, h⟩ := Except.bind_eq_ok_iff.mp h
  cases h
  obtain ⟨hasc, hnames, hchecked⟩ := (Record.gather_eq_ok_iff hd).mp htables
  refine ⟨rfl, hv, rfl, rfl, rfl, hasc.nodup, fun n rows => ?_⟩
  constructor
  · intro hrows
    obtain ⟨p, hp, rfl⟩ := List.mem_map.mp (hnames n (List.mem_map_of_mem (Record.mem_of_get? hrows)))
    have hcheck := hchecked p hp
    rw [show Record.get? tables p.1 = some rows from hrows] at hcheck
    exact ⟨p.2, hp, Option.some.inj hcheck⟩
  · rintro ⟨table, hmem, hcheck⟩
    have hfound := hchecked _ hmem
    rw [hcheck] at hfound
    obtain ⟨found, hget, heq⟩ := Option.map_eq_some_iff.mp hfound.symm
    cases heq
    exact hget

/-! ## Scripts -/

/-- What a script must say to be built: versions that can be read, and tables that name declared
fields and ascend by the owner's major and minor number. -/
structure Script.Sound (c : Script) : Prop where
  version : ∃ v, Version.ofText c.version = .ok v
  tables : ∀ n table, LastUnder c.tables n table → n ∈ c.fieldNames ∧
    ∃ rows, Reads table rows ∧ rows.Pairwise fun r s => r.1.release < s.1.release

/-- The schema that a script describes. -/
structure Script.Describes (c : Script) (s : Schema) : Prop where
  name : s.name = c.name
  version : Version.ofText c.version = .ok s.version
  /-- every field that was declared, as it was declared last -/
  fields : ∀ n f, (n, f) ∈ s.fields ↔ LastUnder c.fields n f
  /-- each once -/
  distinct : s.fieldNames.Nodup
  /-- in the order in which they were declared first -/
  ordered : s.fieldNames.Pairwise fun m n => c.fieldNames.idxOf m < c.fieldNames.idxOf n
  /-- a name is looked up as it is listed -/
  lookup : ∀ n f, s.field? n = some f ↔ (n, f) ∈ s.fields
  /-- the tables that were given last, as versions -/
  tables : ∀ n rows, s.relationship? n = some rows ↔
    ∃ table, LastUnder c.tables n table ∧ Reads table rows
  /-- under the names of declared fields, each ascending -/
  keys : ∀ p ∈ s.relationships, p.1 ∈ s.fieldNames ∧
    p.2.Pairwise fun r s => r.1.release < s.1.release
  methods : ∀ n m, s.method? n = some m ↔ LastUnder c.methods n m
  hook : s.hook? = c.hooks.getLast?
  isList : s.isList = true ↔
    ∃ f type, s.fields = [(Schema.itemsField, f)] ∧ f.kind = .listOfObjects type

namespace Script

theorem relationships_declaration (c : Script) :
    c.declaration.relationships = tablesAfter c.tables [] := by
  rw [declaration_eq]

theorem nodup_relationships (c : Script) : (c.declaration.relationships.map (·.1)).Nodup := by
  rw [relationships_declaration]
  exact nodup_tablesAfter _

theorem mem_relationships (c : Script) (n : String) (table : List (String × String)) :
    (n, table) ∈ c.declaration.relationships ↔ LastUnder c.tables n table := by
  rw [relationships_declaration]
  exact mem_tablesAfter

theorem checkTable_declaration {c : Script} {n : String} {table : List (String × String)}
    {rows : Relationship} : c.declaration.checkTable n table = .ok rows ↔
      n ∈ c.fieldNames ∧ Reads table rows ∧
        rows.Pairwise fun r s => r.1.release < s.1.release := by
  rw [checkTable_eq_ok_iff, declaration_eq, mem_names_fieldsAfter]
  rfl

theorem exists_build_iff_sound {c : Script} :
    (∃ s, c.declaration.build = .ok s) ↔ c.Sound := by
  have hversion : c.declaration.version = c.version := by rw [declaration_eq]
  rw [exists_build_iff, hversion]
  constructor
  · rintro ⟨hv, htables⟩
    refine ⟨hv, fun n table hlast => ?_⟩
    obtain ⟨rows, hrows⟩ := htables (n, table) ((mem_relationships c n table).mpr hlast)
    obtain ⟨hn, hreads, hasc⟩ := checkTable_declaration.mp hrows
    exact ⟨hn, rows, hreads, hasc⟩
  · rintro ⟨hv, htables⟩
    refine ⟨hv, fun ⟨n, table⟩ hp => ?_⟩
    obtain ⟨hn, rows, hreads, hasc⟩ := htables n table ((mem_relationships c n table).mp hp)
    exact ⟨rows, checkTable_declaration.mpr ⟨hn, hreads, hasc⟩⟩

theorem describes_of_build {c : Script} {s : Schema} (h : c.declaration.build = .ok s) :
    c.Describes s := by
  have hmakes := makes_of_build c.nodup_relationships h
  have hsound : c.Sound := exists_build_iff_sound.mp ⟨s, h⟩
  have hgiven (n : String) (rows : Relationship) : s.relationship? n = some rows ↔
      ∃ table, LastUnder c.tables n table ∧ n ∈ c.fieldNames ∧ Reads table rows ∧
        rows.Pairwise fun r s => r.1.release < s.1.release := by
    rw [hmakes.given]
    exact exists_congr fun table => and_congr (mem_relationships c n table) checkTable_declaration
  have hfields : s.fields = fieldsAfter c.fields [] := by rw [hmakes.fields, declaration_eq]
  have hnames : s.fieldNames = (fieldsAfter c.fields []).map (·.1) := by
    rw [Schema.fieldNames, hfields]
  have hdistinct : s.fieldNames.Nodup := hnames ▸ nodup_fieldsAfter c.fields
  have hlookup (n : String) (f : Field) : s.field? n = some f ↔ (n, f) ∈ s.fields :=
    ⟨Record.mem_of_get?, Record.get?_of_mem hdistinct⟩
  have hmem (n : String) : n ∈ s.fieldNames ↔ n ∈ c.fieldNames := by
    rw [hnames, mem_names_fieldsAfter]
    rfl
  refine {
    name := ?_, version := ?_, fields := ?_, distinct := hdistinct, ordered := ?_,
    lookup := hlookup, tables := ?_, keys := ?_, methods := ?_, hook := ?_, isList := ?_ }
  · rw [hmakes.name, declaration_eq]
  · rw [← hmakes.version, declaration_eq]
  · intro n f
    rw [← hlookup, Schema.field?, hfields, get?_fieldsAfter]
  · rw [hnames]
    exact ordered_fieldsAfter c.fields
  · intro n rows
    rw [hgiven]
    constructor
    · rintro ⟨table, hlast, -, hreads, -⟩
      exact ⟨table, hlast, hreads⟩
    · rintro ⟨table, hlast, hreads⟩
      obtain ⟨hn, rows', hreads', hasc⟩ := hsound.tables n table hlast
      obtain rfl := hreads.unique hreads'
      exact ⟨table, hlast, hn, hreads, hasc⟩
  · intro p hp
    obtain ⟨table, -, hn, -, hasc⟩ := (hgiven p.1 p.2).mp (Record.get?_of_mem hmakes.distinct hp)
    exact ⟨(hmem p.1).mpr hn, hasc⟩
  · intro n m
    rw [Schema.method?, hmakes.methods, declaration_eq, Record.get?_ofPairs]
  · rw [hmakes.hook, declaration_eq]
  · rw [Schema.isList, Option.isSome_iff_exists]
    constructor
    · rintro ⟨type, htype⟩
      obtain ⟨isNullable, default?, hone⟩ := Schema.itemType?_eq_some_iff.mp htype
      exact ⟨_, type, hone, rfl⟩
    · rintro ⟨⟨kind, isNullable, default?⟩, type, hone, rfl⟩
      exact ⟨type, Schema.itemType?_eq_some_iff.mpr ⟨isNullable, default?, hone⟩⟩

end Script

/-- **A schema has what its script said last.** Whatever calls a script makes, it is built exactly
if its version and those of the surviving tables can be read, and the surviving tables name
declared fields and ascend; of the tables for one field the last one survives. What is built has
each declared field once, placed by its first declaration and made by its last, and the tables,
methods and hook that were given last. -/
theorem Script.build_exact (c : Script) :
    ((∃ s, c.declaration.build = .ok s) ↔ c.Sound) ∧
    (∀ s, c.declaration.build = .ok s → c.Describes s) ∧
    (∀ n table, (n, table) ∈ c.declaration.relationships ↔ LastUnder c.tables n table) ∧
    (c.declaration.relationships.map (·.1)).Nodup :=
  ⟨exists_build_iff_sound, fun _ => describes_of_build, mem_relationships c,
    nodup_relationships c⟩

end Declaration

/-! ## A harbor

Two fields are declared again, one table and one method are given again. The first table for the
crane does not ascend and the first method is remotable, but neither counts. -/

namespace Harbor

open Declaration

def crane : Field := ⟨.object "Crane", true, none⟩

def berths : Field := ⟨.integer true, false, some (.int 4)⟩

def script : Script where
  name := "Harbor"
  version := "1.4"
  opening := .plain
  calls :=
    [.field "berths" ⟨.string, false, none⟩, .timestamps,
      .relationship "crane" [("1.4", "1.2"), ("1.2", "1.0")],
      .method "close" ⟨.ofClass, true, ⟨"close", "sea"⟩⟩, .field "crane" crane,
      .field "berths" berths, .persistent,
      .relationship "crane" [("1.2", "1.0"), ("1.4.7", "1.2")],
      .method "close" ⟨.ofInstance, false, ⟨"close", "land"⟩⟩]

def schema : Schema :=
  ⟨"Harbor", ⟨1, 4, none⟩,
    [("berths", berths), ("created_at", timestamp), ("updated_at", timestamp), ("crane", crane),
      ("deleted_at", timestamp), ("deleted", ⟨.boolean, false, some (.bool false)⟩)],
    [("crane", [(⟨1, 2, none⟩, ⟨1, 0, none⟩), (⟨1, 4, some 7⟩, ⟨1, 2, none⟩)])],
    [("close", ⟨.ofInstance, false, ⟨"close", "land"⟩⟩)], none⟩

theorem harbor_described : script.declaration.build = .ok schema ∧ script.Describes schema :=
  have hbuild : script.declaration.build = .ok schema := rfl
  ⟨hbuild, (Script.build_exact script).2.1 schema hbuild⟩

end Harbor

end Skew

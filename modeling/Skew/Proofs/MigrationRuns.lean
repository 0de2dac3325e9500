import Skew.Proofs.MigrationCalls

/-!
# Migrations written by many clients

Clients hold migrations of any release and assign to them, create them as rows, save them
into their rows and get rows by number, in any order. No update is lost on the way
(`Runs.no_lost_update`): a row is the sum of what was written to it.

Each call meets the store once, so calls are single moves. The induction over runs
(`Runs.kept`) carries that every row fits the fields of all releases, which is what keeps
loading from failing.
-/

namespace Skew.Catalog

section

variable {σ : Type} [Codecs]

/-! ## Runs -/

/-- The state of the node, with the migrations that its clients hold. -/
structure World (σ : Type) where
  state : σ
  held : List Entity

/-- A call that succeeded made a write. -/
def writtenIf {α : Type} (r : Outcome α) (w : Write) : List Write :=
  match r with
  | .ok _ => [w]
  | .error _ => []

omit [Codecs] in
theorem writtenIf_of_ok {α : Type} {r : Outcome α} (h : r.toBool = true) (w : Write) :
    writtenIf r w = [w] := by
  cases r with
  | ok a => rfl
  | error err => cases h

/-- The entity that a call answered, if it did. -/
def entityOf : Outcome Value → List Entity
  | .ok (.entity e) => [e]
  | _ => []

/-- One client makes a migration, assigns to one that it holds, or calls a method. The list has
the write of the move, if it makes one. -/
inductive Move (b : Backing σ) (store : String) : World σ → List Write → World σ → Prop
  | make {w : World σ} {schema : Schema} (hschema : IsMigration store schema)
      (c? : Option Context) :
      Move b store w [] ⟨w.state, w.held ++ [(Entity.ofSchema schema).withContext? c?]⟩
  | assign {s : σ} (before after : List Entity) {e : Entity} (n : String) (v : Value) :
      Move b store ⟨s, before ++ e :: after⟩ [] ⟨s, before ++ (Update.set n v e).2 :: after⟩
  | create {s s' : σ} (before after : List Entity) {e e' : Entity} {d : Dispatcher σ}
      {args : Args} {r : Outcome Value} (hd : Here b d)
      (hcall : d.call "create" args e s = ((r, e'), s')) :
      Move b store ⟨s, before ++ e :: after⟩
        (writtenIf r ⟨true, (b.store store s).lastId + 1, (b.now s).1, e⟩)
        ⟨s', before ++ e' :: after⟩
  | save {s s' : σ} (before after : List Entity) {e e' : Entity} {d : Dispatcher σ}
      {args : Args} {r : Outcome Value} (hd : Here b d)
      (hcall : d.call "save" args e s = ((r, e'), s')) :
      Move b store ⟨s, before ++ e :: after⟩ (writtenIf r ⟨false, rowOf e, (b.now s).1, e⟩)
        ⟨s', before ++ e' :: after⟩
  | get {w : World σ} {s' : σ} {d : Dispatcher σ} {c : Context} {schema : Schema} {args : Args}
      {r : Outcome Value} (hd : Here b d) (hschema : IsMigration store schema)
      (hcall : d.callClassOn c schema "get_by_id" args w.state = (r, s')) :
      Move b store w [] ⟨s', w.held ++ entityOf r⟩
  | elsewhere {w : World σ} {s' : σ} (hstore : b.store store s' = b.store store w.state) :
      Move b store w [] ⟨s', w.held⟩

/-- Moves from an empty store and clients that hold nothing, with the writes that they made,
newest first. -/
inductive Runs (b : Backing σ) (store : String) : World σ → List Write → Prop
  | start {s : σ} (hempty : b.store store s = .empty) : Runs b store ⟨s, []⟩ []
  | move {w w' : World σ} {log made : List Write} (hrun : Runs b store w log)
      (hmove : Move b store w made w') : Runs b store w' (made ++ log)

/-- The last value written under a name. -/
def lastWritten (log : List Write) (k : Int) (n : String) : Option Value :=
  log.findSome? fun w => if w.row = k then w.wrote n else none

/-- The last write of an entity that had the field changed. -/
def lastChange? (log : List Write) (k : Int) (n : String) : Option Write :=
  log.find? fun w => w.row = k ∧ n ∈ w.entity.whatChanged

/-- The fields that the store has its own values for. -/
def stamped : List String := ["id", "created_at", "updated_at", "deleted"]

/-- The rows are accounted for by the writes. -/
structure Accounted (m : MigrationStore) (log : List Write) : Prop where
  keys : m.rows.map (·.1) = (List.range m.lastId).map fun i : Nat => (i : Int) + 1
  numbered : ∀ k row, MigrationStore.find? k m.rows = some row →
    Record.get? row "id" = some (.int (Int64.ofInt k)) ∧
      (m.lastId < 2 ^ 63 → (Int64.ofInt k).toInt = k)
  written : ∀ k row, MigrationStore.find? k m.rows = some row →
    ∀ n, Record.get? row n = lastWritten log k n
  changed : ∀ k row, MigrationStore.find? k m.rows = some row → ∀ n, n ∉ stamped →
    Record.get? row n = (lastChange? log k n).bind fun w => Record.get? w.entity.values n

/-! ## Accounts -/

variable {b : Backing σ} {store : String}

omit [Codecs] in
theorem lastWritten_cons (w : Write) (log : List Write) (k : Int) (n : String) :
    lastWritten (w :: log) k n =
      if w.row = k then (w.wrote n).or (lastWritten log k n) else lastWritten log k n := by
  rw [lastWritten, List.findSome?_cons, lastWritten]
  by_cases hk : w.row = k
  · rw [if_pos hk, if_pos hk]
    cases w.wrote n <;> rfl
  · rw [if_neg hk, if_neg hk]

omit [Codecs] in
theorem lastWritten_eq_none {log : List Write} {k : Int} (h : ∀ w ∈ log, w.row ≠ k) (n : String) :
    lastWritten log k n = none := by
  rw [lastWritten, List.findSome?_eq_none_iff]
  intro w hw
  rw [if_neg (h w hw)]

omit [Codecs] in
theorem Write.wrote_of_not_stamped {n : String} (hn : n ∉ stamped) (w : Write) :
    w.wrote n = if n ∈ w.entity.whatChanged then Record.get? w.entity.values n else none := by
  simp only [stamped, List.mem_cons, List.not_mem_nil, or_false, not_or] at hn
  have hstamp : n ≠ w.stamp := by
    rw [Write.stamp]
    split
    · exact hn.2.1
    · exact hn.2.2.1
  simp [Write.wrote, hn.1, hstamp, hn.2.2.2]

/-- Fields without a stamp have their values from the last entity that had them changed. -/
theorem lastWritten_eq_lastChange {log : List Write} (hlog : ∀ w ∈ log, Held store w.entity)
    (k : Int) {n : String} (hn : n ∉ stamped) : lastWritten log k n =
      (lastChange? log k n).bind fun w => Record.get? w.entity.values n := by
  induction log with
  | nil => rfl
  | cons w log ih =>
      obtain ⟨hw, hlog⟩ := List.forall_mem_cons.mp hlog
      rw [lastWritten_cons, w.wrote_of_not_stamped hn, ih hlog, lastChange?, lastChange?,
        List.find?_cons]
      by_cases hk : w.row = k
      · by_cases hchanged : n ∈ w.entity.whatChanged
        · obtain ⟨v, hv⟩ := Record.contains_iff.mp (hw.wellFormed.isSet_of_mem_whatChanged hchanged)
          simp [hk, hchanged, hv]
        · simp [hk, hchanged]
      · simp [hk]

/-- What holds between the world and the writes made. -/
structure Kept (b : Backing σ) (store : String) (w : World σ) (log : List Write) : Prop where
  held : ∀ e ∈ w.held, Held store e
  logged : ∀ x ∈ log, Held store x.entity ∧ x.row ≤ (b.store store w.state).lastId
  keys : (b.store store w.state).rows.map (·.1) =
    (List.range (b.store store w.state).lastId).map fun i : Nat => (i : Int) + 1
  fits : ∀ k row, MigrationStore.find? k (b.store store w.state).rows = some row → Fits k row
  written : ∀ k row, MigrationStore.find? k (b.store store w.state).rows = some row →
    ∀ n, Record.get? row n = lastWritten log k n

namespace Kept

variable {w : World σ} {log : List Write}

theorem start {s : σ} (hempty : b.store store s = .empty) : Kept b store ⟨s, []⟩ [] := by
  constructor
  · exact List.forall_mem_nil _
  · exact List.forall_mem_nil _
  all_goals
    rw [hempty]
  · rfl
  · nofun
  · nofun

/-- The number of a row is no more than that of the last. -/
theorem le_lastId (h : Kept b store w log) {k : Int} {row : Row}
    (hrow : MigrationStore.find? k (b.store store w.state).rows = some row) :
    1 ≤ k ∧ k ≤ (b.store store w.state).lastId := by
  have hmem : k ∈ (b.store store w.state).rows.map (·.1) :=
    MigrationStore.find?_isSome_iff.mp (hrow ▸ rfl)
  rw [h.keys, List.mem_map] at hmem
  obtain ⟨i, hi, rfl⟩ := hmem
  rw [List.mem_range] at hi
  omega

/-- Nothing was written to the store. -/
theorem unwritten (h : Kept b store w log) {w' : World σ}
    (hstore : b.store store w'.state = b.store store w.state)
    (hheld : ∀ e ∈ w'.held, Held store e) : Kept b store w' log := by
  constructor
  · exact hheld
  all_goals
    rw [hstore]
  · exact h.logged
  · exact h.keys
  · exact h.fits
  · exact h.written

variable {s s' : σ} {before after : List Entity} {e e' : Entity}

theorem held_middle (h : Kept b store ⟨s, before ++ e :: after⟩ log) : Held store e :=
  h.held e (List.mem_append_right _ List.mem_cons_self)

theorem held_replace (h : Kept b store ⟨s, before ++ e :: after⟩ log) (he' : Held store e') :
    ∀ x ∈ before ++ e' :: after, Held store x := by
  have hheld := h.held
  simp only [List.forall_mem_append, List.forall_mem_cons] at hheld ⊢
  exact ⟨hheld.1, he', hheld.2.2⟩

/-- A row was added. -/
theorem create (h : Kept b store ⟨s, before ++ e :: after⟩ log) {args : Args} {r : Outcome Value}
    (hcreates : Creates b store args e s r e' s') (he' : Held store e') :
    Kept b store ⟨s', before ++ e' :: after⟩
      (writtenIf r ⟨true, (b.store store s).lastId + 1, (b.now s).1, e⟩ ++ log) := by
  have hheld := h.held_replace he'
  cases hcreates with
  | refused hreason => exact h.unwritten rfl hheld
  | @created row _ _ hargs hcontext hid hstore hrow hloaded =>
      have hlast : (b.store store s').lastId = (b.store store s).lastId + 1 := by rw [hstore]
      have hfind (k : Int) (x : Row)
          (hx : MigrationStore.find? k (b.store store s').rows = some x) :
          MigrationStore.find? k (b.store store s).rows = some x ∨
            k = (b.store store s).lastId + 1 ∧ x = row := by
        rw [hstore] at hx
        exact MigrationStore.find?_snoc hx
      constructor
      · exact hheld
      · rw [hlast]
        rintro x (_ | ⟨_, hx⟩)
        · exact ⟨h.held_middle, Int.le_refl _⟩
        · obtain ⟨hentity, hle⟩ := h.logged x hx
          exact ⟨hentity, Int.le_trans hle (Int.ofNat_le.mpr (Nat.le_succ _))⟩
      · rw [hlast, List.range_succ, List.map_append, ← h.keys, hstore, List.map_append]
        rfl
      · intro k x hx
        rcases hfind k x hx with hx | ⟨rfl, rfl⟩
        · exact h.fits k x hx
        · exact Held.fits_created (w := ⟨true, _, _, e⟩) h.held_middle rfl hrow
      · intro k x hx n
        show _ = lastWritten (_ :: log) k n
        rw [lastWritten_cons]
        rcases hfind k x hx with hx | ⟨rfl, rfl⟩
        · have hle := (h.le_lastId hx).2
          rw [if_neg, h.written k x hx]
          intro hk
          rw [← hk] at hle
          exact absurd hle (Int.not_le.mpr (Int.lt_succ _))
        · have hnone : lastWritten log ((b.store store s).lastId + 1) n = none := by
            refine lastWritten_eq_none ?_ n
            intro x hx heq
            have hle := (h.logged x hx).2
            rw [heq] at hle
            exact absurd hle (Int.not_le.mpr (Int.lt_succ _))
          rw [if_pos rfl, hnone, Option.or_none, hrow]

/-- A row was written over. -/
theorem save (h : Kept b store ⟨s, before ++ e :: after⟩ log) {args : Args} {r : Outcome Value}
    (hsaves : Saves b store args e s r e' s') (he' : Held store e') :
    Kept b store ⟨s', before ++ e' :: after⟩
      (writtenIf r ⟨false, rowOf e, (b.now s).1, e⟩ ++ log) := by
  have hheld := h.held_replace he'
  cases hsaves with
  | refused hstore hreason => exact h.unwritten hstore hheld
  | @saved id old row _ _ hargs hcontext hid hold hlast hkeys hrows hrow hundeclared hloaded =>
      have hrowOf : rowOf e = id.toInt := by rw [rowOf, hid]
      have hfind (k : Int) (x : Row)
          (hx : MigrationStore.find? k (b.store store s').rows = some x) :
          k ≠ id.toInt ∧ MigrationStore.find? k (b.store store s).rows = some x ∨
            k = id.toInt ∧ x = row := by
        rw [hrows] at hx
        split at hx
        · next hk =>
            cases hx
            exact .inr ⟨hk, rfl⟩
        · next hk => exact .inl ⟨hk, hx⟩
      rw [hrowOf]
      constructor
      · exact hheld
      · rw [hlast]
        rintro x (_ | ⟨_, hx⟩)
        · exact ⟨h.held_middle, (h.le_lastId hold).2⟩
        · exact h.logged x hx
      · rw [hlast, hkeys]
        exact h.keys
      · intro k x hx
        rcases hfind k x hx with ⟨-, hx⟩ | ⟨rfl, rfl⟩
        · exact h.fits k x hx
        · exact Held.fits_saved (w := ⟨false, _, _, e⟩) h.held_middle rfl (h.fits _ old hold) hrow
      · intro k x hx n
        show _ = lastWritten (_ :: log) k n
        rw [lastWritten_cons]
        rcases hfind k x hx with ⟨hk, hx⟩ | ⟨rfl, rfl⟩
        · rw [if_neg (Ne.symm hk), h.written k x hx]
        · rw [if_pos rfl, hrow, h.written _ old hold]

/-- Every move keeps this. -/
theorem move (hb : b.Lawful store) {w w' : World σ} {made : List Write} (h : Kept b store w log)
    (hmove : Move b store w made w') : Kept b store w' (made ++ log) := by
  cases hmove with
  | make hschema c? =>
      refine h.unwritten rfl ?_
      rw [List.forall_mem_append]
      exact ⟨h.held, List.forall_mem_singleton.mpr ((Held.ofSchema hschema).withContext? c?)⟩
  | assign before after n v => exact h.unwritten rfl (h.held_replace (h.held_middle.set n v))
  | create before after hd hcall =>
      obtain ⟨r, e', s', hcall', he', hcreates⟩ := call_creates hb hd h.held_middle _ _
      cases hcall.symm.trans hcall'
      exact h.create hcreates he'
  | save before after hd hcall =>
      obtain ⟨r, e', s', hcall', he', hsaves⟩ := call_saves hb hd h.held_middle _ _ h.fits
      cases hcall.symm.trans hcall'
      exact h.save hsaves he'
  | @get _ s' d c schema args r hd hschema hcall =>
      obtain ⟨r', hcall', -, hheld⟩ := call_fetches hd hschema c args w.state h.fits
      cases hcall.symm.trans hcall'
      refine h.unwritten rfl ?_
      rw [List.forall_mem_append]
      refine ⟨h.held, ?_⟩
      rw [entityOf.eq_def]
      split
      · exact List.forall_mem_singleton.mpr (hheld _ rfl)
      · exact List.forall_mem_nil _
  | elsewhere hstore => exact h.unwritten hstore h.held

theorem accounted (h : Kept b store w log) : Accounted (b.store store w.state) log where
  keys := h.keys
  numbered k row hrow := by
    refine ⟨(h.fits k row hrow).number, ?_⟩
    intro hlast
    have hk := h.le_lastId hrow
    exact Int64.toInt_ofInt_of_le (by omega) (by omega)
  written := h.written
  changed k row hrow n hn := by
    rw [h.written k row hrow, lastWritten_eq_lastChange (fun x hx => (h.logged x hx).1) k hn]

end Kept

/-- A run keeps this. -/
theorem Runs.kept (hb : b.Lawful store) {w : World σ} {log : List Write}
    (h : Runs b store w log) : Kept b store w log := by
  induction h with
  | start hempty => exact .start hempty
  | move hrun hmove ih => exact ih.move hb hmove

/-- **No update is lost.** After any run, the rows are numbered from one without gaps, and each
has under every name what was last written there: the fields without a stamp hold the values of
the last entity, created as the row or saved into it, that had them changed. And whatever is
called next does just what is said of it: a call that fails leaves the store and the entity
alone, a create adds the next row, a save writes over the one row that the entity names and
leaves there what the release of the entity does not declare, and the entity then reads as the
row and has no changes. -/
theorem Runs.no_lost_update (b : Backing σ) (store : String) (hb : b.Lawful store) (w : World σ)
    (log : List Write) (hrun : Runs b store w log) (d : Dispatcher σ) (hd : Here b d)
    (args : Args) :
    Accounted (b.store store w.state) log ∧
      (∀ e ∈ w.held, ∃ r e' s', d.call "create" args e w.state = ((r, e'), s') ∧
        Creates b store args e w.state r e' s') ∧
      (∀ e ∈ w.held, ∃ r e' s', d.call "save" args e w.state = ((r, e'), s') ∧
        Saves b store args e w.state r e' s') ∧
      ∀ c schema, IsMigration store schema →
        ∃ r, d.callClassOn c schema "get_by_id" args w.state = (r, w.state) ∧
          Fetches b store c schema args w.state r := by
  have h := hrun.kept hb
  refine ⟨h.accounted, ?_, ?_, ?_⟩
  · intro e he
    obtain ⟨r, e', s', hcall, -, hcreates⟩ := call_creates hb hd (h.held e he) args w.state
    exact ⟨r, e', s', hcall, hcreates⟩
  · intro e he
    obtain ⟨r, e', s', hcall, -, hsaves⟩ := call_saves hb hd (h.held e he) args w.state h.fits
    exact ⟨r, e', s', hcall, hsaves⟩
  · intro c schema hschema
    obtain ⟨r, hcall, hfetches, -⟩ := call_fetches hd hschema c args w.state h.fits
    exact ⟨r, hcall, hfetches⟩

end

/-! ## An office

A migration is created hidden by a new client. An old client, for which there is nothing
hidden, gets it and gives it a status. -/

namespace Office

attribute [local instance] Codecs.none

/-- A store with a clock that goes on whenever it is read. -/
def backing : Backing (MigrationStore × Nat) :=
  ⟨fun _ s => s.1, fun _ m s => (m, s.2), fun s => (⟨s.2, 0⟩, s.1, s.2 + 1)⟩

def node : Dispatcher (MigrationStore × Nat) := ⟨.empty, bodies backing, none⟩

def context : Context := .ofUser "r1" "u" "p"

def oldSchema : Schema := migrationSchema "db" (release 1 0) []

def newSchema : Schema := migrationSchema "db" (release 1 2) [migrationType, hidden]

def blank : Entity := (Entity.ofSchema newSchema).withContext? (some context)

def drafted : Entity := (Update.set "hidden" (.bool true) blank).2

@[irreducible]
def created : (Outcome Value × Entity) × MigrationStore × Nat :=
  node.call "create" .empty drafted (.empty, 0)

@[irreducible]
def fetched : Outcome Value × MigrationStore × Nat :=
  node.callClassOn context oldSchema "get_by_id" ⟨none, [.int 1], []⟩ created.2

/-- The row as the old client reads it. -/
def copied : Entity := (entityOf fetched.1).headD blank

def started : Entity := (Update.set "status" (.str "running") copied).2

@[irreducible]
def saved : (Outcome Value × Entity) × MigrationStore × Nat :=
  node.call "save" .empty started fetched.2

def writes : List Write := [⟨false, 1, ⟨1, 0⟩, started⟩, ⟨true, 1, ⟨0, 0⟩, drafted⟩]

theorem backing_lawful : backing.Lawful "db" := ⟨fun _ _ => rfl, fun _ => rfl⟩

theorem node_here : Here backing node := ⟨rfl, rfl⟩

theorem entityOf_fetched : entityOf fetched.1 = [copied] := by
  have hlength : (entityOf fetched.1).length = 1 := by decide +kernel
  rw [copied]
  obtain ⟨e, he⟩ := List.length_eq_one_iff.mp hlength
  rw [he]
  rfl

theorem written_created : writtenIf created.1.1 ⟨true, 1, ⟨0, 0⟩, drafted⟩ =
    [⟨true, 1, ⟨0, 0⟩, drafted⟩] :=
  writtenIf_of_ok (by decide +kernel) _

theorem written_saved : writtenIf saved.1.1 ⟨false, rowOf started, (backing.now fetched.2).1,
    started⟩ = [⟨false, 1, ⟨1, 0⟩, started⟩] := by
  have hrow : rowOf started = 1 := by decide +kernel
  have hnow : (backing.now fetched.2).1 = ⟨1, 0⟩ := by decide +kernel
  rw [hrow, hnow, writtenIf_of_ok (by decide +kernel)]

theorem run : Runs backing "db" ⟨saved.2, [created.1.2, saved.1.2]⟩ writes := by
  have hold : IsMigration "db" oldSchema := isMigration_iff.mpr (.inl rfl)
  have hnew : IsMigration "db" newSchema := isMigration_iff.mpr (.inr (.inr rfl))
  have hcreate : node.call "create" .empty drafted (.empty, 0) =
      ((created.1.1, created.1.2), created.2) := created.eq_1.symm
  have hget : node.callClassOn context oldSchema "get_by_id" ⟨none, [.int 1], []⟩ created.2 =
      (fetched.1, fetched.2) := fetched.eq_1.symm
  have hsave : node.call "save" .empty started fetched.2 =
      ((saved.1.1, saved.1.2), saved.2) := saved.eq_1.symm
  have hmade : Runs backing "db" ⟨(.empty, 0), [blank]⟩ [] :=
    (Runs.start rfl).move (.make hnew (some context))
  have hdrafted : Runs backing "db" ⟨(.empty, 0), [drafted]⟩ [] :=
    hmade.move (.assign [] [] "hidden" (.bool true))
  have hcreated : Runs backing "db" ⟨created.2, [created.1.2]⟩
      (writtenIf created.1.1 ⟨true, 1, ⟨0, 0⟩, drafted⟩ ++ []) :=
    hdrafted.move (.create [] [] node_here hcreate)
  rw [written_created] at hcreated
  have hfetched : Runs backing "db" ⟨fetched.2, [created.1.2] ++ entityOf fetched.1⟩
      [⟨true, 1, ⟨0, 0⟩, drafted⟩] :=
    hcreated.move (.get node_here hold hget)
  rw [entityOf_fetched] at hfetched
  have hstarted : Runs backing "db" ⟨fetched.2, [created.1.2, started]⟩
      [⟨true, 1, ⟨0, 0⟩, drafted⟩] :=
    hfetched.move (.assign [created.1.2] [] "status" (.str "running"))
  have hsaved : Runs backing "db" ⟨saved.2, [created.1.2, saved.1.2]⟩
      (writtenIf saved.1.1 ⟨false, rowOf started, (backing.now fetched.2).1, started⟩ ++
        [⟨true, 1, ⟨0, 0⟩, drafted⟩]) :=
    hstarted.move (.save [created.1.2] [] node_here hsave)
  rw [written_saved] at hsaved
  exact hsaved

theorem lastChange_hidden : (lastChange? writes 1 "hidden").bind
    (fun w => Record.get? w.entity.values "hidden") = some (.bool true) := by
  have hstarted : started.whatChanged = ["status"] := by decide +kernel
  have hdrafted : drafted.whatChanged = ["hidden"] := by decide
  simp only [lastChange?, writes, List.find?_cons, hstarted, hdrafted, List.mem_singleton,
    String.reduceEq, and_false, and_true, decide_false, decide_true]
  rfl

/-- The save of the old client changes the status, and the migration is still hidden. -/
theorem hidden_kept : Runs backing "db" ⟨saved.2, [created.1.2, saved.1.2]⟩ writes ∧
    ∃ row, MigrationStore.find? 1 saved.2.1.rows = some row ∧
      Record.get? row "hidden" = some (.bool true) ∧
      (Record.get? row "status").bind Value.str? = some "running" := by
  have haccounted := (Runs.no_lost_update backing "db" backing_lawful _ _ run node node_here
    .empty).1
  have hfound : (MigrationStore.find? 1 saved.2.1.rows).isSome := by decide +kernel
  obtain ⟨row, hrow⟩ := Option.isSome_iff_exists.mp hfound
  refine ⟨run, row, hrow, ?_, ?_⟩
  · exact (haccounted.changed 1 row hrow "hidden" (by decide)).trans lastChange_hidden
  · have hstatus : ((MigrationStore.find? 1 saved.2.1.rows).bind
        (Record.get? · "status")).bind Value.str? = some "running" := by decide +kernel
    rw [hrow] at hstatus
    exact hstatus

end Office

end Skew.Catalog

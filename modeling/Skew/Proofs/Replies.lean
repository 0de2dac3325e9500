import Skew.Loopback
import Skew.Proofs.Programs
import Skew.Proofs.Transfer

/-!
# Replies

After a forwarded call the fields that differ from before are sent back, and the caller
takes them over together with the names of all changed fields. Then the caller's entity
mirrors the one that a run at the caller would have left, as long as the run elsewhere
ended with one like it (`Entity.mirrors_takeOver`).

Fields that are not sent back hold equal values already. Their old values may bring
changes of their own along, but assignment never takes a mark away, so these marks were
there anyway.
-/

namespace Skew

variable {σ : Type}

/-! ## What comes back -/

section

variable [Codecs]

/-- Taking over what was coerced, and then the change markers. -/
def Entity.takeOver (e : Entity) (staged : Record Value) (changed : NameSet) : Entity :=
  { e with values := Record.update e.values staged }.replaceChanges changed

theorem Dispatcher.stageUpdates_eq {s : Schema} {us : Record Value} {g : String → Value}
    (h : ∀ u ∈ us, ∃ f, s.field? u.1 = some f ∧ f.coerce u.2 = .ok (g u.1)) :
    stageUpdates s us = .ok (us.map fun u => (u.1, g u.1)) := by
  induction us with
  | nil => rfl
  | cons u us ih =>
      obtain ⟨⟨f, hf, hcoerce⟩, hus⟩ := List.forall_mem_cons.mp h
      obtain ⟨n, v⟩ := u
      simp only [stageUpdates, hf, hcoerce, inField_ok, Except.ok_bind, ih hus, List.map_cons]

omit [Codecs] in
theorem Entity.foldl_storeCoerced (e : Entity) (staged : Record Value) :
    staged.foldl (fun e u => e.storeCoerced u.1 u.2) e =
      { e with values := Record.update e.values staged } := by
  induction staged generalizing e with
  | nil => cases e; rfl
  | cons u staged ih => exact ih _

theorem Dispatcher.applyReply_eq {e : Entity} {r : Reply} {staged : Record Value}
    (h : stageUpdates e.schema r.updates = .ok staged) :
    applyReply e r = .ok (e.takeOver staged r.changed) := by
  rw [applyReply, h, Entity.takeOver, ← e.foldl_storeCoerced]
  rfl

/-- A reply is taken over exactly if all its updates can be staged. -/
theorem Dispatcher.applyReply_eq_ok_iff {e e' : Entity} {r : Reply} :
    applyReply e r = .ok e' ↔ ∃ staged, stageUpdates e.schema r.updates = .ok staged ∧
      e.takeOver staged r.changed = e' := by
  constructor
  · intro h
    obtain ⟨staged, hstaged, -⟩ := Except.bind_eq_ok_iff.mp h
    exact ⟨staged, hstaged, Except.ok.inj ((applyReply_eq hstaged).symm.trans h)⟩
  · rintro ⟨staged, hstaged, rfl⟩
    exact applyReply_eq hstaged

end

/-! ## What is sent back -/

theorem Entity.get_eq_ok_iff {e : Entity} {n : String} {v : Value} :
    e.get n = .ok v ↔ (∃ f, e.schema.field? n = some f) ∧ Record.get? e.values n = some v := by
  rw [Entity.get, Except.bind_eq_ok_iff]
  constructor
  · rintro ⟨f, hf, h⟩
    refine ⟨⟨f, requireField_eq_ok_iff.mp hf⟩, ?_⟩
    split at h
    · next w hw => cases h; exact hw
    · cases h
  · rintro ⟨⟨f, hf⟩, hv⟩
    exact ⟨f, requireField_eq_ok_iff.mpr hf, by rw [hv]⟩

namespace Conductor

/-- A field is updated when it is set and did not hold an equal value. -/
theorem isUpdated_iff {before after : Entity} {n : String} :
    isUpdated before after n = true ↔
      ∃ v, after.get n = .ok v ∧ ∀ w, before.get n = .ok w → Value.beq w v = false := by
  rw [isUpdated]
  cases hv : after.get n with
  | error err => simp
  | ok v =>
      cases hw : before.get n with
      | error err => simp
      | ok w =>
          show (!Value.beq w v) = true ↔ _
          simp

variable [Codecs] (k : Conductor σ)

/-- The new value of a field, as it arrives at the caller. -/
def sendField (c : Context) (after : Entity) (name : String) (f : Field) : Run σ Value := do
  let v ← after.get name
  let j ← v.write name f.kind
  k.client.deserialize (some c) j

theorem updates_eq_gather (c : Context) (before after : Entity) :
    k.updates c before after = Record.gather after.schema.fields (fun n f =>
      if isUpdated before after n then some (k.sendField c after n f) else none) [] := by
  rw [updates, Record.gather]
  refine congrArg (fun step => after.schema.fields.foldlM step [])
    (funext fun us => funext fun p => ?_)
  obtain ⟨n, f⟩ := p
  simp only
  split <;> simp [sendField]

/-- What is sent back under a name: nothing if the field is not updated, else something
that the field coerces to the arrival of its value. -/
theorem exists_update {c : Context} (before : Entity) {after : Entity}
    (hdecodes : ∀ n f v, after.schema.field? n = some f → Record.get? after.values n = some v →
      ∃ j w, v.write n f.kind = .ok j ∧ k.client.deserialize (some c) j = pure w ∧
        f.coerce w = .ok (v.received (some c))) (n : String) :
    ∃ o : Option Value, (o.isSome = isUpdated before after n) ∧
      (∀ f, after.schema.field? n = some f →
        (if isUpdated before after n then some (k.sendField c after n f) else none) =
          o.map pure) ∧
      ∀ w, o = some w → ∃ f v, after.schema.field? n = some f ∧
        Record.get? after.values n = some v ∧ f.coerce w = .ok (v.received (some c)) := by
  cases hup : isUpdated before after n with
  | false =>
      refine ⟨none, rfl, fun _ _ => rfl, ?_⟩
      intro w hw
      cases hw
  | true =>
      obtain ⟨v, hget, -⟩ := isUpdated_iff.mp hup
      obtain ⟨⟨f, hf⟩, hv⟩ := Entity.get_eq_ok_iff.mp hget
      obtain ⟨j, w, hwrite, hread, hcoerce⟩ := hdecodes n f v hf hv
      refine ⟨some w, rfl, ?_, ?_⟩
      · intro g hg
        cases hf.symm.trans hg
        rw [if_pos rfl, sendField, hget]
        show some (liftM (v.write n f.kind) >>= _ : Run σ Value) = _
        rw [hwrite]
        exact congrArg some hread
      · intro x hx
        cases hx
        exact ⟨f, v, hf, hv, hcoerce⟩

/-- What is sent back is the arrival of every updated field, once the caller has coerced
it. -/
theorem updates_staged {c : Context} (before : Entity) {after : Entity} (hafter : after.Coherent)
    (hdecodes : ∀ n f v, after.schema.field? n = some f → Record.get? after.values n = some v →
      ∃ j w, v.write n f.kind = .ok j ∧ k.client.deserialize (some c) j = pure w ∧
        f.coerce w = .ok (v.received (some c))) :
    ∃ us staged, k.updates c before after = pure us ∧
      Dispatcher.stageUpdates after.schema us = .ok staged ∧ (staged.map (·.1)).Nodup ∧
      ∀ n, Record.get? staged n = if isUpdated before after n then
        (Record.get? after.values n).map (Value.received (some c)) else none := by
  choose slot hsome hstep hcoerce using k.exists_update before hdecodes
  let us : Record Value := Record.collect after.schema.fieldNames slot []
  have hus : Record.Ascending us := Record.Ascending.nil.collect _ _
  have hget (n : String) : Record.get? us n = slot n := by
    rw [Record.get?_collect]
    split
    · cases slot n <;> rfl
    · next hn =>
        cases hslot : slot n with
        | none => rfl
        | some w =>
            obtain ⟨f, v, hf, -, -⟩ := hcoerce n w hslot
            exact absurd (Entity.mem_fieldNames hf) hn
  let arrival (n : String) : Value :=
    ((Record.get? after.values n).getD .null).received (some c)
  refine ⟨us, us.map fun u => (u.1, arrival u.1), ?_, ?_, ?_, fun n => ?_⟩
  · rw [updates_eq_gather]
    exact Record.gather_eq_pure_collect (fun p hp =>
      hstep p.1 p.2 (Record.get?_of_mem hafter.schema.fields hp)) []
  · refine Dispatcher.stageUpdates_eq ?_
    intro u hu
    obtain ⟨f, v, hf, hv, hw⟩ := hcoerce u.1 u.2 (hget u.1 ▸ Record.get?_of_mem hus.nodup hu)
    refine ⟨f, hf, ?_⟩
    rw [hw]
    simp only [arrival, hv, Option.getD_some]
  · rw [List.map_map]
    exact hus.nodup
  · rw [Record.get?_map fun n _ => arrival n, hget, ← hsome]
    cases hslot : slot n with
    | none => rfl
    | some w =>
        obtain ⟨f, v, -, hv, -⟩ := hcoerce n w hslot
        simp only [arrival, hv, Option.map_some, Option.getD_some, Option.isSome_some, if_true]

end Conductor

/-! ## Where the caller ends -/

theorem Value.beqEntries_map {g : String → Value} {s : Record Value}
    (h : ∀ p ∈ s, Value.beq (g p.1) p.2 = true) :
    Value.beqEntries (s.map fun p => (p.1, g p.1)) s = true := by
  induction s with
  | nil => rfl
  | cons p s ih =>
      obtain ⟨hp, hs⟩ := List.forall_mem_cons.mp h
      simp only [List.map_cons, beqEntries, hp, ih hs, beq_self_eq_true, Bool.and_self]

/-- Records with equal values under the same names are equal. -/
theorem Value.beqEntries_of_get? {r s : Record Value} (hr : Record.Ascending r)
    (hs : Record.Ascending s)
    (h : ∀ n, Record.get? r n = none ∧ Record.get? s n = none ∨
      ∃ v w, Record.get? r n = some v ∧ Record.get? s n = some w ∧ Value.beq v w = true) :
    Value.beqEntries r s = true := by
  obtain ⟨g, hg⟩ : ∃ g : String → Value, ∀ n, (Record.get? r n).getD .null = g n :=
    ⟨_, fun _ => rfl⟩
  have hnames : r = s.map fun p => (p.1, g p.1) := by
    refine Record.ext hr (hs.map fun n _ => g n) ?_
    intro n
    rw [Record.get?_map fun n _ => g n]
    rcases h n with ⟨hrn, hsn⟩ | ⟨v, w, hrn, hsn, -⟩
    · rw [hrn, hsn]; rfl
    · rw [hrn, hsn, ← hg, hrn]; rfl
  rw [hnames]
  refine Value.beqEntries_map ?_
  intro p hp
  have hsp : Record.get? s p.1 = some p.2 := Record.get?_of_mem hs.nodup hp
  rcases h p.1 with ⟨-, hnone⟩ | ⟨v, w, hrn, hsn, hbeq⟩
  · rw [hsp] at hnone; cases hnone
  · rw [hsp] at hsn
    cases hsn
    rw [← hg, hrn]
    exact hbeq

theorem Entity.beq_eq (d e : Entity) :
    (d == e) = (d.schema.name == e.schema.name && Value.beqEntries d.values e.values) := by
  cases d; cases e; rfl

theorem Entity.mem_whatChanged_of_get? {e : Entity} {n : String} {v : Value}
    (hv : Record.get? e.values n = some v) (h : v.hasChanges = true) : n ∈ e.whatChanged := by
  rw [whatChanged_eq, NameSet.mem_union, changedEntries_eq]
  exact Or.inr (List.mem_map.mpr ⟨(n, v), List.mem_filter.mpr ⟨Record.mem_of_get? hv, h⟩, rfl⟩)

/-- The two ways a set field comes to its value at the caller: it was sent back, or it was
not because the caller's own value is equal. -/
theorem Entity.takeOver_get? {e near far : Entity} {c? : Option Context} {staged : Record Value}
    (hgrows : e.Grows near) (halike : near.Alike far) (hnear : near.Coherent)
    (hself : ∀ p ∈ near.values, Value.beq p.2 p.2 = true) (hnodup : (staged.map (·.1)).Nodup)
    (hstaged : ∀ n, Record.get? staged n = if Conductor.isUpdated (e.received c?) far n then
      (Record.get? far.values n).map (Value.received c?) else none) (n : String) :
    Record.get? (Record.update e.values staged) n = none ∧ Record.get? near.values n = none ∨
      ∃ v w, Record.get? (Record.update e.values staged) n = some v ∧
        Record.get? near.values n = some w ∧ Value.beq v w = true ∧
        (v.hasChanges = true → n ∈ near.whatChanged) := by
  rw [Record.get?_update hnodup, hstaged]
  rcases Value.alike_of_map_eq (halike.get? n) with ⟨hw, hfar⟩ | ⟨w, x, hw, hfar, hwx⟩
  · -- No run set the field, so it was not set before.
    have hunset : Record.get? e.values n = none := by
      cases hv : Record.get? e.values n with
      | none => rfl
      | some v =>
          have hset := hgrows.isSet n (Record.contains_iff.mpr ⟨v, hv⟩)
          rw [Entity.isSet, Record.contains, hw] at hset
          cases hset
    rw [hfar, hunset]
    exact Or.inl ⟨by simp, hw⟩
  · have hmem := Record.mem_of_get? hw
    obtain ⟨f, hf⟩ := hnear.exists_field hmem
    have hget : far.get n = .ok x := Entity.get_eq_ok_iff.mpr ⟨⟨f, halike.schema ▸ hf⟩, hfar⟩
    refine Or.inr ?_
    cases hup : Conductor.isUpdated (e.received c?) far n with
    | true =>
        refine ⟨x.received c?, w, by simp [hfar], hw, ?_, ?_⟩
        · have hxw : (x.received c?).Alike w := (x.alike_received c?).symm.trans hwx.symm
          exact (hxw.beq (.refl w)).trans (hself _ hmem)
        · intro h
          rw [x.hasChanges_received, ← hwx.hasChanges] at h
          exact Entity.mem_whatChanged_of_get? hw h
    | false =>
        obtain ⟨u, hu, hux⟩ : ∃ u, (e.received c?).get n = .ok u ∧ Value.beq u x = true := by
          false_or_by_contra
          next hne =>
            refine Bool.false_ne_true (hup.symm.trans (Conductor.isUpdated_iff.mpr ⟨x, hget, ?_⟩))
            exact fun u hu => by
              rw [← Bool.not_eq_true]
              intro hbeq
              exact hne ⟨u, hu, hbeq⟩
        obtain ⟨-, hu⟩ := Entity.get_eq_ok_iff.mp hu
        rw [e.received_get?, Option.map_eq_some_iff] at hu
        obtain ⟨v, hv, rfl⟩ := hu
        refine ⟨v, w, by simp [hv], hw, ?_, ?_⟩
        · rw [(v.alike_received c?).beq hwx]
          exact hux
        · intro h
          exact hgrows.whatChanged n (Entity.mem_whatChanged_of_get? hv h)

/-- Where the caller ends is where the run here ends. -/
theorem Entity.mirrors_takeOver {e near far : Entity} {c? : Option Context} {staged : Record Value}
    (he : e.WellFormed) (hnear : near.WellFormed) (hgrows : e.Grows near) (halike : near.Alike far)
    (hself : ∀ p ∈ near.values, Value.beq p.2 p.2 = true) (hnodup : (staged.map (·.1)).Nodup)
    (hstaged : ∀ n, Record.get? staged n = if Conductor.isUpdated (e.received c?) far n then
      (Record.get? far.values n).map (Value.received c?) else none) :
    near.Mirrors e.context? (e.takeOver staged far.whatChanged) := by
  have hget := Entity.takeOver_get? hgrows halike hnear.toCoherent hself hnodup hstaged
  have hset (n : String) : (e.takeOver staged far.whatChanged).isSet n = near.isSet n := by
    show Record.contains (Record.update e.values staged) n = Record.contains near.values n
    rw [Record.contains, Record.contains]
    rcases hget n with ⟨hv, hw⟩ | ⟨v, w, hv, hw, -⟩ <;> rw [hv, hw]; rfl
  have hvalues := he.values.update staged
  refine ⟨hgrows.schema.symm, hgrows.version.symm, rfl, hset, ?_, ?_⟩
  · rw [Entity.beq_eq]
    have hbeq : Value.beqEntries (Record.update e.values staged) near.values = true := by
      refine Value.beqEntries_of_get? hvalues hnear.values fun n => (hget n).imp_right ?_
      intro h
      obtain ⟨v, w, hv, hw, hbeq, -⟩ := h
      exact ⟨v, w, hv, hw, hbeq⟩
    have hname : (e.schema.name == near.schema.name) = true := by
      rw [hgrows.schema, beq_self_eq_true]
    exact Bool.and_eq_true_iff.mpr ⟨hname, hbeq⟩
  · have hwellFormed : (e.takeOver staged far.whatChanged).changed =
        NameSet.ofList (far.whatChanged.filter (e.takeOver staged far.whatChanged).isSet) := rfl
    refine NameSet.ext ?_ hnear.whatChanged fun n => ?_
    · rw [whatChanged_eq, hwellFormed]
      exact (NameSet.ascending_ofList _).union _
    · rw [whatChanged_eq, NameSet.mem_union, hwellFormed, NameSet.mem_ofList, List.mem_filter,
        changedEntries_eq, ← halike.mem_whatChanged]
      constructor
      · rintro (⟨hn, -⟩ | hn)
        · exact hn
        · obtain ⟨p, hp, rfl⟩ := List.mem_map.mp hn
          obtain ⟨hp, hchanges⟩ := List.mem_filter.mp hp
          have hpget : Record.get? (Record.update e.values staged) p.1 = some p.2 :=
            Record.get?_of_mem hvalues.nodup hp
          rcases hget p.1 with ⟨hnone, -⟩ | ⟨v, w, hv, -, -, hmarked⟩
          · rw [hpget] at hnone; cases hnone
          · rw [hpget] at hv
            cases hv
            exact hmarked hchanges
      · intro hn
        exact Or.inl ⟨hn, (hset n).trans (hnear.isSet_of_mem_whatChanged hn)⟩

end Skew

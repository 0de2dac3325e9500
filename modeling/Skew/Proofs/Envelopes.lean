import Skew.Proofs.Documents

/-!
# The envelope codec

Which documents are read as primitives, and what is lost on the way. A document is a primitive
exactly if its members under five keys have the right shapes (`Json.IsEnvelope`); any other is
refused as malformed. Of a document that is read, only the members under these keys are
remembered, and an empty list of changes is forgotten (`Primitive.toJson_of_envelope`). Nothing
is lost in the other direction (`Primitive.ofJson_exact`).
-/

namespace Skew

open Primitive (changesKey dataKey nameKey spaceKey versionKey)

/-- An object with three strings, an object, and no changes or a list of strings under the keys
of primitives. -/
def Json.IsEnvelope (j : Json) : Prop :=
  ∃ ms, j = .obj ms ∧ (∃ space, Record.get? ms spaceKey = some (.str space)) ∧
    (∃ name, Record.get? ms nameKey = some (.str name)) ∧
    (∃ version, Record.get? ms versionKey = some (.str version)) ∧
    (∃ data, Record.get? ms dataKey = some (.obj data)) ∧
    (Record.get? ms changesKey = none ∨
      ∃ names : List String, Record.get? ms changesKey = some (.arr (names.map .str)))

namespace Primitive

def envelopeKeys : List String := [changesKey, dataKey, nameKey, spaceKey, versionKey]

/-- The members under the keys of primitives, without an empty list of changes. -/
def restricted (ms : Members) : Members :=
  let kept := ms.filter fun m => m.1 ∈ envelopeKeys
  match Record.get? ms changesKey with
  | some (.arr []) => Record.erase kept changesKey
  | _ => kept

/-! ## What is read -/

theorem exists_ofJson_iff {j : Json} : (∃ p, ofJson j = .ok p) ↔ j.IsEnvelope := by
  cases j with
  | obj ms =>
      constructor
      · rintro ⟨p, hp⟩
        have h := ofMembers_eq_ok_iff.mp hp
        exact ⟨ms, rfl, ⟨_, h.space⟩, ⟨_, h.name⟩, ⟨_, h.version⟩, ⟨_, h.data⟩,
          h.changes.imp And.left fun hsome => ⟨_, hsome⟩⟩
      · rintro ⟨_, hms, ⟨space, hspace⟩, ⟨name, hname⟩, ⟨version, hversion⟩, ⟨data, hdata⟩,
          hchanges⟩
        cases hms
        rcases hchanges with hnone | ⟨names, hsome⟩
        · exact ⟨⟨space, name, version, data, []⟩,
            ofMembers_eq_ok_iff.mpr ⟨hspace, hname, hversion, hdata, .inl ⟨hnone, rfl⟩⟩⟩
        · exact ⟨⟨space, name, version, data, names⟩,
            ofMembers_eq_ok_iff.mpr ⟨hspace, hname, hversion, hdata, .inr hsome⟩⟩
  | _ =>
      refine iff_of_false ?_ ?_
      · rintro ⟨p, hp⟩
        cases hp
      · rintro ⟨ms, hms, -⟩
        cases hms

/-! ### Refusals -/

/-- A step that can only fail for the form of a document. -/
def OnlyMalformed {α : Type} (r : Outcome α) : Prop :=
  ∀ err, r = .error err → ∃ fault, err = .malformed fault

namespace OnlyMalformed

variable {α β : Type}

theorem ok (a : α) : OnlyMalformed (.ok a) := nofun

theorem malformed (fault : Malformation) : OnlyMalformed (.error (.malformed fault) : Outcome α) :=
  fun _ herr => ⟨fault, (Except.error.inj herr).symm⟩

theorem bind {r : Outcome α} {f : α → Outcome β} (h : OnlyMalformed r)
    (hf : ∀ a, OnlyMalformed (f a)) : OnlyMalformed (r >>= f) := by
  cases r with
  | ok a => exact hf a
  | error err =>
      obtain ⟨fault, rfl⟩ := h err rfl
      exact malformed fault

theorem readString (j : Json) : OnlyMalformed (readString j) := by
  cases j with
  | str s => exact ok s
  | _ => exact malformed _

theorem readMap (j : Json) : OnlyMalformed (readMap j) := by
  cases j with
  | obj ms => exact ok ms
  | _ => exact malformed _

theorem readNames (j : Json) : OnlyMalformed (readNames j) := by
  cases j with
  | arr js =>
      intro err herr
      obtain ⟨-, j, -, -, -, hj⟩ := List.mapM_eq_error_iff.mp herr
      exact readString j err hj
  | _ => exact malformed _

theorem readKey? {read : Json → Outcome α} (h : ∀ j, OnlyMalformed (read j)) (ms : Members)
    (key : String) : OnlyMalformed (readKey? ms key read) := by
  rw [Primitive.readKey?]
  cases Record.get? ms key with
  | none => exact ok none
  | some j => exact (h j).bind fun a => ok (some a)

theorem required (key : String) (a? : Option α) : OnlyMalformed (required key a?) := by
  cases a? with
  | none => exact malformed _
  | some a => exact ok a

end OnlyMalformed

/-- A document that is no primitive is refused as malformed. -/
theorem ofJson_onlyMalformed (j : Json) : OnlyMalformed (ofJson j) := by
  cases j with
  | obj ms =>
      refine .bind (.readKey? .readNames ms _) fun _ => ?_
      refine .bind (.readKey? .readMap ms _) fun _ => ?_
      refine .bind (.readKey? .readString ms _) fun _ => ?_
      refine .bind (.readKey? .readString ms _) fun _ => ?_
      refine .bind (.readKey? .readString ms _) fun _ => ?_
      refine .bind (.required _ _) fun _ => ?_
      refine .bind (.required _ _) fun _ => ?_
      refine .bind (.required _ _) fun _ => ?_
      exact .bind (.required _ _) fun _ => .ok _
  | _ => exact .malformed _

/-! ## What is remembered -/

theorem names_members (p : Primitive) : p.members.map (·.1) =
    if p.changes.isEmpty then [dataKey, nameKey, spaceKey, versionKey] else envelopeKeys := by
  obtain ⟨space, name, version, data, changes⟩ := p
  cases changes <;> rfl

theorem ascending_members (p : Primitive) : Record.Ascending p.members := by
  have hnames : (p.members.map (·.1)).Pairwise (· < ·) := by
    rw [names_members]
    split <;> decide
  exact List.pairwise_map.mp hnames

theorem get?_members_of_notMem (p : Primitive) {k : String} (hk : k ∉ envelopeKeys) :
    Record.get? p.members k = none := by
  refine Record.get?_eq_none_iff.mpr fun hmem => hk ?_
  rw [names_members] at hmem
  split at hmem
  · exact List.mem_cons_of_mem _ hmem
  · exact hmem

theorem ascending_restricted {ms : Members} (h : Record.Ascending ms) :
    Record.Ascending (restricted ms) := by
  rw [restricted]
  split
  · exact (h.filter _).erase _
  · exact h.filter _

theorem get?_restricted_of_ne (ms : Members) {k : String} (hk : k ≠ changesKey) :
    Record.get? (restricted ms) k = if k ∈ envelopeKeys then Record.get? ms k else none := by
  have hfilter := Record.get?_filter ms (fun n => n ∈ envelopeKeys) k
  simp only [decide_eq_true_eq] at hfilter
  rw [restricted]
  split
  · rw [Record.get?_erase, if_neg (Ne.symm hk), hfilter]
  · exact hfilter

theorem get?_restricted_changes {ms : Members} {p : Primitive} (h : Envelope ms p) :
    Record.get? (restricted ms) changesKey = Record.get? p.members changesKey := by
  have hfilter := Record.get?_filter ms (fun n => n ∈ envelopeKeys) changesKey
  rw [if_pos (by decide)] at hfilter
  rcases h.changes with ⟨hnone, hempty⟩ | hsome
  · rw [restricted, hnone, members, hempty]
    exact hfilter.trans hnone
  · cases hchanges : p.changes with
    | nil =>
        rw [hchanges] at hsome
        rw [restricted, hsome, members, hchanges]
        exact (Record.get?_erase _ _ _).trans (if_pos rfl)
    | cons n names =>
        rw [hchanges] at hsome
        rw [restricted, hsome, members, hchanges]
        exact hfilter.trans hsome

/-- What is written of a document that was read: the members under the keys of primitives. -/
theorem toJson_of_envelope {ms : Members} {p : Primitive} (h : Envelope ms p)
    (hms : Record.Ascending ms) : p.toJson = .obj (restricted ms) := by
  rw [toJson_eq]
  refine congrArg _ (Record.ext p.ascending_members (ascending_restricted hms) fun k => ?_)
  by_cases hchanges : k = changesKey
  · rw [hchanges, get?_restricted_changes h]
  rw [get?_restricted_of_ne ms hchanges]
  by_cases hk : k ∈ envelopeKeys
  · have hp := p.envelope_members
    rw [if_pos hk]
    simp only [envelopeKeys, List.mem_cons, List.not_mem_nil, or_false, hchanges,
      false_or] at hk
    rcases hk with rfl | rfl | rfl | rfl
    · rw [hp.data, h.data]
    · rw [hp.name, h.name]
    · rw [hp.space, h.space]
    · rw [hp.version, h.version]
  · rw [if_neg hk, p.get?_members_of_notMem hk]

/-- **The envelope codec.** Reading succeeds exactly on envelopes and otherwise finds the
document malformed; what was read is written as the document restricted to the keys of
primitives, without an empty list of changes; and what is written is read back, whatever the
data and the changes. -/
theorem ofJson_exact (j : Json) :
    ((∃ p, ofJson j = .ok p) ↔ j.IsEnvelope) ∧
      (¬ j.IsEnvelope ↔ ∃ fault, ofJson j = .error (.malformed fault)) ∧
      (∀ p ms, ofJson j = .ok p → j = .obj ms → Record.Ascending ms →
        p.toJson = .obj (restricted ms)) ∧
      ∀ p, ofJson p.toJson = .ok p := by
  refine ⟨exists_ofJson_iff, ?_, ?_, ofMembers_members⟩
  · rw [← exists_ofJson_iff, ← Except.exists_eq_error_iff]
    constructor
    · rintro ⟨err, herr⟩
      obtain ⟨fault, rfl⟩ := ofJson_onlyMalformed j err herr
      exact ⟨fault, herr⟩
    · rintro ⟨fault, hfault⟩
      exact ⟨_, hfault⟩
  · rintro p ms hp rfl hms
    exact toJson_of_envelope (ofMembers_eq_ok_iff.mp hp) hms

end Primitive

/-! ## A parcel

Its document has a member of its own and an empty list of changes. -/

namespace Courier

open Primitive (restricted)

def parcel : Members :=
  [(changesKey, .arr []), (dataKey, .obj [("weight", .int 3)]), (nameKey, .str "Parcel"),
    (spaceKey, .str "nova"), (versionKey, .str "1.0"), ("stamp", .str "priority")]

def primitive : Primitive := ⟨"nova", "Parcel", "1.0", [("weight", .int 3)], []⟩

theorem parcel_exact : Primitive.ofJson (.obj parcel) = .ok primitive ∧
    Record.Ascending parcel ∧ primitive.toJson = .obj (restricted parcel) ∧
    (restricted parcel).map (·.1) = [dataKey, nameKey, spaceKey, versionKey] := by
  have hread : Primitive.ofJson (.obj parcel) = .ok primitive := rfl
  have hascending : Record.Ascending parcel := by decide
  exact ⟨hread, hascending,
    (Primitive.ofJson_exact (.obj parcel)).2.2.1 _ _ hread rfl hascending, by decide⟩

end Courier

end Skew

import Skew.Proofs.Outcomes
import Skew.Proofs.Records
import Skew.Wire.Backport

/-!
# Edits that stay in their place

An edit of data either ends well, leaving other data behind, or fails with an error; what
is to hold in either case is said by `Edit.Ends`. The one loop that a backport runs visits
distinct fields, and the step for a field looks at nothing but the entry under its name.
So the loop ends with every entry edited once, as if each had been edited alone
(`Edit.ends_forM`).
-/

namespace Skew

/-- What holds of a document after an edit, or of the error it fails with. -/
def JsonEdit.Ends (edit : JsonEdit) (j : Json) (good : Json → Prop) (bad : EntityError → Prop) :
    Prop :=
  match edit j with
  | (.ok (), j') => good j'
  | (.error err, _) => bad err

namespace Edit

/-- What holds of the data after an edit, or of the error it fails with. -/
def Ends (edit : Edit Unit) (ms : Members) (good : Members → Prop) (bad : EntityError → Prop) :
    Prop :=
  match edit ms with
  | (.ok (), ms') => good ms'
  | (.error err, _) => bad err

variable {ms : Members} {good mid : Members → Prop} {bad : EntityError → Prop}

theorem ends_pure (h : good ms) : Ends (pure ()) ms good bad := h

theorem ends_throw {err : EntityError} (h : bad err) : Ends (throw err) ms good bad := h

theorem ends_bind {first : Edit Unit} {next : Unit → Edit Unit} (hfirst : Ends first ms mid bad)
    (hnext : ∀ ms', mid ms' → Ends (next ()) ms' good bad) : Ends (first >>= next) ms good bad := by
  unfold Ends at hfirst ⊢
  rcases hend : first ms with ⟨_ | ⟨⟩, ms'⟩
  · rw [hend] at hfirst
    rw [ExceptT.bind_error hend]
    exact hfirst
  · rw [hend] at hfirst
    rw [ExceptT.bind_ok hend]
    exact hnext ms' hfirst

theorem ends_mono {edit : Edit Unit} (h : Ends edit ms mid bad)
    (hgood : ∀ ms', mid ms' → good ms') : Ends edit ms good bad := by
  unfold Ends at h ⊢
  split at h
  · exact hgood _ h
  · exact h

theorem member_ok {name : String} {edit : JsonEdit} {j j' : Json}
    (hj : Record.get? ms name = some j) (h : edit j = (.ok (), j')) :
    member name edit ms = (.ok (), Record.insert ms name j') := by
  simp only [member, hj, h]

/-- Editing the member of a name leaves the other members alone. -/
theorem ends_member {name : String} {edit : JsonEdit} {j : Json} {goodJ : Json → Prop}
    (hj : Record.get? ms name = some j) (h : edit.Ends j goodJ bad) :
    Ends (member name edit) ms (fun ms' => ∃ j', goodJ j' ∧ ms' = Record.insert ms name j')
      bad := by
  unfold Ends member
  unfold JsonEdit.Ends at h
  rw [hj]
  split at h
  · next j' hedit =>
      simp only [hedit]
      exact ⟨j', h, rfl⟩
  · next err j' hedit =>
      simp only [hedit]
      exact h

theorem ends_erase {name : String} :
    Ends (erase name) ms (fun ms' => ms' = Record.erase ms name) bad := rfl

/-- Only the entry under the name has changed, and it is as said. -/
def OnlyAt (name : String) (slot : Option Json → Prop) (ms ms' : Members) : Prop :=
  Record.Ascending ms' ∧ (∀ k, k ≠ name → Record.get? ms' k = Record.get? ms k) ∧
    slot (Record.get? ms' name)

theorem onlyAt_insert {name : String} {slot : Option Json → Prop} {j : Json}
    (hms : Record.Ascending ms) (h : slot (some j)) :
    OnlyAt name slot ms (Record.insert ms name j) :=
  ⟨hms.insert name j, fun _ hk => Record.get?_insert_ne ms j (Ne.symm hk),
    (Record.get?_insert_self ms name j).symm ▸ h⟩

theorem onlyAt_erase {name : String} {slot : Option Json → Prop} (hms : Record.Ascending ms)
    (h : slot none) : OnlyAt name slot ms (Record.erase ms name) := by
  refine ⟨hms.erase name, ?_, ?_⟩
  · intro k hk
    rw [Record.get?_erase, if_neg (Ne.symm hk)]
  · rw [Record.get?_erase, if_pos rfl]
    exact h

theorem onlyAt_self {name : String} {slot : Option Json → Prop} (hms : Record.Ascending ms)
    (h : slot (Record.get? ms name)) : OnlyAt name slot ms ms :=
  ⟨hms, fun _ _ => rfl, h⟩

/-- A loop over distinct names in which the step for a name edits the entry under it. What
a step makes of its entry may depend on what the entry was before the loop. -/
theorem ends_forM {φ : Type} {fields : List (String × φ)} (hfields : (fields.map (·.1)).Nodup)
    {step : String × φ → Edit Unit} {slot : String × φ → Option Json → Prop}
    (hms : Record.Ascending ms)
    (hstep : ∀ p ∈ fields, ∀ now, Record.Ascending now →
      Record.get? now p.1 = Record.get? ms p.1 → Ends (step p) now (OnlyAt p.1 (slot p) now) bad) :
    Ends (fields.forM step) ms (fun ms' => Record.Ascending ms' ∧
      (∀ k, k ∉ fields.map (·.1) → Record.get? ms' k = Record.get? ms k) ∧
      ∀ p ∈ fields, slot p (Record.get? ms' p.1)) bad := by
  induction fields generalizing ms with
  | nil => exact ends_pure ⟨hms, fun _ _ => rfl, fun _ h => (nomatch h)⟩
  | cons p fields ih =>
      rw [List.map_cons, List.nodup_cons] at hfields
      refine ends_bind (hstep p List.mem_cons_self ms hms rfl) ?_
      intro next honly
      obtain ⟨hnext, hother, hslot⟩ := honly
      -- The later names are not this one, so their entries are still those of the start.
      have hlater (q : String × φ) (hq : q ∈ fields) :
          Record.get? next q.1 = Record.get? ms q.1 :=
        hother q.1 fun h => hfields.1 (h ▸ List.mem_map_of_mem hq)
      refine ends_mono (ih hfields.2 hnext fun q hq now hnow hget =>
        hstep q (List.mem_cons_of_mem _ hq) now hnow (hget.trans (hlater q hq))) ?_
      rintro ms' ⟨hms', hkeep, hslots⟩
      refine ⟨hms', fun k hk => ?_, List.forall_mem_cons.mpr ⟨?_, hslots⟩⟩
      · rw [List.map_cons, List.mem_cons, not_or] at hk
        rw [hkeep k hk.2, hother k hk.1]
      · rw [hkeep p.1 hfields.1]
        exact hslot

end Edit

end Skew

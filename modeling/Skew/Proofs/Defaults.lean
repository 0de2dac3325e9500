import Skew.Proofs.Programs

/-!
# Giving defaults

Giving defaults is a loop over names that ends at the first one with a fault; what it did for
the names before that one stays done. Whether a name has a fault can be read off the entity
that the loop starts with (`Entity.DefaultFault`): giving other fields their defaults neither
mends a fault nor makes one (`Entity.GivenDefaults.fault_iff`), and a field that has been given
its default is set, so that a name that is listed again passes.

`Update.setDefaults_exact` puts together what the entity holds after success, which fault is
reported and what remains of a failed run, and that doing it again changes nothing.
-/

namespace Skew

/-! ## Fields that are given a default -/

namespace Schema

/-- The declared default of a declared field. -/
def default? (s : Schema) (n : String) : Option Value := (s.field? n).bind (·.default?)

/-- The fields that declare a default, in order of declaration. -/
def defaultNames (s : Schema) : List String :=
  s.fieldNames.filter fun n => (s.default? n).isSome

/-- The names that defaults are given to, in order. -/
def defaultTargets (s : Schema) (names? : Option (List String)) : List String :=
  names?.getD s.defaultNames

variable {s : Schema} {n : String}

theorem default?_eq_some_iff {d : Value} :
    s.default? n = some d ↔ ∃ f, s.field? n = some f ∧ f.default? = some d :=
  Option.bind_eq_some_iff

theorem isSome_default?_of_mem_defaultNames (h : n ∈ s.defaultNames) :
    ∃ d, s.default? n = some d :=
  Option.isSome_iff_exists.mp (List.mem_filter.mp h).2

/-- Fields are found under their names, where no name stands twice. -/
theorem map_fst_filter_default (hs : s.fieldNames.Nodup) :
    (s.fields.filter fun f => f.2.default?.isSome).map (·.1) = s.defaultNames := by
  have hcongr : ∀ p ∈ s.fields, p.2.default?.isSome = (s.default? p.1).isSome := by
    intro p hp
    have hfield : s.field? p.1 = some p.2 := Record.get?_of_mem hs hp
    rw [default?, hfield, Option.bind_some]
  rw [List.filter_congr hcongr, defaultNames, fieldNames, List.filter_map]
  rfl

end Schema

namespace Entity

section

variable [Codecs]

/-- Why a name cannot be given its default. A field that is set is not asked whether it takes
the default. -/
inductive DefaultFault (e : Entity) (n : String) : EntityError → Prop
  | undeclared (hfield : e.schema.field? n = none) :
      DefaultFault e n (.unknownField e.schema.name n)
  | noDefault {f : Field} (hfield : e.schema.field? n = some f) (hdefault : f.default? = none) :
      DefaultFault e n (.action "set_defaults" (.noDefault n))
  | refused {f : Field} {d : Value} {fault : ValueFault} (hfield : e.schema.field? n = some f)
      (hdefault : f.default? = some d) (hunset : e.isSet n = false)
      (hrefused : f.coerce d = .error fault) : DefaultFault e n (.invalidValue n fault)

namespace DefaultFault

variable {e : Entity} {n : String} {err err' : EntityError}

/-- Where a default is declared, the one fault is that the field refuses it. -/
theorem refusal (h : e.DefaultFault n err) {f : Field} {d : Value}
    (hf : e.schema.field? n = some f) (hd : f.default? = some d) :
    e.isSet n = false ∧ ∃ fault, f.coerce d = .error fault ∧ err = .invalidValue n fault := by
  cases h with
  | undeclared hfield => cases hfield.symm.trans hf
  | noDefault hfield hdefault =>
      cases hfield.symm.trans hf
      cases hdefault.symm.trans hd
  | refused hfield hdefault hunset hrefused =>
      cases hfield.symm.trans hf
      cases hdefault.symm.trans hd
      exact ⟨hunset, _, hrefused, rfl⟩

theorem unique (h : e.DefaultFault n err) (h' : e.DefaultFault n err') : err = err' := by
  cases h with
  | undeclared hfield =>
      cases h' with
      | undeclared => rfl
      | noDefault hfield' | refused hfield' => cases hfield.symm.trans hfield'
  | noDefault hfield hdefault =>
      cases h' with
      | undeclared hfield' => cases hfield.symm.trans hfield'
      | noDefault => rfl
      | refused hfield' hdefault' =>
          cases hfield.symm.trans hfield'
          cases hdefault.symm.trans hdefault'
  | refused hfield hdefault _ hrefused =>
      obtain ⟨-, fault, hrefused', rfl⟩ := h'.refusal hfield hdefault
      cases hrefused.symm.trans hrefused'
      rfl

end DefaultFault

/-- What becomes of an entity when the named fields have been given their defaults. -/
structure GivenDefaults (names : List String) (e e' : Entity) : Prop where
  schema : e'.schema = e.schema
  version : e'.version = e.version
  context : e'.context? = e.context?
  declares : ∀ n ∈ names, ∃ d, e.schema.default? n = some d
  given : ∀ n ∈ names, e.isSet n = false → ∃ f d w, e.schema.field? n = some f ∧
    f.default? = some d ∧ f.coerce d = .ok w ∧ Record.get? e'.values n = some w
  kept : ∀ n, n ∉ names ∨ e.isSet n = true → Record.get? e'.values n = Record.get? e.values n
  changed : ∀ n, n ∈ e'.changed ↔ n ∈ e.changed ∨ n ∈ names ∧ e.isSet n = false
  whatChanged : ∀ n, n ∈ e'.whatChanged ↔ n ∈ e.whatChanged ∨ n ∈ names ∧ e.isSet n = false

namespace GivenDefaults

variable {names : List String} {e e' e'' : Entity} {n : String}

theorem nil (e : Entity) : GivenDefaults [] e e where
  schema := rfl
  version := rfl
  context := rfl
  declares := nofun
  given := nofun
  kept _ _ := rfl
  changed _ := by simp
  whatChanged _ := by simp

/-- A field that is set already stays as it is. -/
theorem of_isSet {d : Value} (hd : e.schema.default? n = some d) (hset : e.isSet n = true) :
    GivenDefaults [n] e e := by
  have hnone (m : String) : ¬ (m ∈ [n] ∧ e.isSet m = false) := by
    rintro ⟨hm, hunset⟩
    rw [List.mem_singleton.mp hm, hset] at hunset
    cases hunset
  refine ⟨rfl, rfl, rfl, ?_, fun m hm hunset => absurd ⟨hm, hunset⟩ (hnone m), fun _ _ => rfl,
    fun m => (or_iff_left (hnone m)).symm, fun m => (or_iff_left (hnone m)).symm⟩
  intro m hm
  rw [List.mem_singleton.mp hm]
  exact ⟨d, hd⟩

theorem of_assigned {f : Field} {d w : Value} (hf : e.schema.field? n = some f)
    (hd : f.default? = some d) (hunset : e.isSet n = false) (hw : f.coerce d = .ok w) :
    GivenDefaults [n] e (e.assigned n w) := by
  have hiff (m : String) : m ∈ [n] ∧ e.isSet m = false ↔ m = n := by
    rw [List.mem_singleton]
    constructor
    · exact And.left
    · rintro rfl
      exact ⟨rfl, hunset⟩
  refine ⟨rfl, rfl, rfl, ?_, ?_, ?_, ?_, ?_⟩
  · intro m hm
    rw [List.mem_singleton.mp hm]
    exact ⟨d, Schema.default?_eq_some_iff.mpr ⟨f, hf, hd⟩⟩
  · intro m hm _
    rw [List.mem_singleton.mp hm]
    exact ⟨f, d, w, hf, hd, hw, Record.get?_insert_self _ _ _⟩
  · intro m hm
    refine Record.get?_insert_ne _ _ ?_
    rintro rfl
    rcases hm with hm | hset
    · exact hm List.mem_cons_self
    · rw [hunset] at hset
      cases hset
  · intro m
    rw [hiff m, or_comm]
    exact NameSet.mem_insert
  · intro m
    rw [hiff m, or_comm]
    exact mem_whatChanged_assigned

/-- What is set afterwards was set before or is among the names. -/
theorem isSet_iff (h : GivenDefaults names e e') :
    e'.isSet n = true ↔ e.isSet n = true ∨ n ∈ names := by
  by_cases hset : e.isSet n = true
  · rw [isSet, Record.contains, h.kept n (Or.inr hset)]
    exact iff_of_true hset (Or.inl hset)
  · rw [or_iff_right hset]
    constructor
    · intro hset'
      by_contra hn
      rw [isSet, Record.contains, h.kept n (Or.inl hn)] at hset'
      exact hset hset'
    · intro hn
      obtain ⟨_, _, w, -, -, -, hw⟩ := h.given n hn (Bool.eq_false_iff.mpr hset)
      exact Record.contains_iff.mpr ⟨w, hw⟩

/-- One more name that is unset at the start of the rest is unset at the start and not the
name that came first. -/
theorem unset_iff (h : GivenDefaults names e e') :
    e'.isSet n = false ↔ e.isSet n = false ∧ n ∉ names := by
  rw [← Bool.not_eq_true, h.isSet_iff, not_or, Bool.not_eq_true]

theorem append {first rest : List String} (h : GivenDefaults first e e')
    (h' : GivenDefaults rest e' e'') : GivenDefaults (first ++ rest) e e'' := by
  have hmarks (n : String) {P P' P'' : Prop} (hp : P' ↔ P ∨ n ∈ first ∧ e.isSet n = false)
      (hp' : P'' ↔ P' ∨ n ∈ rest ∧ e'.isSet n = false) :
      P'' ↔ P ∨ n ∈ first ++ rest ∧ e.isSet n = false := by
    rw [hp', hp, h.unset_iff, List.mem_append]
    by_cases hn : n ∈ first <;> simp [hn]
  refine ⟨h'.schema.trans h.schema, h'.version.trans h.version, h'.context.trans h.context, ?_, ?_,
    ?_, fun n => hmarks n (h.changed n) (h'.changed n),
    fun n => hmarks n (h.whatChanged n) (h'.whatChanged n)⟩
  · intro n hn
    rcases List.mem_append.mp hn with hn | hn
    · exact h.declares n hn
    · exact h.schema ▸ h'.declares n hn
  · intro n hn hunset
    by_cases hfirst : n ∈ first
    · obtain ⟨f, d, w, hf, hd, hw, hget⟩ := h.given n hfirst hunset
      have hset : e'.isSet n = true := h.isSet_iff.mpr (Or.inr hfirst)
      exact ⟨f, d, w, hf, hd, hw, (h'.kept n (Or.inr hset)).trans hget⟩
    · have hrest := (List.mem_append.mp hn).resolve_left hfirst
      exact h.schema ▸ h'.given n hrest (h.unset_iff.mpr ⟨hunset, hfirst⟩)
  · intro n hn
    rcases hn with hn | hset
    · rw [List.mem_append, not_or] at hn
      exact (h'.kept n (Or.inl hn.2)).trans (h.kept n (Or.inl hn.1))
    · exact (h'.kept n (Or.inr (h.isSet_iff.mpr (Or.inl hset)))).trans (h.kept n (Or.inr hset))

/-- Giving defaults neither mends a fault nor makes one. -/
theorem fault_iff (h : GivenDefaults names e e') {err : EntityError} :
    e'.DefaultFault n err ↔ e.DefaultFault n err := by
  constructor
  · rintro (hf | ⟨hf, hd⟩ | ⟨hf, hd, hunset, hrefused⟩)
    · rw [h.schema] at hf ⊢
      exact .undeclared hf
    · exact .noDefault (h.schema ▸ hf) hd
    · exact .refused (h.schema ▸ hf) hd (h.unset_iff.mp hunset).1 hrefused
  · rintro (hf | ⟨hf, hd⟩ | ⟨hf, hd, hunset, hrefused⟩)
    · rw [← h.schema] at hf ⊢
      exact .undeclared hf
    · exact .noDefault (h.schema ▸ hf) hd
    · -- A name that the run went through has a default that its field takes.
      have hn : n ∉ names := by
        intro hn
        obtain ⟨g, x, w, hg, hx, hw, -⟩ := h.given n hn hunset
        cases hf.symm.trans hg
        cases hd.symm.trans hx
        cases hrefused.symm.trans hw
      exact .refused (h.schema ▸ hf) hd (h.unset_iff.mpr ⟨hunset, hn⟩) hrefused

end GivenDefaults

end

end Entity

/-! ## The loop -/

namespace Update

open Entity (DefaultFault GivenDefaults)

variable [Codecs] {e e' : Entity} {n : String} {names : List String} {err : EntityError}

/-- One name: it has a fault, and the entity stays as it is, or it has none. -/
theorem setDefault_cases (n : String) (e : Entity) :
    (∃ err, e.DefaultFault n err ∧ setDefault n e = (.error err, e)) ∨
      (∀ err, ¬ e.DefaultFault n err) ∧
        ∃ e', GivenDefaults [n] e e' ∧ setDefault n e = (.ok (), e') := by
  rw [setDefault_apply]
  cases hf : e.schema.field? n with
  | none => exact Or.inl ⟨_, .undeclared hf, rfl⟩
  | some f =>
      cases hd : f.default? with
      | none =>
          refine Or.inl ⟨_, .noDefault hf hd, ?_⟩
          simp only [hd]
      | some d =>
          simp only [hd]
          by_cases hset : e.isSet n = true
          · rw [if_pos hset]
            have hdefault : e.schema.default? n = some d :=
              Schema.default?_eq_some_iff.mpr ⟨f, hf, hd⟩
            refine Or.inr ⟨fun err h => ?_, e, .of_isSet hdefault hset, rfl⟩
            exact Bool.eq_false_iff.mp (h.refusal hf hd).1 hset
          · rw [if_neg hset]
            have hunset := Bool.eq_false_iff.mpr hset
            cases hw : f.coerce d with
            | error fault =>
                refine Or.inl ⟨_, .refused hf hd hunset hw, set_error ?_⟩
                rw [Entity.set_eq, Entity.requireField_eq_ok_iff.mpr hf, Except.ok_bind, hw]
                rfl
            | ok w =>
                refine Or.inr ⟨fun err h => ?_, e.assigned n w, .of_assigned hf hd hunset hw,
                  set_ok (Entity.set_eq_ok_iff.mpr ⟨f, w, hf, hw, rfl⟩)⟩
                obtain ⟨-, fault, hrefused, -⟩ := h.refusal hf hd
                rw [hw] at hrefused
                cases hrefused

theorem setDefault_eq_ok (h : setDefault n e = (.ok (), e')) :
    (∀ err, ¬ e.DefaultFault n err) ∧ GivenDefaults [n] e e' := by
  rcases setDefault_cases n e with ⟨err, -, herr⟩ | ⟨hnone, d, hd, hok⟩
  · rw [herr] at h
    cases h
  · rw [hok] at h
    cases h
    exact ⟨hnone, hd⟩

theorem setDefault_eq_error_iff :
    setDefault n e = (.error err, e') ↔ e.DefaultFault n err ∧ e' = e := by
  rcases setDefault_cases n e with ⟨err', hfault, herr⟩ | ⟨hnone, d, -, hok⟩
  · rw [herr]
    constructor
    · rintro h
      cases h
      exact ⟨hfault, rfl⟩
    · rintro ⟨h, rfl⟩
      rw [hfault.unique h]
  · rw [hok]
    exact iff_of_false nofun fun h => hnone err h.1

theorem givenDefaults_of_forM (h : names.forM setDefault e = (.ok (), e')) :
    (∀ n ∈ names, ∀ err, ¬ e.DefaultFault n err) ∧ GivenDefaults names e e' := by
  induction names generalizing e with
  | nil =>
      cases h
      exact ⟨nofun, .nil _⟩
  | cons n names ih =>
      obtain ⟨d, hn, hnames⟩ := ExceptT.forM_cons_eq_ok_iff.mp h
      obtain ⟨hfault, hd⟩ := setDefault_eq_ok hn
      obtain ⟨hfaults, he'⟩ := ih hnames
      refine ⟨List.forall_mem_cons.mpr ⟨hfault, fun m hm err => ?_⟩, hd.append he'⟩
      rw [← hd.fault_iff]
      exact hfaults m hm err

/-- Names that are set and declare a default are passed over. -/
theorem forM_setDefault_of_isSet (hset : ∀ n ∈ names, e.isSet n = true)
    (hdefault : ∀ n ∈ names, ∃ d, e.schema.default? n = some d) :
    names.forM setDefault e = (.ok (), e) := by
  induction names with
  | nil => rfl
  | cons n names ih =>
      obtain ⟨hn, hnames⟩ := List.forall_mem_cons.mp hset
      obtain ⟨⟨d, hd⟩, hdefaults⟩ := List.forall_mem_cons.mp hdefault
      obtain ⟨f, hf, hd⟩ := Schema.default?_eq_some_iff.mp hd
      refine ExceptT.forM_cons_eq_ok_iff.mpr ⟨e, ?_, ih hnames hdefaults⟩
      simp only [setDefault_apply, hf, hd, hn, if_true]

/-- The loop fails at the first name with a fault, and the names before it are done. -/
theorem forM_setDefault_eq_error_iff :
    names.forM setDefault e = (.error err, e') ↔ ∃ before n after, names = before ++ n :: after ∧
      (∀ m ∈ before, ∀ err, ¬ e.DefaultFault m err) ∧ e.DefaultFault n err ∧
        before.forM setDefault e = (.ok (), e') := by
  rw [ExceptT.forM_eq_error_iff]
  constructor
  · rintro ⟨before, n, after, t, rfl, hbefore, hn⟩
    obtain ⟨hfault, rfl⟩ := setDefault_eq_error_iff.mp hn
    obtain ⟨hnone, hgiven⟩ := givenDefaults_of_forM hbefore
    exact ⟨before, n, after, rfl, hnone, hgiven.fault_iff.mp hfault, hbefore⟩
  · rintro ⟨before, n, after, rfl, -, hfault, hbefore⟩
    obtain ⟨-, hgiven⟩ := givenDefaults_of_forM hbefore
    exact ⟨before, n, after, e', rfl, hbefore,
      setDefault_eq_error_iff.mpr ⟨hgiven.fault_iff.mpr hfault, rfl⟩⟩

theorem setDefaults_eq_forM {e : Entity} (hs : e.schema.fieldNames.Nodup)
    (names? : Option (List String)) :
    setDefaults names? e = (e.schema.defaultTargets names?).forM setDefault e := by
  rw [setDefaults_apply, Schema.map_fst_filter_default hs, Schema.defaultTargets]

theorem givenDefaults_of_setDefaults {names? : Option (List String)}
    (hs : e.schema.fieldNames.Nodup) (h : setDefaults names? e = (.ok (), e')) :
    (∀ n ∈ e.schema.defaultTargets names?, ∀ err, ¬ e.DefaultFault n err) ∧
      GivenDefaults (e.schema.defaultTargets names?) e e' := by
  rw [setDefaults_eq_forM hs] at h
  exact givenDefaults_of_forM h

theorem setDefaults_eq_error_iff {names? : Option (List String)}
    (hs : e.schema.fieldNames.Nodup) :
    setDefaults names? e = (.error err, e') ↔ ∃ before n after,
      e.schema.defaultTargets names? = before ++ n :: after ∧
        (∀ m ∈ before, ∀ err, ¬ e.DefaultFault m err) ∧ e.DefaultFault n err ∧
        setDefaults (some before) e = (.ok (), e') := by
  rw [setDefaults_eq_forM hs]
  exact forM_setDefault_eq_error_iff

/-- Once defaults are given, there is nothing left to give. -/
theorem setDefaults_of_givenDefaults {names? : Option (List String)}
    (hs : e.schema.fieldNames.Nodup) (h : GivenDefaults (e.schema.defaultTargets names?) e e') :
    setDefaults names? e' = (.ok (), e') := by
  rw [setDefaults_eq_forM (h.schema ▸ hs), h.schema]
  refine forM_setDefault_of_isSet (fun n hn => h.isSet_iff.mpr (Or.inr hn)) ?_
  rw [h.schema]
  exact h.declares

/-- Where the fields that declare a default are to be given it, it is a default that is
refused. -/
theorem refused_of_setDefaults_none (hs : e.schema.fieldNames.Nodup)
    (h : setDefaults none e = (.error err, e')) :
    ∃ n fault, err = .invalidValue n fault ∧ e.DefaultFault n err := by
  obtain ⟨before, n, after, htargets, -, hfault, -⟩ := (setDefaults_eq_error_iff hs).mp h
  have hn : n ∈ e.schema.defaultNames := by
    rw [show e.schema.defaultNames = before ++ n :: after from htargets]
    exact List.mem_append_right _ List.mem_cons_self
  obtain ⟨d, hd⟩ := Schema.isSome_default?_of_mem_defaultNames hn
  obtain ⟨f, hf, hd⟩ := Schema.default?_eq_some_iff.mp hd
  obtain ⟨-, fault, -, rfl⟩ := hfault.refusal hf hd
  exact ⟨n, fault, rfl, hfault⟩

/-- **Giving defaults.** Every target that was unset holds what its field makes of the default,
and is marked; nothing else changes, and doing it again changes nothing. It fails exactly if a
target has a fault, with the fault of the first such target, and leaves what the targets before
that one make of the entity. Without names it fails only where a default is refused. -/
theorem setDefaults_exact (e : Entity) (hs : e.schema.WellFormed) (names? : Option (List String)) :
    (∀ e', setDefaults names? e = (.ok (), e') →
      GivenDefaults (e.schema.defaultTargets names?) e e' ∧
        (∀ n ∈ e.schema.defaultTargets names?, e'.isSet n = true) ∧
        setDefaults names? e' = (.ok (), e')) ∧
    ((∃ e', setDefaults names? e = (.ok (), e')) ↔
      ∀ n ∈ e.schema.defaultTargets names?, ∀ err, ¬ e.DefaultFault n err) ∧
    (∀ err e', setDefaults names? e = (.error err, e') ↔ ∃ before n after,
      e.schema.defaultTargets names? = before ++ n :: after ∧
        (∀ m ∈ before, ∀ err, ¬ e.DefaultFault m err) ∧ e.DefaultFault n err ∧
        setDefaults (some before) e = (.ok (), e')) ∧
    ∀ err e', setDefaults none e = (.error err, e') →
      ∃ n fault, err = .invalidValue n fault ∧ e.DefaultFault n err := by
  refine ⟨fun e' h => ?_, ⟨?_, ?_⟩, fun err e' => setDefaults_eq_error_iff hs.fields,
    fun err e' h => refused_of_setDefaults_none hs.fields h⟩
  · obtain ⟨-, hgiven⟩ := givenDefaults_of_setDefaults hs.fields h
    have hset : ∀ n ∈ e.schema.defaultTargets names?, e'.isSet n = true := fun n hn =>
      hgiven.isSet_iff.mpr (Or.inr hn)
    exact ⟨hgiven, hset, setDefaults_of_givenDefaults hs.fields hgiven⟩
  · rintro ⟨e', h⟩
    exact (givenDefaults_of_setDefaults hs.fields h).1
  · intro hnone
    rcases h : setDefaults names? e with ⟨err | u, e'⟩
    · obtain ⟨before, n, after, htargets, -, hfault, -⟩ :=
        (setDefaults_eq_error_iff hs.fields).mp h
      have hn : n ∈ e.schema.defaultTargets names? := by
        rw [htargets]
        exact List.mem_append_right _ List.mem_cons_self
      exact absurd hfault (hnone n hn err)
    · exact ⟨e', rfl⟩

end Update

/-! ## A dial

One default is no integer, and one field is set to null. -/

namespace Dial

attribute [local instance] Codecs.none

def limit : Field := ⟨.integer false, false, some (.str "5")⟩

def mode : Field := ⟨.string, true, some (.str "auto")⟩

def label : Field := ⟨.string, false, none⟩

def ratio : Field := ⟨.integer false, false, some (.str "half")⟩

def schema : Schema :=
  ⟨"Dial", ⟨1, 0, none⟩,
    [("limit", limit), ("mode", mode), ("label", label), ("ratio", ratio)], [], [], none⟩

def dial : Entity := { Entity.ofSchema schema with values := [("mode", .null)] }

def limited : Entity :=
  { dial with values := [("limit", .int 5), ("mode", .null)], changed := ["limit"] }

theorem dial_defaults :
    schema.WellFormed ∧
    Update.setDefaults (some ["limit", "mode", "limit"]) dial = (.ok (), limited) ∧
    Entity.GivenDefaults ["limit", "mode", "limit"] dial limited ∧
    Update.setDefaults (some ["limit", "mode", "limit"]) limited = (.ok (), limited) ∧
    Update.setDefaults (some ["limit", "label", "ratio"]) dial =
      (.error (.action "set_defaults" (.noDefault "label")), limited) ∧
    Update.setDefaults none dial = (.error (.invalidValue "ratio" (.notInteger "half")), limited) ∧
    dial.DefaultFault "ratio" (.invalidValue "ratio" (.notInteger "half")) := by
  have hs : schema.WellFormed := by decide
  have hdone : Update.setDefaults (some ["limit", "mode", "limit"]) dial = (.ok (), limited) := rfl
  have hnone : Update.setDefaults none dial =
      (.error (.invalidValue "ratio" (.notInteger "half")), limited) := rfl
  obtain ⟨hok, -, -, hfault⟩ :=
    Update.setDefaults_exact dial hs (some ["limit", "mode", "limit"])
  obtain ⟨hgiven, -, hagain⟩ := hok limited hdone
  obtain ⟨n, fault, herr, hratio⟩ := hfault _ _ hnone
  cases herr
  exact ⟨hs, hdone, hgiven, hagain, rfl, hnone, hratio⟩

end Dial

end Skew

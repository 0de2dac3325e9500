import Skew.Endpoint
import Skew.Proofs.Reading

/-!
# The fallbacks of an endpoint

An endpoint that cannot place the version of a primitive may read it without its patch,
and may then ask an authority, once, for the newest version it knows. `Endpoint.Protocol`
describes the course of that on its own, with everything that was asked;
`Endpoint.processObject_protocol` says that an endpoint follows it, and that a patch is
dropped at most once and the authority asked at most once.

What an authority is asked does not show in its answers, so the protocol is observed on
the same endpoint with an authority that also keeps a log (`Endpoint.logged`).

The refusal that starts a fallback may come from a nested entity. Then the patch of the
outer primitive is dropped although its version is known (`Endpoint.processObject_known`).
-/

namespace Skew

variable {σ : Type}

/-! ## Requests -/

/-- What an authority is asked. -/
structure Request where
  context? : Option Context
  primitive : Primitive
  target : Version

/-- The authority, with a log of what it is asked. -/
def Authority.logged (a : Authority σ) : Authority (σ × List Request) := fun c? p target s =>
  let (r, s') := a c? p target s.1
  (r, s', s.2 ++ [⟨c?, p, target⟩])

def Endpoint.logged (n : Endpoint σ) : Endpoint (σ × List Request) :=
  ⟨n.registry, n.authority?.map Authority.logged, n.policy⟩

/-- The second run does what the first does, and logs the requests. -/
def Logs {α : Type} (x : Run σ α) (y : Run (σ × List Request) α) (s : σ)
    (asked : List Request) : Prop :=
  ∀ log, y (s, log) = ((x s).1, (x s).2, log ++ asked)

/-! ## Refusals for the version -/

/-- A refusal that a fallback may answer. -/
def EntityError.isSkew : EntityError → Bool
  | .incompatibleVersion .. => true
  | _ => false

/-- The same data, said to be of another version. -/
def Primitive.restamped (p : Primitive) (v : Version) : Primitive := { p with version := v.text }

theorem Version.truncated_of_no_patch {v : Version} (h : ¬ v.hasPatch = true) :
    v.truncated = v := by
  obtain ⟨major, minor, patch?⟩ := v
  cases patch? with
  | none => rfl
  | some patch => exact absurd rfl h

theorem Version.eq_of_ofText_eq_error {s : String} {err : EntityError}
    (h : Version.ofText s = .error err) : err = .invalidVersion s := by
  unfold Version.ofText at h
  split at h <;> cases h
  rfl

theorem Registry.eq_of_latest_eq_error {r : Registry} {name : String} {err : EntityError}
    (h : r.latest name = .error err) : err = .unsupportedType name := by
  unfold Registry.latest at h
  split at h <;> cases h
  rfl

section

variable [Codecs] {registry : Registry} {c? : Option Context} {p : Primitive}

/-- Reading depends on the version that a primitive is stamped with, not on its text. -/
theorem Entity.ofPrimitive_restamped {v : Version} (hv : Version.ofText p.version = .ok v) :
    Entity.ofPrimitive registry c? (p.restamped v) = Entity.ofPrimitive registry c? p := by
  have hresolve : (p.restamped v).resolve registry = p.resolve registry := by
    simp only [Primitive.resolve, Primitive.restamped, Version.ofText_text, hv]
  simp only [Entity.ofPrimitive, Primitive.assemble, hresolve]
  rfl

/-- The outcome is such a refusal. -/
def IsSkew {α : Type} (r : Outcome α) : Prop := ∃ err, r = .error err ∧ err.isSkew = true

/-- A primitive that is refused for a version is one of an entity, of a known type, and has
a version itself. -/
theorem Primitive.versioned_of_skew (h : IsSkew (Entity.ofPrimitive registry c? p)) :
    p.space = Primitive.entitySpace ∧ ∃ v newest, Version.ofText p.version = .ok v ∧
      registry.latest p.name = .ok newest := by
  obtain ⟨err, h, herr⟩ := h
  rw [Entity.ofPrimitive, Primitive.assemble] at h
  rcases p.resolve_cases registry with ⟨-, name, hrefused⟩ | ⟨hspace, hresolve⟩
  · rw [hrefused] at h
    cases h
    cases herr
  · refine ⟨hspace, ?_⟩
    rw [hresolve] at h
    cases hv : Version.ofText p.version with
    | error e =>
        obtain rfl := Version.eq_of_ofText_eq_error hv
        rw [hv] at h
        cases h
        cases herr
    | ok v =>
        cases hnewest : registry.latest p.name with
        | ok newest => exact ⟨v, newest, rfl, rfl⟩
        | error e =>
            obtain rfl := Registry.eq_of_latest_eq_error hnewest
            simp only [hv, Except.ok_bind, Registry.resolve, hnewest] at h
            cases h
            cases herr

/-- If the version of a primitive is known, the refusal comes from inside: a field refuses
its document for a version. -/
theorem Entity.exists_skew_of_known (hregistry : registry.WellFormed) {v : Version} {s : Schema}
    (hv : Version.ofText p.version = .ok v) (hknown : registry.resolve p.name v = .ok s)
    (h : IsSkew (Entity.ofPrimitive registry c? p)) : ∃ m f j, s.field? m = some f ∧
      Record.get? p.data m = some j ∧ IsSkew (f.take m (j.reading registry c?)) := by
  have hresolve := Primitive.resolve_eq_ok_iff.mpr ⟨(Primitive.versioned_of_skew h).1, hv, hknown⟩
  have hfields := (hregistry.schemas _ s (Registry.resolve_eq_ok hknown).1).fields
  obtain ⟨err, hread, herr⟩ := h
  simp only [Entity.ofPrimitive, Primitive.assemble, hresolve, Except.ok_bind] at hread
  rw [Entity.fill_eq_gather (e := ⟨s, v, c?, [], []⟩) hfields] at hread
  cases hgather : Record.gather s.fields (fun n f => (Record.get?
      (Json.memberReadings registry c? p.data) n).map (f.take n)) [] with
  | ok values => rw [hgather] at hread; cases hread
  | error err' =>
      rw [hgather] at hread
      cases hread
      obtain ⟨q, hq, hstep⟩ := Record.exists_error_of_gather hgather
      rw [Json.memberReadings_eq, Record.get?_map fun _ j => Json.reading registry c? j,
        Option.map_map, Option.map_eq_some_iff] at hstep
      obtain ⟨j, hj, htake⟩ := hstep
      exact ⟨q.1, q.2, j, Record.get?_of_mem hfields hq, hj, _, htake, herr⟩

namespace Endpoint

/-! ## The protocol -/

/-- What asking for an older form of a primitive comes to, when `err` stands if nobody can be
asked. A refusal is passed on, and an answer is read without further fallbacks. -/
inductive Appeal (n : Endpoint σ) (c? : Option Context) (s : σ) (p : Primitive)
    (err : EntityError) : List Request → Outcome Entity × σ → Prop
  | stands (h : n.authority? = none ∨ n.policy.requestBackport = false) :
      Appeal n c? s p err [] (.error err, s)
  | asks {a : Authority σ} {newest : Schema} {answer : Outcome Primitive} {s' : σ}
      (hauthority : n.authority? = some a) (hpolicy : n.policy.requestBackport = true)
      (hnewest : n.registry.latest p.name = .ok newest)
      (h : a c? p newest.version s = (answer, s')) :
      Appeal n c? s p err [⟨c?, p, newest.version⟩]
        (answer >>= Entity.ofPrimitive n.registry c?, s')

/-- How a primitive is processed: the number of patches dropped, what is asked, and the
outcome. -/
inductive Protocol (n : Endpoint σ) (c? : Option Context) (s : σ) :
    Primitive → Nat → List Request → Outcome Entity × σ → Prop
  | settled {p : Primitive} (h : ¬ IsSkew (Entity.ofPrimitive n.registry c? p)) :
      Protocol n c? s p 0 [] (Entity.ofPrimitive n.registry c? p, s)
  | truncated {p : Primitive} {v : Version} {cuts : Nat} {asked : List Request}
      {out : Outcome Entity × σ} (h : IsSkew (Entity.ofPrimitive n.registry c? p))
      (hv : Version.ofText p.version = .ok v) (hpatch : v.hasPatch = true)
      (htolerate : n.policy.toleratePatch = true)
      (hrest : Protocol n c? s (p.restamped v.truncated) cuts asked out) :
      Protocol n c? s p (cuts + 1) asked out
  | appealed {p : Primitive} {v : Version} {err : EntityError} {asked : List Request}
      {out : Outcome Entity × σ} (h : Entity.ofPrimitive n.registry c? p = .error err)
      (herr : err.isSkew = true) (hv : Version.ofText p.version = .ok v)
      (hkeep : ¬ (v.hasPatch = true ∧ n.policy.toleratePatch = true))
      (happeal : n.Appeal c? s p err asked out) : Protocol n c? s p 0 asked out

variable (n : Endpoint σ)

/-! ## Steps -/

theorem attempt_of_not_skew (h : ¬ IsSkew (Entity.ofPrimitive n.registry c? p))
    (otherwise : Primitive → EntityError → Run σ Entity) (s : σ) :
    n.attempt c? p otherwise s = (Entity.ofPrimitive n.registry c? p, s) := by
  rw [attempt]
  cases hread : Entity.ofPrimitive n.registry c? p with
  | ok e => rfl
  | error err =>
      cases err with
      | incompatibleVersion => exact absurd ⟨_, hread, rfl⟩ h
      | _ => rfl

theorem attempt_of_skew {err : EntityError}
    (h : Entity.ofPrimitive n.registry c? p = .error err) (herr : err.isSkew = true)
    (otherwise : Primitive → EntityError → Run σ Entity) :
    n.attempt c? p otherwise = otherwise p err := by
  rw [attempt, h]
  cases err <;> first | rfl | cases herr

theorem bridgeSkew_eq {v : Version} (hv : Version.ofText p.version = .ok v) (err : EntityError) :
    n.bridgeSkew c? p err = if v.hasPatch ∧ n.policy.toleratePatch then
      n.attempt c? (p.restamped v.truncated) (n.askAuthority c?) else n.askAuthority c? p err := by
  rw [bridgeSkew, hv]
  rfl

/-- Where no patch is dropped, the authority is all that is left. -/
theorem processObject_of_keep {v : Version} (hv : Version.ofText p.version = .ok v)
    (hkeep : ¬ (v.hasPatch = true ∧ n.policy.toleratePatch = true)) :
    n.processObject c? p = n.attempt c? p (n.askAuthority c?) := by
  rw [processObject]
  by_cases h : IsSkew (Entity.ofPrimitive n.registry c? p)
  · obtain ⟨err, hread, herr⟩ := h
    rw [n.attempt_of_skew hread herr, n.attempt_of_skew hread herr, n.bridgeSkew_eq hv,
      if_neg hkeep]
  · funext s
    rw [n.attempt_of_not_skew h, n.attempt_of_not_skew h]

/-- A tolerated patch is dropped, and the rest starts over without it. -/
theorem processObject_restamped {v : Version} (h : IsSkew (Entity.ofPrimitive n.registry c? p))
    (hv : Version.ofText p.version = .ok v) (hpatch : v.hasPatch = true)
    (htolerate : n.policy.toleratePatch = true) :
    n.processObject c? p = n.processObject c? (p.restamped v.truncated) := by
  obtain ⟨err, hread, herr⟩ := h
  have hrest : n.processObject c? (p.restamped v.truncated) =
      n.attempt c? (p.restamped v.truncated) (n.askAuthority c?) :=
    n.processObject_of_keep (p := p.restamped v.truncated) (v := v.truncated)
      (Version.ofText_text _) fun h => Bool.false_ne_true h.1
  rw [hrest, processObject, n.attempt_of_skew hread herr, n.bridgeSkew_eq hv,
    if_pos ⟨hpatch, htolerate⟩]

theorem askAuthority_stands (h : n.authority? = none ∨ n.policy.requestBackport = false)
    (err : EntityError) : n.askAuthority c? p err = throw err := by
  unfold askAuthority
  split
  · next hauthority _ hpolicy =>
      rcases h with h | h
      · rw [h] at hauthority; cases hauthority
      · rw [h] at hpolicy; cases hpolicy
  · rfl

/-- No fallbacks: patches count, and there is nobody to ask. -/
def Strict : Prop :=
  n.policy.toleratePatch = false ∧ (n.authority? = none ∨ n.policy.requestBackport = false)

theorem Strict.processObject_eq {n : Endpoint σ} (h : n.Strict) (c? : Option Context)
    (p : Primitive) : n.processObject c? p = liftM (Entity.ofPrimitive n.registry c? p) := by
  by_cases hskew : IsSkew (Entity.ofPrimitive n.registry c? p)
  · obtain ⟨-, v, -, hv, -⟩ := Primitive.versioned_of_skew hskew
    obtain ⟨err, hread, herr⟩ := hskew
    have hkeep : ¬ (v.hasPatch = true ∧ n.policy.toleratePatch = true) := fun hcut =>
      Bool.false_ne_true (h.1.symm.trans hcut.2)
    rw [n.processObject_of_keep hv hkeep, n.attempt_of_skew hread herr, n.askAuthority_stands h.2,
      hread]
    rfl
  · funext s
    rw [processObject, n.attempt_of_not_skew hskew]
    cases Entity.ofPrimitive n.registry c? p <;> rfl

theorem askAuthority_asks {a : Authority σ} {newest : Schema} (hauthority : n.authority? = some a)
    (hpolicy : n.policy.requestBackport = true) (hnewest : n.registry.latest p.name = .ok newest)
    (err : EntityError) :
    n.askAuthority c? p err =
      (a c? p newest.version >>= fun q => liftM (Entity.ofPrimitive n.registry c? q)) := by
  have htarget : (n.registry.versions p.name).head? = some newest.version := by
    rw [Registry.versions, List.head?_map, Registry.latest_eq_ok_iff.mp hnewest]
    rfl
  rw [askAuthority, hauthority, hpolicy, htarget]

/-! ## The endpoint follows the protocol -/

theorem appeal_of_stands (h : n.authority? = none ∨ n.policy.requestBackport = false)
    (err : EntityError) (s : σ) :
    Logs (n.askAuthority c? p err) (n.logged.askAuthority c? p err) s [] ∧
      n.Appeal c? s p err [] (n.askAuthority c? p err s) := by
  have hlogged : n.logged.authority? = none ∨ n.logged.policy.requestBackport = false :=
    h.imp_left fun h => by rw [logged, h]; rfl
  rw [n.askAuthority_stands h, n.logged.askAuthority_stands hlogged]
  refine ⟨?_, .stands h⟩
  intro log
  rw [List.append_nil]
  rfl

/-- The one request is logged, for the newest known version. -/
theorem appeal_of_asks {a : Authority σ} {newest : Schema} (hauthority : n.authority? = some a)
    (hpolicy : n.policy.requestBackport = true) (hnewest : n.registry.latest p.name = .ok newest)
    (err : EntityError) (s : σ) :
    Logs (n.askAuthority c? p err) (n.logged.askAuthority c? p err) s [⟨c?, p, newest.version⟩] ∧
      n.Appeal c? s p err [⟨c?, p, newest.version⟩] (n.askAuthority c? p err s) := by
  have hlogged : n.logged.authority? = some a.logged := by rw [logged, hauthority]; rfl
  rw [n.askAuthority_asks hauthority hpolicy hnewest,
    n.logged.askAuthority_asks hlogged hpolicy hnewest]
  rcases hanswer : a c? p newest.version s with ⟨r, s'⟩
  have hlog (log : List Request) : a.logged c? p newest.version (s, log) =
      (r, s', log ++ [⟨c?, p, newest.version⟩]) := by
    rw [Authority.logged, hanswer]
  have happeal : n.Appeal c? s p err _ _ := Appeal.asks hauthority hpolicy hnewest hanswer
  cases r with
  | error refusal =>
      constructor
      · intro log
        rw [ExceptT.bind_error (hlog log), ExceptT.bind_error hanswer]
      · rw [ExceptT.bind_error hanswer]
        exact happeal
  | ok q =>
      have hread {τ : Type} (t : τ) :
          (liftM (Entity.ofPrimitive n.registry c? q) : Run τ Entity) t =
            (Entity.ofPrimitive n.registry c? q, t) := by
        cases Entity.ofPrimitive n.registry c? q <;> rfl
      constructor
      · intro log
        rw [ExceptT.bind_ok (hlog log), ExceptT.bind_ok hanswer, hread]
        exact hread _
      · rw [ExceptT.bind_ok hanswer, hread]
        exact happeal

theorem exists_appeal (c? : Option Context) {newest : Schema}
    (hnewest : n.registry.latest p.name = .ok newest)
    (err : EntityError) (s : σ) : ∃ asked,
      Logs (n.askAuthority c? p err) (n.logged.askAuthority c? p err) s asked ∧
        n.Appeal c? s p err asked (n.askAuthority c? p err s) := by
  cases hauthority : n.authority? with
  | none => exact ⟨_, n.appeal_of_stands (Or.inl hauthority) err s⟩
  | some a =>
      cases hpolicy : n.policy.requestBackport with
      | false => exact ⟨_, n.appeal_of_stands (Or.inr hpolicy) err s⟩
      | true => exact ⟨_, n.appeal_of_asks hauthority hpolicy hnewest err s⟩

theorem follows_of_not_skew (h : ¬ IsSkew (Entity.ofPrimitive n.registry c? p)) (s : σ) :
    Logs (n.processObject c? p) (n.logged.processObject c? p) s [] ∧
      n.Protocol c? s p 0 [] (n.processObject c? p s) := by
  rw [processObject, processObject]
  constructor
  · intro log
    rw [n.attempt_of_not_skew h, n.logged.attempt_of_not_skew h, List.append_nil]
    rfl
  · rw [n.attempt_of_not_skew h]
    exact .settled h

/-- Where no patch is dropped, the primitive is settled or appealed. -/
theorem follows_of_keep (c? : Option Context) {v : Version} (hv : Version.ofText p.version = .ok v)
    (hkeep : ¬ (v.hasPatch = true ∧ n.policy.toleratePatch = true)) (s : σ) : ∃ asked,
      Logs (n.processObject c? p) (n.logged.processObject c? p) s asked ∧
        n.Protocol c? s p 0 asked (n.processObject c? p s) := by
  by_cases h : IsSkew (Entity.ofPrimitive n.registry c? p)
  · obtain ⟨err, hread, herr⟩ := h
    obtain ⟨-, -, newest, -, hnewest⟩ := Primitive.versioned_of_skew ⟨err, hread, herr⟩
    obtain ⟨asked, hlogs, happeal⟩ := n.exists_appeal c? hnewest err s
    rw [n.processObject_of_keep hv hkeep, n.logged.processObject_of_keep hv hkeep,
      n.attempt_of_skew hread herr, n.logged.attempt_of_skew hread herr]
    exact ⟨asked, hlogs, .appealed hread herr hv hkeep happeal⟩
  · exact ⟨[], n.follows_of_not_skew h s⟩

/-- Whatever the primitive, the policy and the authority, the protocol is followed. -/
theorem follows (c? : Option Context) (p : Primitive) (s : σ) : ∃ cuts asked,
    Logs (n.processObject c? p) (n.logged.processObject c? p) s asked ∧
      n.Protocol c? s p cuts asked (n.processObject c? p s) := by
  by_cases h : IsSkew (Entity.ofPrimitive n.registry c? p)
  · obtain ⟨-, v, -, hv, -⟩ := Primitive.versioned_of_skew h
    by_cases hcut : v.hasPatch = true ∧ n.policy.toleratePatch = true
    · obtain ⟨asked, hlogs, hprotocol⟩ := n.follows_of_keep c?
        (p := p.restamped v.truncated) (Version.ofText_text _) (fun h => nomatch h.1) s
      rw [n.processObject_restamped h hv hcut.1 hcut.2,
        n.logged.processObject_restamped h hv hcut.1 hcut.2]
      exact ⟨1, asked, hlogs, .truncated h hv hcut.1 hcut.2 hprotocol⟩
    · exact ⟨0, n.follows_of_keep c? hv hcut s⟩
  · exact ⟨0, [], n.follows_of_not_skew h s⟩

end Endpoint

/-! ## What the protocol bounds -/

theorem Endpoint.Appeal.determined {n : Endpoint σ} {s : σ} {err : EntityError}
    {asked asked' : List Request} {out out' : Outcome Entity × σ}
    (h : n.Appeal c? s p err asked out) (h' : n.Appeal c? s p err asked' out') :
    asked' = asked ∧ out' = out := by
  cases h with
  | stands h =>
      cases h' with
      | stands => exact ⟨rfl, rfl⟩
      | asks hauthority hpolicy => simp [hauthority, hpolicy] at h
  | asks hauthority hpolicy hnewest hanswer =>
      cases h' with
      | stands h => simp [hauthority, hpolicy] at h
      | asks hauthority' _ hnewest' hanswer' =>
          cases hauthority.symm.trans hauthority'
          cases hnewest.symm.trans hnewest'
          cases hanswer.symm.trans hanswer'
          exact ⟨rfl, rfl⟩

namespace Endpoint.Protocol

variable {n : Endpoint σ} {s : σ} {cuts : Nat} {asked : List Request} {out : Outcome Entity × σ}

/-- What has been restamped has no patch to drop. -/
theorem cuts_le (h : n.Protocol c? s p cuts asked out) : cuts ≤ 1 := by
  cases h with
  | settled | appealed => exact Nat.zero_le 1
  | truncated _ _ _ _ hrest =>
      cases hrest with
      | settled | appealed => exact Nat.le_refl 1
      | truncated _ hv hpatch =>
          rw [Primitive.restamped, Version.ofText_text] at hv
          cases hv
          cases hpatch

/-- At most one request, for the primitive as it stands, at the newest known version. -/
theorem asked_eq (h : n.Protocol c? s p cuts asked out) : asked = [] ∨
    ∃ q newest, n.registry.latest q.name = .ok newest ∧ asked = [⟨c?, q, newest.version⟩] := by
  induction h with
  | settled => exact Or.inl rfl
  | truncated _ _ _ _ _ ih => exact ih
  | appealed _ _ _ _ happeal =>
      cases happeal with
      | stands => exact Or.inl rfl
      | asks _ _ hnewest => exact Or.inr ⟨_, _, hnewest, rfl⟩

/-- Nothing is asked about a primitive that can be read, with its patch or, where that is
tolerated, without it. -/
theorem asked_eq_nil (h : n.Protocol c? s p cuts asked out)
    (hread : ¬ IsSkew (Entity.ofPrimitive n.registry c? p) ∨
      (n.policy.toleratePatch = true ∧ ∃ v, Version.ofText p.version = .ok v ∧
        ¬ IsSkew (Entity.ofPrimitive n.registry c? (p.restamped v.truncated)))) : asked = [] := by
  cases h with
  | settled => rfl
  | truncated hskew hv _ _ hrest =>
      rcases hread with hread | ⟨-, v, hv', hread⟩
      · exact absurd hskew hread
      · rw [hv] at hv'
        cases hv'
        cases hrest with
        | settled => rfl
        | truncated h => exact absurd h hread
        | appealed h herr => exact absurd ⟨_, h, herr⟩ hread
  | appealed h herr hv hkeep =>
      rcases hread with hread | ⟨htolerate, w, hw, hread⟩
      · exact absurd ⟨_, h, herr⟩ hread
      · obtain rfl : w = _ := Except.ok.inj (hw.symm.trans hv)
        have htruncated : w.truncated = w := Version.truncated_of_no_patch fun hpatch =>
          hkeep ⟨hpatch, htolerate⟩
        rw [htruncated, Entity.ofPrimitive_restamped hv] at hread
        exact absurd ⟨_, h, herr⟩ hread

/-- The protocol leaves no choice. -/
theorem determined (h : n.Protocol c? s p cuts asked out) {cuts' : Nat} {asked' : List Request}
    {out' : Outcome Entity × σ} (h' : n.Protocol c? s p cuts' asked' out') :
    cuts' = cuts ∧ asked' = asked ∧ out' = out := by
  induction h generalizing cuts' with
  | settled hread =>
      cases h' with
      | settled => exact ⟨rfl, rfl, rfl⟩
      | truncated hskew => exact absurd hskew hread
      | appealed h herr => exact absurd ⟨_, h, herr⟩ hread
  | truncated hskew hv hpatch htolerate _ ih =>
      cases h' with
      | settled hread => exact absurd hskew hread
      | truncated _ hv' _ _ hrest =>
          cases hv.symm.trans hv'
          obtain ⟨rfl, rfl, rfl⟩ := ih hrest
          exact ⟨rfl, rfl, rfl⟩
      | appealed _ _ hv' hkeep =>
          cases hv.symm.trans hv'
          exact absurd ⟨hpatch, htolerate⟩ hkeep
  | appealed hread herr hv hkeep happeal =>
      cases h' with
      | settled hsettled => exact absurd ⟨_, hread, herr⟩ hsettled
      | truncated _ hv' hpatch htolerate =>
          cases hv.symm.trans hv'
          exact absurd ⟨hpatch, htolerate⟩ hkeep
      | appealed hread' _ _ _ happeal' =>
          cases hread.symm.trans hread'
          exact ⟨rfl, happeal.determined happeal'⟩

end Endpoint.Protocol

/-- **The fallback protocol.** An endpoint follows the protocol: a primitive that is not
refused for a version is settled; a tolerated patch is dropped and the rest starts over, at
most once; then the authority is asked, at most once and for the newest version of the type,
and not at all about what could be read. -/
theorem Endpoint.processObject_protocol (n : Endpoint σ) (hregistry : n.registry.WellFormed)
    (c? : Option Context) (p : Primitive) (s : σ) : ∃ cuts asked,
      Logs (n.processObject c? p) (n.logged.processObject c? p) s asked ∧
      n.Protocol c? s p cuts asked (n.processObject c? p s) ∧ cuts ≤ 1 ∧ asked.length ≤ 1 ∧
      (∀ r ∈ asked, r.target ∈ n.registry.versions r.primitive.name ∧
        ∀ v ∈ n.registry.versions r.primitive.name, v.rank ≤ r.target.rank) ∧
      (∀ v, IsSkew (Entity.ofPrimitive n.registry c? p) → Version.ofText p.version = .ok v →
        v.hasPatch = true → n.policy.toleratePatch = true →
        n.processObject c? p = n.processObject c? (p.restamped v.truncated)) ∧
      (¬ IsSkew (Entity.ofPrimitive n.registry c? p) ∨ (n.policy.toleratePatch = true ∧
        ∃ v, Version.ofText p.version = .ok v ∧
          ¬ IsSkew (Entity.ofPrimitive n.registry c? (p.restamped v.truncated))) → asked = []) := by
  obtain ⟨cuts, asked, hlogs, hprotocol⟩ := n.follows c? p s
  refine ⟨cuts, asked, hlogs, hprotocol, hprotocol.cuts_le, ?_, ?_,
    fun v h hv hpatch htolerate => n.processObject_restamped h hv hpatch htolerate,
    hprotocol.asked_eq_nil⟩
  · rcases hprotocol.asked_eq with h | ⟨q, newest, -, h⟩ <;> simp [h]
  · rcases hprotocol.asked_eq with rfl | ⟨q, newest, hnewest, rfl⟩
    · exact List.forall_mem_nil _
    · rw [List.forall_mem_singleton]
      refine ⟨?_, hregistry.rank_le_latest hnewest⟩
      exact List.mem_map_of_mem (List.mem_of_head? (Registry.latest_eq_ok_iff.mp hnewest))

/-! ## Primitives of a known version -/

/-- What became of a primitive as it stood: an entity that nobody was asked for follows from
it, and whatever was asked was asked about it. -/
structure Endpoint.Keeps (n : Endpoint σ) (c? : Option Context) (p : Primitive)
    (asked : List Request) (r : Outcome Entity) : Prop where
  read : asked = [] → ∀ e, r = .ok e → Version.ofText p.version = .ok e.version ∧
    n.registry.resolve p.name e.version = .ok e.schema ∧
    ∀ m, e.isSet m = true ↔ m ∈ e.schema.fieldNames ∧ Record.contains p.data m = true
  asked : ∀ q ∈ asked, q.primitive = p

/-- Unless its patch is dropped, a primitive is kept. -/
theorem Endpoint.Protocol.keeps {n : Endpoint σ} {s : σ} {cuts : Nat} {asked : List Request}
    {out : Outcome Entity × σ} (h : n.Protocol c? s p cuts asked out)
    (hregistry : n.registry.WellFormed) {v : Version} (hv : Version.ofText p.version = .ok v)
    (hkeep : ¬ (v.hasPatch = true ∧ n.policy.toleratePatch = true ∧
      IsSkew (Entity.ofPrimitive n.registry c? p))) : n.Keeps c? p asked out.1 := by
  cases h with
  | settled =>
      refine ⟨?_, fun _ h => nomatch h⟩
      intro _ e he
      have hread := (Entity.ofPrimitive_eq_ok_iff hregistry).mp he
      exact ⟨hread.version, hread.schema, hread.isSet_iff⟩
  | truncated hskew hv' hpatch htolerate =>
      cases hv.symm.trans hv'
      exact absurd ⟨hpatch, htolerate, hskew⟩ hkeep
  | appealed _ _ _ _ happeal =>
      cases happeal with
      | stands => exact ⟨fun _ _ he => (nomatch he), fun _ h => (nomatch h)⟩
      | asks => exact ⟨fun h => (nomatch h), fun q hq => List.mem_singleton.mp hq ▸ rfl⟩

/-- Where its patch is dropped, it is the primitive without the patch that is kept. -/
theorem Endpoint.Protocol.keeps_restamped {n : Endpoint σ} {s : σ} {cuts : Nat}
    {asked : List Request} {out : Outcome Entity × σ} (h : n.Protocol c? s p cuts asked out)
    (hregistry : n.registry.WellFormed) {v : Version} (hv : Version.ofText p.version = .ok v)
    (hcut : v.hasPatch = true ∧ n.policy.toleratePatch = true ∧
      IsSkew (Entity.ofPrimitive n.registry c? p)) :
    n.Keeps c? (p.restamped v.truncated) asked out.1 := by
  cases h with
  | settled hread => exact absurd hcut.2.2 hread
  | truncated _ hv' _ _ hrest =>
      cases hv.symm.trans hv'
      exact hrest.keeps hregistry (Version.ofText_text _) fun h => Bool.false_ne_true h.1
  | appealed _ _ hv' hkeep =>
      cases hv.symm.trans hv'
      exact absurd ⟨hcut.1, hcut.2.1⟩ hkeep

/-- **Known versions.** A primitive whose own version the registry knows is kept with its
patch, unless the patch is tolerated and a document nested in it is refused for a version.
Then it is the primitive without its patch that is kept. -/
theorem Endpoint.processObject_known (n : Endpoint σ) (hregistry : n.registry.WellFormed)
    (c? : Option Context) (p : Primitive) (s : σ) (v : Version) (schema : Schema)
    (hv : Version.ofText p.version = .ok v) (hknown : n.registry.resolve p.name v = .ok schema) :
    ∃ asked, Logs (n.processObject c? p) (n.logged.processObject c? p) s asked ∧
      (n.Keeps c? p asked (n.processObject c? p s).1 ∨
        (v.hasPatch = true ∧ n.policy.toleratePatch = true ∧
          (∃ m f j, schema.field? m = some f ∧ Record.get? p.data m = some j ∧
            IsSkew (f.take m (j.reading n.registry c?))) ∧
          n.Keeps c? (p.restamped v.truncated) asked (n.processObject c? p s).1)) := by
  obtain ⟨cuts, asked, hlogs, hprotocol⟩ := n.follows c? p s
  refine ⟨asked, hlogs, ?_⟩
  by_cases hcut : v.hasPatch = true ∧ n.policy.toleratePatch = true ∧
      IsSkew (Entity.ofPrimitive n.registry c? p)
  · refine Or.inr ⟨hcut.1, hcut.2.1, Entity.exists_skew_of_known hregistry hv hknown hcut.2.2, ?_⟩
    exact hprotocol.keeps_restamped hregistry hv hcut
  · exact Or.inl (hprotocol.keeps hregistry hv hcut)

end

/-! ## An orchard

A tree carries a graft from 1.0.1 on. The nursery sends every plant at the version it is asked
for, and counts the requests. -/

namespace Orchard

attribute [local instance] Codecs.none

def graftSchema : Schema :=
  ⟨"Graft", ⟨1, 0, none⟩, [("kind", ⟨.string, false, none⟩)], [], [], none⟩

def firstSchema : Schema :=
  ⟨"Tree", ⟨1, 0, none⟩, [("row", ⟨.integer false, false, none⟩)], [], [], none⟩

def schema : Schema :=
  ⟨"Tree", ⟨1, 0, some 1⟩, [("row", ⟨.integer false, false, none⟩),
    ("graft", ⟨.object "Graft", true, none⟩)], [], [], none⟩

def types : Registry := Registry.empty.registerAll [graftSchema, firstSchema, schema]

def nursery : Authority Nat := fun _ p v count => (.ok (p.restamped v), count + 1)

/-- Of a version that no schema takes, with or without its patch. -/
def seedling : Primitive := ⟨"nova", "Tree", "1.4.2", [("row", .int 3)], []⟩

/-- Of a known version, with a graft of an unknown one. -/
def grafted : Primitive :=
  ⟨"nova", "Tree", "1.0.1", [("row", .int 3), ("graft",
    (⟨"nova", "Graft", "9.0", [("kind", .str "pear")], []⟩ : Primitive).toJson)], []⟩

theorem types_wellFormed : types.WellFormed := by
  refine Registry.wellFormed_empty.registerAll ?_
  simp only [List.forall_mem_cons]
  exact ⟨by decide, by decide, by decide, List.forall_mem_nil _⟩

def endpoint : Endpoint Nat := ⟨types, some nursery, .standard⟩

/-- The nursery is asked once, after the patch of the seedling was dropped. -/
theorem seedling_protocol :
    types.WellFormed ∧ endpoint.processObject none seedling 0 =
        (.ok ⟨schema, ⟨1, 0, some 1⟩, none, [("row", .int 3)], []⟩, 1) ∧
      ∃ cuts asked,
        Logs (endpoint.processObject none seedling) (endpoint.logged.processObject none seedling)
          0 asked ∧
        endpoint.Protocol none 0 seedling cuts asked (endpoint.processObject none seedling 0) ∧
        cuts ≤ 1 ∧ asked.length ≤ 1 := by
  refine ⟨types_wellFormed, rfl, ?_⟩
  obtain ⟨cuts, asked, hlogs, hprotocol, hcuts, hasked, -⟩ :=
    endpoint.processObject_protocol types_wellFormed none seedling 0
  exact ⟨cuts, asked, hlogs, hprotocol, hcuts, hasked⟩

theorem processObject_grafted : endpoint.processObject none grafted 0 =
    (.ok ⟨firstSchema, ⟨1, 0, none⟩, none, [("row", .int 3)], []⟩, 0) := rfl

theorem ofText_grafted : Version.ofText grafted.version = .ok ⟨1, 0, some 1⟩ := rfl

theorem resolve_grafted : types.resolve grafted.name ⟨1, 0, some 1⟩ = .ok schema := rfl

/-- The tree is known, and read without its graft: it is the tree without its patch that is
kept. -/
theorem grafted_known : types.WellFormed ∧ Version.ofText grafted.version = .ok ⟨1, 0, some 1⟩ ∧
    types.resolve grafted.name ⟨1, 0, some 1⟩ = .ok schema ∧ ∃ asked,
      Logs (endpoint.processObject none grafted) (endpoint.logged.processObject none grafted)
        0 asked ∧
      (endpoint.Keeps none grafted asked (endpoint.processObject none grafted 0).1 ∨
        (∃ m f j, schema.field? m = some f ∧ Record.get? grafted.data m = some j ∧
          IsSkew (f.take m (j.reading types none))) ∧
        endpoint.Keeps none (grafted.restamped ⟨1, 0, none⟩) asked
          (endpoint.processObject none grafted 0).1) := by
  obtain ⟨asked, hlogs, hkeeps⟩ := endpoint.processObject_known types_wellFormed none grafted 0
    ⟨1, 0, some 1⟩ schema ofText_grafted resolve_grafted
  exact ⟨types_wellFormed, ofText_grafted, resolve_grafted, asked, hlogs,
    hkeeps.imp_right fun h => h.2.2⟩

/-- A primitive of a known version need not be kept: nobody is asked about the tree, and it is
read at another version, without its graft. -/
theorem not_kept : ¬ ∀ (n : Endpoint Nat) (c? : Option Context) (p : Primitive) (s : Nat)
    (v : Version) (schema : Schema), n.registry.WellFormed → n.policy.toleratePatch = true →
      Version.ofText p.version = .ok v → n.registry.resolve p.name v = .ok schema →
      ∃ asked, Logs (n.processObject c? p) (n.logged.processObject c? p) s asked ∧
        n.Keeps c? p asked (n.processObject c? p s).1 := by
  intro h
  obtain ⟨asked, hlogs, hkeeps⟩ := h endpoint none grafted 0 ⟨1, 0, some 1⟩ schema
    types_wellFormed rfl ofText_grafted resolve_grafted
  have hlogged : endpoint.logged.processObject none grafted (0, []) =
      (.ok ⟨firstSchema, ⟨1, 0, none⟩, none, [("row", .int 3)], []⟩, 0, []) := rfl
  have hasked : asked = [] := congrArg (·.2.2) ((hlogs []).symm.trans hlogged)
  rw [processObject_grafted] at hkeeps
  have hread := (hkeeps.read hasked _ rfl).1
  rw [ofText_grafted] at hread
  cases hread

end Orchard

end Skew

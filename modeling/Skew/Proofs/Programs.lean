import Skew.Proofs.Likeness
import Skew.Routine

/-!
# Methods as programs

A method that computes from its arguments and from an entity, and writes only by
assignment, is a `Program`: at each point it ends, looks at the entity, or assigns and
goes on with what came of that. Whatever assignment preserves, a run preserves
(`Program.run_preserves`).

Programs are alike when no step tells alike entities and values apart. Runs of alike
programs on alike entities end alike (`Program.Alike.run`). Routines without resets are
programs, and such a routine cannot tell its arguments from alike ones
(`Routine.program_alike`).
-/

namespace Skew

inductive Program where
  | done (r : Outcome Value)
  | inspect (next : Entity → Program)
  | assign (field : String) (v : Value) (next : Outcome Unit → Program)

namespace Program

inductive Alike : Program → Program → Prop
  | done {r s : Outcome Value} (h : r.Matching Value.Alike s) : Alike (.done r) (.done s)
  | inspect {f g : Entity → Program} (h : ∀ d e : Entity, d.Alike e → Alike (f d) (g e)) :
      Alike (.inspect f) (.inspect g)
  | assign {n : String} {v w : Value} {f g : Outcome Unit → Program} (hv : v.Alike w)
      (h : ∀ o, Alike (f o) (g o)) : Alike (.assign n v f) (.assign n w g)

section

variable [Codecs]

/-- Performs a program; a refused assignment leaves the entity as it was. -/
def run : Program → Update Value
  | .done r => fun e => (r, e)
  | .inspect next => fun e => (next e).run e
  | .assign n v next => fun e => match e.set n v with
    | .ok e' => (next (.ok ())).run e'
    | .error err => (next (.error err)).run e

theorem run_assign_ok {n : String} {v : Value} {next : Outcome Unit → Program} {e e' : Entity}
    (h : e.set n v = .ok e') : (assign n v next).run e = (next (.ok ())).run e' := by
  simp only [run, h]

theorem run_assign_error {n : String} {v : Value} {next : Outcome Unit → Program} {e : Entity}
    {err : EntityError} (h : e.set n v = .error err) :
    (assign n v next).run e = (next (.error err)).run e := by
  simp only [run, h]

/-- What every assignment preserves, a run preserves. -/
theorem run_preserves {I : Entity → Prop}
    (hset : ∀ e e' n v, I e → e.set n v = .ok e' → I e') (P : Program) {e : Entity} (he : I e) :
    I (P.run e).2 := by
  induction P generalizing e with
  | done r => exact he
  | inspect next ih => exact ih e he
  | assign n v next ih =>
      cases hs : e.set n v with
      | error err => exact run_assign_error hs ▸ ih _ he
      | ok e' => exact run_assign_ok hs ▸ ih _ (hset e e' n v he hs)

theorem run_wellFormed (P : Program) {e : Entity} (he : e.WellFormed) : (P.run e).2.WellFormed :=
  P.run_preserves (fun _ _ _ _ he hs => he.set hs) he

end

end Program

/-- What becomes of an entity that is only assigned to: fields stay set and stay
changed. -/
structure Entity.Grows (e e' : Entity) : Prop where
  schema : e'.schema = e.schema
  version : e'.version = e.version
  context : e'.context? = e.context?
  isSet : ∀ n, e.isSet n = true → e'.isSet n = true
  whatChanged : ∀ n ∈ e.whatChanged, n ∈ e'.whatChanged

section

variable [Codecs]

theorem Entity.Grows.set {e d d' : Entity} {n : String} {v : Value} (h : e.Grows d)
    (hset : d.set n v = .ok d') : e.Grows d' := by
  obtain ⟨f, w, -, -, rfl⟩ := Entity.set_eq_ok_iff.mp hset
  refine ⟨h.schema, h.version, h.context, ?_, ?_⟩
  · intro m hm
    refine (Entity.isSet_storeCoerced d n m w).trans ?_
    rw [h.isSet m hm, Bool.or_true]
  · intro m hm
    exact Entity.mem_whatChanged_assigned.mpr (Or.inr (h.whatChanged m hm))

theorem Program.run_grows (P : Program) (e : Entity) : e.Grows (P.run e).2 :=
  P.run_preserves (fun _ _ _ _ h hs => h.set hs)
    ⟨rfl, rfl, rfl, fun _ h => h, fun _ h => h⟩

/-- Runs of alike programs on alike entities: alike outcomes and alike entities. -/
theorem Program.Alike.run {P Q : Program} (h : P.Alike Q) {d e : Entity} (hde : d.Alike e)
    (hplain : ∀ p ∈ e.schema.fields, p.2.kind.Plain) :
    (P.run d).1.Matching Value.Alike (Q.run e).1 ∧ (P.run d).2.Alike (Q.run e).2 := by
  induction h generalizing d e with
  | done hr => exact ⟨hr, hde⟩
  | inspect _ ih => exact ih d e hde hde hplain
  | @assign n v w f g hv _ ih =>
      have hset := Entity.set_alike hplain hde hv n
      generalize hd : d.set n v = x at hset
      generalize he : e.set n w = y at hset
      cases hset with
      | error err =>
          rw [run_assign_error hd, run_assign_error he]
          exact ih _ hde hplain
      | ok hde' =>
          rw [run_assign_ok hd, run_assign_ok he]
          obtain ⟨f, u, -, -, rfl⟩ := Entity.set_eq_ok_iff.mp he
          exact ih _ hde' hplain

end

/-! ## Arguments -/

/-- Two optional values, both missing or both there and alike. -/
theorem Value.alike_of_map_eq {x y : Option Value}
    (h : x.map (Value.received none) = y.map (Value.received none)) :
    x = none ∧ y = none ∨ ∃ v w, x = some v ∧ y = some w ∧ v.Alike w := by
  cases x with
  | none =>
      cases y with
      | none => exact Or.inl ⟨rfl, rfl⟩
      | some w => cases h
  | some v =>
      cases y with
      | none => cases h
      | some w => exact Or.inr ⟨v, w, rfl, rfl, Option.some.inj h⟩

structure Args.Alike (a b : Args) : Prop where
  context : a.context? = b.context?
  positional : a.positional.map (Value.received none) = b.positional.map (Value.received none)
  named : (a.named.map fun p => (p.1, p.2.received none)) =
    b.named.map fun p => (p.1, p.2.received none)

theorem Args.Alike.get? {a b : Args} (h : a.Alike b) (i : Nat) (n : String) :
    (a.get? i n).map (Value.received none) = (b.get? i n).map (Value.received none) := by
  have hpositional : a.positional[i]?.map (Value.received none) =
      b.positional[i]?.map (Value.received none) := by
    rw [← List.getElem?_map, h.positional, List.getElem?_map]
  have hnamed : (Record.get? a.named n).map (Value.received none) =
      (Record.get? b.named n).map (Value.received none) := by
    rw [← Record.get?_map fun _ => Value.received none, h.named,
      Record.get?_map fun _ => Value.received none]
  simp only [Args.get?, Option.orElse_eq_orElse, Option.orElse_eq_or, Option.map_or,
    hpositional, hnamed]

/-- A method whose programs on alike arguments are alike. -/
def Program.Transparent (body : Args → Program) : Prop :=
  ∀ a b : Args, a.Alike b → (body a).Alike (body b)

/-! ## Routines -/

namespace Update

variable {e e' : Entity} {n : String} {v : Value}

theorem ask_apply {α : Type} (f : Entity → Outcome α) (e : Entity) : ask f e = (f e, e) := by
  have hget : (get : Update Entity) e = (.ok e, e) := rfl
  rw [ask, ExceptT.bind_ok hget]
  cases f e <;> rfl

theorem set_ok [Codecs] (h : e.set n v = .ok e') : Update.set n v e = (.ok (), e') := by
  have hget : (get : Update Entity) e = (.ok e, e) := rfl
  rw [Update.set, ofStep, ExceptT.bind_ok hget, h]
  rfl

theorem set_error [Codecs] {err : EntityError} (h : e.set n v = .error err) :
    Update.set n v e = (.error err, e) := by
  have hget : (get : Update Entity) e = (.ok e, e) := rfl
  rw [Update.set, ofStep, ExceptT.bind_ok hget, h]
  rfl

section

variable [Codecs]

theorem setDefault_apply (n : String) (e : Entity) : setDefault n e =
    match e.schema.field? n with
    | none => (.error (.unknownField e.typeName n), e)
    | some f => match f.default? with
      | none => (.error (.action "set_defaults" (.noDefault n)), e)
      | some d => if e.isSet n then (.ok (), e) else Update.set n d e := by
  have hask := ask_apply (·.schema.requireField n) e
  have hget : (get : Update Entity) e = (.ok e, e) := rfl
  rw [setDefault]
  cases hf : e.schema.field? n with
  | none =>
      have hrequire : e.schema.requireField n = .error (.unknownField e.typeName n) := by
        rw [Schema.requireField, hf]
        rfl
      exact ExceptT.bind_error (hask.trans (by rw [hrequire]))
  | some f =>
      have hrequire : e.schema.requireField n = .ok f := by rw [Schema.requireField, hf]
      rw [ExceptT.bind_ok (hask.trans (by rw [hrequire]))]
      dsimp only
      cases f.default? with
      | none => rfl
      | some d =>
          dsimp only
          rw [ExceptT.bind_ok hget]
          split <;> rfl

theorem setDefaults_apply (names? : Option (List String)) (e : Entity) : setDefaults names? e =
    (names?.getD ((e.schema.fields.filter fun f => f.2.default?.isSome).map (·.1))).forM
      setDefault e := rfl

end

end Update

namespace EntityRun

variable {σ α β : Type} {x : EntityRun σ α} {f : α → EntityRun σ β} {e e' : Entity} {s s' : σ}

theorem bind_ok {a : α} (h : x e s = ((.ok a, e'), s')) : (x >>= f) e s = f a e' s' := by
  show (ExceptT.bindCont f (x e s).1.1 : StateT Entity (StateM σ) (Except EntityError β))
    (x e s).1.2 (x e s).2 = f a e' s'
  rw [h]
  rfl

theorem bind_error {err : EntityError} (h : x e s = ((.error err, e'), s')) :
    (x >>= f) e s = ((.error err, e'), s') := by
  show (ExceptT.bindCont f (x e s).1.1 : StateT Entity (StateM σ) (Except EntityError β))
    (x e s).1.2 (x e s).2 = ((.error err, e'), s')
  rw [h]
  rfl

end EntityRun

theorem Value.Alike.int? {v w : Value} (h : v.Alike w) : v.int? = w.int? := by
  have hreceived (v : Value) : (v.received none).int? = v.int? := by cases v <;> rfl
  rw [← hreceived v, h, hreceived]

/-- Reading alike entities. -/
theorem Entity.Alike.get {d e : Entity} (h : d.Alike e) (n : String) :
    (d.get n).Matching Value.Alike (e.get n) := by
  rw [Entity.get, Entity.get, typeName, typeName, h.schema]
  cases e.schema.requireField n with
  | error err => exact .error err
  | ok f =>
      rw [Except.ok_bind, Except.ok_bind]
      rcases Value.alike_of_map_eq (h.get? n) with ⟨hd, he⟩ | ⟨v, w, hd, he, hvw⟩
      · rw [hd, he]
        exact .error _
      · rw [hd, he]
        exact .ok hvw

theorem Term.eval_alike {a b : Args} (hab : a.Alike b) {d e : Entity} (hde : d.Alike e)
    (t : Term) : (t.eval a d).Matching Value.Alike (t.eval b e) := by
  cases t with
  | argument i n =>
      rw [eval, eval, Args.require, Args.require]
      rcases Value.alike_of_map_eq (hab.get? i n) with ⟨ha, hb⟩ | ⟨v, w, ha, hb, hvw⟩
      · rw [ha, hb]
        exact .error _
      · rw [ha, hb]
        exact .ok hvw
  | optional i n =>
      rw [eval, eval]
      rcases Value.alike_of_map_eq (hab.get? i n) with ⟨ha, hb⟩ | ⟨v, w, ha, hb, hvw⟩
      · rw [ha, hb]
        exact .ok (.refl _)
      · rw [ha, hb]
        exact .ok hvw
  | field n => exact hde.get n
  | successor n =>
      rw [eval, eval]
      exact (hde.get n).bind fun v w hvw => .ok (by rw [hvw.int?]; exact .refl _)
  | itself => exact .ok hde.value
  | requestId =>
      rw [eval, eval, hde.context]
      exact .ok (.refl _)
  | const v => exact .ok (.refl v)

namespace Routine

/-- The program of a routine, its resets left out. -/
def program (args : Args) : List Action → Program
  | [] => .done (.ok .null)
  | .assign f t :: acts => .inspect fun e => match t.eval args e with
    | .ok v => .assign f v fun
      | .ok () => program args acts
      | .error err => .done (.error err)
    | .error err => .done (.error err)
  | .reset _ :: acts => program args acts
  | .fail text :: _ => .done (.error (.transport text))
  | .answer t :: _ => .inspect fun e => .done (t.eval args e)

theorem program_alike (r : Routine) : Program.Transparent fun args => program args r := by
  intro a b hab
  induction r with
  | nil => exact .done (.ok (.refl _))
  | cons act acts ih =>
      cases act with
      | assign f t =>
          refine .inspect ?_
          intro d e hde
          have heval := t.eval_alike hab hde
          revert heval
          generalize t.eval a d = x
          generalize t.eval b e = y
          rintro (⟨hvw⟩ | err)
          · refine .assign hvw ?_
            intro o
            cases o with
            | ok u => exact ih
            | error err => exact .done (.error err)
          · exact .done (.error err)
      | reset deep => exact ih
      | fail text => exact .done (.error _)
      | answer t => exact .inspect fun d e hde => .done (t.eval_alike hab hde)

variable [Codecs]

theorem run_program {r : Routine} (h : ∀ deep, Action.reset deep ∉ r) (args : Args) (e : Entity) :
    (program args r).run e = ((perform args r e).1.map (·.getD .null), (perform args r e).2) := by
  induction r generalizing e with
  | nil => rfl
  | cons act acts ih =>
      have hacts : ∀ deep, Action.reset deep ∉ acts := fun deep hmem =>
        h deep (List.mem_cons_of_mem _ hmem)
      cases act with
      | assign f t =>
          have hask := Update.ask_apply (t.eval args) e
          cases hv : t.eval args e with
          | error err =>
              rw [hv] at hask
              simp only [perform, program, Program.run, hv, ExceptT.bind_error hask]
              rfl
          | ok v =>
              rw [hv] at hask
              cases hset : e.set f v with
              | error err =>
                  simp only [perform, program, Program.run, hv, hset, ExceptT.bind_ok hask,
                    ExceptT.bind_error (Update.set_error hset)]
                  rfl
              | ok e' =>
                  simp only [perform, program, Program.run, hv, hset, ExceptT.bind_ok hask,
                    ExceptT.bind_ok (Update.set_ok hset)]
                  exact ih hacts e'
      | reset deep => exact absurd List.mem_cons_self (h deep)
      | fail text => rfl
      | answer t =>
          have hask := Update.ask_apply (t.eval args) e
          rw [perform, map_eq_pure_bind]
          cases hv : t.eval args e with
          | error err =>
              rw [hv] at hask
              simp only [program, Program.run, hv, ExceptT.bind_error hask]
              rfl
          | ok v =>
              rw [hv] at hask
              simp only [program, Program.run, hv, ExceptT.bind_ok hask]
              rfl

/-- A routine without resets runs as its program. -/
theorem asInstanceMethod_eq {σ : Type} {r : Routine} (h : ∀ deep, Action.reset deep ∉ r)
    (args : Args) :
    r.asInstanceMethod args = (EntityRun.ofUpdate (program args r).run : EntityRun σ Value) := by
  funext e s
  rw [EntityRun.ofUpdate, run_program h, asInstanceMethod]
  rcases hx : perform args r e with ⟨x, e'⟩
  have hperform : (EntityRun.ofUpdate (perform args r) : EntityRun σ (Option Value)) e s =
      ((x, e'), s) := congrArg (·, s) hx
  cases x with
  | error err => exact EntityRun.bind_error hperform
  | ok v? => exact EntityRun.bind_ok hperform

end Routine

end Skew

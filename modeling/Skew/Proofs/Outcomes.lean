import Mathlib.Data.List.Forall2
import Skew.Value.Coercion

/-!
# Outcomes in sequence

When a step, a chain of steps or a pass over a list succeeds. A pass succeeds
exactly when every element does, and its result stands element by element beside
what it came from (`List.mapM_eq_ok_iff`), so two passes after one another are
compared one element at a time.
-/

namespace Except

variable {ε ε' α β : Type}

theorem map_eq_ok_iff {f : α → β} {x : Except ε α} {b : β} :
    x.map f = .ok b ↔ ∃ a, x = .ok a ∧ f a = b := by
  cases x with
  | error err => simp [Except.map]
  | ok a => simp [Except.map]

theorem exists_map_eq_ok_iff {f : α → β} {x : Except ε α} :
    (∃ b, x.map f = .ok b) ↔ ∃ a, x = .ok a := by
  cases x with
  | error err => simp [Except.map]
  | ok a => simp [Except.map]

theorem exists_eq_error_iff {x : Except ε α} : (∃ err, x = .error err) ↔ ¬ ∃ a, x = .ok a := by
  cases x with
  | error err => simp
  | ok a => simp

theorem bind_eq_ok_iff {f : α → Except ε β} {x : Except ε α} {b : β} :
    (x >>= f) = .ok b ↔ ∃ a, x = .ok a ∧ f a = .ok b := by
  cases x with
  | error err => simp [bind, Except.bind]
  | ok a => simp [bind, Except.bind]

theorem mapError_eq_ok_iff {f : ε → ε'} {x : Except ε α} {a : α} :
    x.mapError f = .ok a ↔ x = .ok a := by
  cases x with
  | error err => simp [Except.mapError]
  | ok b => simp [Except.mapError]

@[simp] theorem ok_bind (a : α) (f : α → Except ε β) : (Except.ok a >>= f) = f a := rfl

@[simp] theorem ok_map (f : α → β) (a : α) : (Except.ok a : Except ε α).map f = .ok (f a) := rfl

@[simp] theorem mapError_ok (f : ε → ε') (a : α) :
    (Except.ok a : Except ε α).mapError f = .ok a := rfl

/-! ## Outcomes side by side -/

variable {γ δ : Type}

/-- Both succeed, with related results, or both fail in the same way. -/
inductive Matching (R : α → β → Prop) : Except ε α → Except ε β → Prop
  | ok {a : α} {b : β} (h : R a b) : Matching R (.ok a) (.ok b)
  | error (err : ε) : Matching R (.error err) (.error err)

namespace Matching

variable {R : α → β → Prop} {x : Except ε α} {y : Except ε β}

theorem bind {S : γ → δ → Prop} {f : α → Except ε γ} {g : β → Except ε δ}
    (h : Matching R x y) (hfg : ∀ a b, R a b → Matching S (f a) (g b)) :
    Matching S (x >>= f) (y >>= g) := by
  cases h with
  | ok hab => exact hfg _ _ hab
  | error err => exact .error err

theorem map {S : γ → δ → Prop} {f : α → γ} {g : β → δ} (h : Matching R x y)
    (hfg : ∀ a b, R a b → S (f a) (g b)) : Matching S (x.map f) (y.map g) := by
  cases h with
  | ok hab => exact .ok (hfg _ _ hab)
  | error err => exact .error err

theorem imp {S : α → β → Prop} (h : Matching R x y) (hRS : ∀ a b, R a b → S a b) :
    Matching S x y := by
  cases h with
  | ok hab => exact .ok (hRS _ _ hab)
  | error err => exact .error err

theorem of_self {S : α → α → Prop} (h : ∀ a, x = .ok a → S a a) : Matching S x x := by
  cases x with
  | ok a => exact .ok (h a rfl)
  | error err => exact .error err

theorem mapError (h : Matching R x y) (f : ε → ε') :
    Matching R (x.mapError f) (y.mapError f) := by
  cases h with
  | ok hab => exact .ok hab
  | error err => exact .error (f err)

theorem eq_error_iff (h : Matching R x y) {err : ε} : x = .error err ↔ y = .error err := by
  cases h with
  | ok hab => exact iff_of_false nofun nofun
  | error err' => rw [Except.error.injEq, Except.error.injEq]

theorem exists_of_ok {a : α} (h : Matching R (.ok a) y) : ∃ b, y = .ok b ∧ R a b := by
  cases h with
  | ok hab => exact ⟨_, rfl, hab⟩

/-- Outcomes match as their images do. -/
theorem of_map {S : γ → δ → Prop} {f : α → γ} {g : β → δ} (h : Matching S (x.map f) (y.map g)) :
    Matching (fun a b => S (f a) (g b)) x y := by
  cases x with
  | error err =>
      cases y <;> cases h
      exact .error err
  | ok a =>
      cases y <;> cases h
      exact .ok ‹_›

/-- Outcomes that a function makes equal have results that it makes equal. -/
theorem of_map_eq {f : α → γ} {x y : Except ε α} (h : x.map f = y.map f) :
    Matching (fun a b => f a = f b) x y := by
  cases x with
  | error err =>
      cases y with
      | error err' => cases h; exact .error err
      | ok b => cases h
  | ok a =>
      cases y with
      | error err' => cases h
      | ok b => exact .ok (Except.ok.inj h)

end Matching

end Except

/-! ## Outcomes on a state -/

namespace ExceptT

variable {ε τ α β : Type} {x : ExceptT ε (StateM τ) α} {f : α → ExceptT ε (StateM τ) β} {s s' : τ}

theorem bind_ok {a : α} (h : x s = (.ok a, s')) : (x >>= f) s = f a s' := by
  show (ExceptT.bindCont f (x s).1 : StateM τ (Except ε β)) (x s).2 = f a s'
  rw [h]
  rfl

theorem bind_error {err : ε} (h : x s = (.error err, s')) : (x >>= f) s = (.error err, s') := by
  show (ExceptT.bindCont f (x s).1 : StateM τ (Except ε β)) (x s).2 = (.error err, s')
  rw [h]
  rfl

theorem bind_eq_ok_iff {b : β} :
    (x >>= f) s = (.ok b, s') ↔ ∃ a t, x s = (.ok a, t) ∧ f a t = (.ok b, s') := by
  constructor
  · intro h
    rcases hx : x s with ⟨err | a, t⟩
    · rw [bind_error hx] at h
      cases h
    · rw [bind_ok hx] at h
      exact ⟨a, t, rfl, h⟩
  · rintro ⟨a, t, hx, hf⟩
    rw [bind_ok hx, hf]

/-- An outcome leaves the state alone. -/
theorem liftM_eq_ok_iff {r : Except ε α} {a : α} :
    (liftM r : ExceptT ε (StateM τ) α) s = (.ok a, s') ↔ r = .ok a ∧ s' = s := by
  cases r with
  | error err =>
      constructor
      · intro h
        cases h
      · rintro ⟨h, -⟩
        cases h
  | ok b =>
      constructor
      · intro h
        cases h
        exact ⟨rfl, rfl⟩
      · rintro ⟨h, rfl⟩
        cases h
        rfl

/-- A loop goes through exactly when its first step and the rest do, one after another. -/
theorem forM_cons_eq_ok_iff {act : α → ExceptT ε (StateM τ) Unit} {a : α} {as : List α} :
    (a :: as).forM act s = (.ok (), s') ↔
      ∃ t, act a s = (.ok (), t) ∧ as.forM act t = (.ok (), s') := by
  show (act a >>= fun _ => as.forM act) s = (.ok (), s') ↔ _
  rw [bind_eq_ok_iff]
  constructor
  · rintro ⟨_, t, ha, has⟩
    exact ⟨t, ha, has⟩
  · rintro ⟨t, ha, has⟩
    exact ⟨(), t, ha, has⟩

/-- A loop fails at the first step that fails, in the state that the steps before it left. -/
theorem forM_eq_error_iff {act : α → ExceptT ε (StateM τ) Unit} {as : List α} {err : ε} :
    as.forM act s = (.error err, s') ↔ ∃ before a after t, as = before ++ a :: after ∧
      before.forM act s = (.ok (), t) ∧ act a t = (.error err, s') := by
  constructor
  · intro h
    induction as generalizing s with
    | nil => cases h
    | cons a as ih =>
        change (act a >>= fun _ => as.forM act) s = _ at h
        rcases ha : act a s with ⟨e | u, t⟩
        · rw [bind_error ha] at h
          exact ⟨[], a, as, s, rfl, rfl, ha.trans h⟩
        · rw [bind_ok ha] at h
          obtain ⟨before, b, after, t', rfl, hbefore, hb⟩ := ih h
          exact ⟨a :: before, b, after, t', rfl, forM_cons_eq_ok_iff.mpr ⟨t, ha, hbefore⟩, hb⟩
  · rintro ⟨before, a, after, t, rfl, hbefore, ha⟩
    induction before generalizing s with
    | nil =>
        cases hbefore
        exact bind_error ha
    | cons b before ih =>
        obtain ⟨t', hb, hrest⟩ := forM_cons_eq_ok_iff.mp hbefore
        exact (bind_ok hb).trans (ih hrest)

end ExceptT

namespace List

variable {ε α β γ : Type}

theorem map_eq_map_iff_forall₂ {f : α → γ} {g : β → γ} {xs : List α} {ys : List β} :
    xs.map f = ys.map g ↔ Forall₂ (fun x y => f x = g y) xs ys := by
  rw [← forall₂_eq_eq_eq, forall₂_map_left_iff, forall₂_map_right_iff]

/-- Where each element has a partner, the partners form a list beside it. -/
theorem exists_forall₂ {R : α → β → Prop} :
    ∀ {xs : List α}, (∀ x ∈ xs, ∃ y, R x y) → ∃ ys, Forall₂ R xs ys
  | [], _ => ⟨[], .nil⟩
  | x :: xs, h => by
      obtain ⟨y, hy⟩ := h x mem_cons_self
      obtain ⟨ys, hys⟩ := exists_forall₂ fun z hz => h z (mem_cons_of_mem _ hz)
      exact ⟨y :: ys, .cons hy hys⟩

/-- Lists side by side have a third beside both, if that holds of each pair. -/
theorem exists_forall₂_of_forall₂ {R : α → β → Prop} {S : β → γ → Prop} {T : α → γ → Prop}
    {xs : List α} {ys : List β} (h : Forall₂ R xs ys)
    (hpair : ∀ x ∈ xs, ∀ y, R x y → ∃ z, S y z ∧ T x z) :
    ∃ zs, Forall₂ S ys zs ∧ Forall₂ T xs zs := by
  induction h with
  | nil => exact ⟨[], .nil, .nil⟩
  | @cons x y xs ys hxy _ ih =>
      obtain ⟨hx, hxs⟩ := forall_mem_cons.mp hpair
      obtain ⟨z, hyz, hxz⟩ := hx y hxy
      obtain ⟨zs, hys, hzs⟩ := ih hxs
      exact ⟨z :: zs, .cons hyz hys, .cons hxz hzs⟩

/-- Lists beside the same list are beside each other, up to what the pairs give. -/
theorem forall₂_of_forall₂ {R : α → β → Prop} {S : β → γ → Prop} {T : α → γ → Prop}
    {xs : List α} {ys : List β} {zs : List γ} (hxy : Forall₂ R xs ys) (hyz : Forall₂ S ys zs)
    (h : ∀ x ∈ xs, ∀ y z, R x y → S y z → T x z) : Forall₂ T xs zs := by
  induction hxy generalizing zs with
  | nil =>
      cases hyz
      exact .nil
  | cons hx _ ih =>
      obtain ⟨hhead, htail⟩ := forall_mem_cons.mp h
      cases hyz with
      | cons hy hys => exact .cons (hhead _ _ hx hy) (ih hys htail)

/-- Lists that come from others element by element stand side by side as those do. -/
theorem forall₂_congr_forall₂ {δ : Type} {R : α → γ → Prop} {S : β → δ → Prop}
    {E : γ → δ → Prop} {T : α → β → Prop} {xs : List α} {is : List γ} {ys : List β} {js : List δ}
    (hx : Forall₂ R xs is) (hy : Forall₂ S ys js)
    (h : ∀ x ∈ xs, ∀ y ∈ ys, ∀ i j, R x i → S y j → (E i j ↔ T x y)) :
    Forall₂ E is js ↔ Forall₂ T xs ys := by
  induction hx generalizing ys js with
  | nil => cases hy <;> simp
  | cons hxi _ ih =>
      cases hy with
      | nil => simp
      | cons hyj hys =>
          have hhead := h _ mem_cons_self _ mem_cons_self _ _ hxi hyj
          have htail := ih hys fun x hx y hy => h x (mem_cons_of_mem _ hx) y (mem_cons_of_mem _ hy)
          rw [forall₂_cons, forall₂_cons, hhead, htail]

theorem mapM_eq_ok_iff {f : α → Except ε β} {xs : List α} {ys : List β} :
    xs.mapM f = .ok ys ↔ Forall₂ (fun x y => f x = .ok y) xs ys := by
  induction xs generalizing ys with
  | nil =>
      rw [mapM_nil, forall₂_nil_left_iff]
      exact ⟨fun h => (Except.ok.inj h).symm, fun h => h ▸ rfl⟩
  | cons x xs ih =>
      rw [mapM_cons, Except.bind_eq_ok_iff, forall₂_cons_left_iff]
      constructor
      · rintro ⟨y, hy, h⟩
        obtain ⟨zs, hzs, h⟩ := Except.bind_eq_ok_iff.mp h
        cases h
        exact ⟨y, zs, hy, ih.mp hzs, rfl⟩
      · rintro ⟨y, zs, hy, hzs, rfl⟩
        exact ⟨y, hy, Except.bind_eq_ok_iff.mpr ⟨zs, ih.mpr hzs, rfl⟩⟩

/-- Each element on the right has one on the left. -/
theorem exists_of_mem_forall₂ {R : α → β → Prop} {xs : List α} {ys : List β}
    (h : Forall₂ R xs ys) {y : β} (hy : y ∈ ys) : ∃ x ∈ xs, R x y := by
  induction h with
  | nil => cases hy
  | @cons x z _ _ hz _ ih =>
      rcases mem_cons.mp hy with rfl | hy
      · exact ⟨x, mem_cons_self, hz⟩
      · obtain ⟨x, hx, hxy⟩ := ih hy
        exact ⟨x, mem_cons_of_mem _ hx, hxy⟩

theorem Forall₂.exists_mem_zip {R : α → β → Prop} {xs : List α} {ys : List β}
    (h : Forall₂ R xs ys) {x : α} (hx : x ∈ xs) : ∃ y, (x, y) ∈ xs.zip ys := by
  induction h with
  | nil => cases hx
  | @cons _ y _ _ _ _ ih =>
      rcases mem_cons.mp hx with rfl | hx
      · exact ⟨y, mem_cons_self⟩
      · exact (ih hx).imp fun _ hz => mem_cons_of_mem _ hz

theorem Forall₂.exists_mem_zip_right {R : α → β → Prop} {xs : List α}
    {ys : List β} (h : Forall₂ R xs ys) {y : β} (hy : y ∈ ys) : ∃ x, (x, y) ∈ xs.zip ys := by
  induction h with
  | nil => cases hy
  | @cons x _ _ _ _ _ ih =>
      rcases mem_cons.mp hy with rfl | hy
      · exact ⟨x, mem_cons_self⟩
      · exact (ih hy).imp fun _ hz => mem_cons_of_mem _ hz

/-- A pass succeeds exactly when every element does. -/
theorem exists_mapM_eq_ok_iff {f : α → Except ε β} {xs : List α} :
    (∃ ys, xs.mapM f = .ok ys) ↔ ∀ x ∈ xs, ∃ y, f x = .ok y := by
  constructor
  · rintro ⟨ys, h⟩ x hx
    obtain ⟨y, -, hy⟩ := exists_of_mem_forall₂ (mapM_eq_ok_iff.mp h).flip hx
    exact ⟨y, hy⟩
  · intro h
    obtain ⟨ys, hys⟩ := exists_forall₂ h
    exact ⟨ys, mapM_eq_ok_iff.mpr hys⟩

/-- A pass fails as the first element does that fails. -/
theorem mapM_eq_error_iff {f : α → Except ε β} {xs : List α} {err : ε} :
    xs.mapM f = .error err ↔ ∃ before x after, xs = before ++ x :: after ∧
      (∀ y ∈ before, ∃ z, f y = .ok z) ∧ f x = .error err := by
  constructor
  · intro h
    induction xs with
    | nil => cases h
    | cons x xs ih =>
        rw [mapM_cons] at h
        cases hx : f x with
        | error e =>
            rw [hx] at h
            cases h
            exact ⟨[], x, xs, rfl, nofun, hx⟩
        | ok y =>
            cases hxs : xs.mapM f with
            | error e =>
                rw [hx, hxs] at h
                cases h
                obtain ⟨before, w, after, rfl, hbefore, hw⟩ := ih hxs
                exact ⟨x :: before, w, after, rfl, forall_mem_cons.mpr ⟨⟨y, hx⟩, hbefore⟩, hw⟩
            | ok ys =>
                rw [hx, hxs] at h
                cases h
  · rintro ⟨before, x, after, rfl, hbefore, hx⟩
    obtain ⟨ys, hys⟩ := exists_mapM_eq_ok_iff.mpr hbefore
    rw [mapM_append, hys, mapM_cons, hx]
    rfl

/-- What a pass yields comes from an element. -/
theorem exists_of_mem_mapM {f : α → Except ε β} {xs : List α} {ys : List β}
    (h : xs.mapM f = .ok ys) {y : β} (hy : y ∈ ys) : ∃ x ∈ xs, f x = .ok y :=
  exists_of_mem_forall₂ (mapM_eq_ok_iff.mp h) hy

/-- A pass gives the list back exactly when each element gives itself. -/
theorem mapM_eq_self_iff {f : α → Except ε α} {xs : List α} :
    xs.mapM f = .ok xs ↔ ∀ x ∈ xs, f x = .ok x :=
  mapM_eq_ok_iff.trans forall₂_same

/-- Steps that agree on every element make the same pass. -/
theorem mapM_congr_left {f g : α → Except ε β} {xs : List α} (h : ∀ x ∈ xs, f x = g x) :
    xs.mapM f = xs.mapM g := by
  induction xs with
  | nil => rfl
  | cons x xs ih =>
      obtain ⟨hx, hxs⟩ := forall_mem_cons.mp h
      rw [mapM_cons, mapM_cons, hx, ih hxs]

/-- A pass succeeds in the same way with steps that succeed where its own do. -/
theorem mapM_eq_ok_of_imp {f g : α → Except ε β} {xs : List α} {ys : List β}
    (h : xs.mapM f = .ok ys) (hfg : ∀ x ∈ xs, ∀ y, f x = .ok y → g x = .ok y) :
    xs.mapM g = .ok ys :=
  mapM_eq_ok_iff.mpr <| ((forall₂_and_left xs ys).mpr ⟨hfg, mapM_eq_ok_iff.mp h⟩).imp
    fun _ y hxy => hxy.1 y hxy.2

theorem mapM_map_eq_ok {f : α → Except ε β} {g : γ → α} {h : γ → β} {xs : List γ}
    (hf : ∀ x ∈ xs, f (g x) = .ok (h x)) : (xs.map g).mapM f = .ok (xs.map h) := by
  rw [mapM_eq_ok_iff, forall₂_map_left_iff, forall₂_map_right_iff, forall₂_same]
  exact hf

/-- A pass over images is the image of a pass, when the steps are. -/
theorem mapM_map_comm {α' β' : Type} {f : α → Except ε β} {f' : α' → Except ε β'} {g : α → α'}
    {h : β → β'} {xs : List α} (hfg : ∀ x ∈ xs, f' (g x) = (f x).map h) :
    (xs.map g).mapM f' = (xs.mapM f).map (List.map h) := by
  induction xs with
  | nil => rfl
  | cons x xs ih =>
      obtain ⟨hx, hxs⟩ := forall_mem_cons.mp hfg
      rw [map_cons, mapM_cons, mapM_cons, hx, ih hxs]
      cases f x with
      | error err => rfl
      | ok y => cases xs.mapM f <;> rfl

/-- A first pass, and a second one that answers for the elements the first came from. -/
theorem mapM_mapM_eq_ok {f : α → Except ε β} {g : β → Except ε γ} {h : α → γ} {xs : List α}
    (hfg : ∀ x ∈ xs, ∃ y, f x = .ok y ∧ g y = .ok (h x)) :
    ∃ ys, xs.mapM f = .ok ys ∧ ys.mapM g = .ok (xs.map h) := by
  obtain ⟨ys, hys⟩ := exists_forall₂ hfg
  refine ⟨ys, mapM_eq_ok_iff.mpr (hys.imp fun _ _ hxy => hxy.1), mapM_eq_ok_iff.mpr ?_⟩
  rw [forall₂_map_right_iff]
  exact (hys.imp fun _ _ hxy => hxy.2).flip

/-- Passes whose steps match give lists side by side. -/
theorem mapM_matching {δ : Type} {R : β → δ → Prop} {f : α → Except ε β} {g : γ → Except ε δ}
    {xs : List α} {zs : List γ} (h : Forall₂ (fun x z => (f x).Matching R (g z)) xs zs) :
    (xs.mapM f).Matching (Forall₂ R) (zs.mapM g) := by
  induction h with
  | nil => exact .ok .nil
  | cons hxz _ ih =>
      rw [mapM_cons, mapM_cons]
      refine hxz.bind fun y w hyw => ih.bind fun ys ws hys => ?_
      exact .ok (.cons hyw hys)

/-- A pass in which nothing happens. -/
theorem mapM_eq_pure {m : Type → Type} [Monad m] [LawfulMonad m] {f : α → m β} {g : α → β}
    {xs : List α} (h : ∀ x ∈ xs, f x = pure (g x)) : xs.mapM f = pure (xs.map g) := by
  induction xs with
  | nil => rfl
  | cons x xs ih =>
      obtain ⟨hx, hxs⟩ := forall_mem_cons.mp h
      rw [mapM_cons, hx, pure_bind, ih hxs, pure_bind, map_cons]

end List

namespace Skew

theorem mapEntriesM_eq_self_iff {α ε : Type} {f : α → Except ε α} {es : List (String × α)} :
    mapEntriesM f es = .ok es ↔ ∀ e ∈ es, f e.2 = .ok e.2 := by
  rw [mapEntriesM, List.mapM_eq_self_iff]
  refine forall₂_congr ?_
  intro e _
  rw [Except.map_eq_ok_iff]
  constructor
  · rintro ⟨a, ha, he⟩
    rw [ha, ← he]
  · intro h
    exact ⟨e.2, h, rfl⟩

theorem exists_mapEntriesM_eq_ok_iff {α β ε : Type} {f : α → Except ε β}
    {es : List (String × α)} :
    (∃ ds, mapEntriesM f es = .ok ds) ↔ ∀ e ∈ es, ∃ b, f e.2 = .ok b :=
  List.exists_mapM_eq_ok_iff.trans (forall₂_congr fun _ _ => Except.exists_map_eq_ok_iff)

theorem exists_of_mem_mapEntriesM {α β ε : Type} {f : α → Except ε β} {es : List (String × α)}
    {ds : List (String × β)} (h : mapEntriesM f es = .ok ds) {d : String × β} (hd : d ∈ ds) :
    ∃ e ∈ es, f e.2 = .ok d.2 := by
  obtain ⟨e, he, hed⟩ := List.exists_of_mem_mapM h hd
  obtain ⟨b, hb, rfl⟩ := Except.map_eq_ok_iff.mp hed
  exact ⟨e, he, hb⟩

theorem mapEntriesM_congr {α β ε : Type} {f g : α → Except ε β} {es : List (String × α)}
    (h : ∀ e ∈ es, f e.2 = g e.2) : mapEntriesM f es = mapEntriesM g es :=
  List.mapM_congr_left fun e he => congrArg (Except.map (e.1, ·)) (h e he)

theorem mapEntriesM_map {α β γ ε : Type} (f : β → Except ε γ) (g : α → β)
    (es : List (String × α)) :
    mapEntriesM f (es.map fun e => (e.1, g e.2)) = mapEntriesM (fun a => f (g a)) es := by
  rw [mapEntriesM, mapEntriesM, List.mapM_map]
  rfl

theorem mapEntriesM_map_comm {α α' β β' ε : Type} {f : α → Except ε β} {f' : α' → Except ε β'}
    {g : α → α'} {h : β → β'} {es : List (String × α)}
    (hfg : ∀ e ∈ es, f' (g e.2) = (f e.2).map h) :
    mapEntriesM f' (es.map fun e => (e.1, g e.2)) =
      (mapEntriesM f es).map (List.map fun e => (e.1, h e.2)) := by
  refine List.mapM_map_comm ?_
  intro e he
  rw [hfg e he]
  cases f e.2 <;> rfl

/-- Two passes over entries, where the second answers for the contents that the first
came from. -/
theorem mapEntriesM_mapEntriesM_eq_ok {α β γ ε : Type} {f : α → Except ε β}
    {g : β → Except ε γ} {h : α → γ} {es : List (String × α)}
    (hfg : ∀ e ∈ es, ∃ b, f e.2 = .ok b ∧ g b = .ok (h e.2)) :
    ∃ ds, mapEntriesM f es = .ok ds ∧ mapEntriesM g ds = .ok (es.map fun e => (e.1, h e.2)) := by
  refine List.mapM_mapM_eq_ok ?_
  intro e he
  obtain ⟨b, hf, hg⟩ := hfg e he
  exact ⟨(e.1, b), by rw [hf, Except.ok_map], by rw [hg, Except.ok_map]⟩

@[simp] theorem inField_ok {α : Type} (name : String) (a : α) :
    inField name (.ok a) = .ok a := rfl

theorem inField_eq_ok_iff {α : Type} {name : String} {r : Except ValueFault α} {a : α} :
    inField name r = .ok a ↔ r = .ok a :=
  Except.mapError_eq_ok_iff

end Skew

import Mathlib.Data.List.Induction
import Mathlib.Data.List.TakeWhile
import Skew.Format.Address
import Skew.Format.Uuid
import Skew.Proofs.Decimals

/-!
# Canonical texts

A UUID and an address can be spelled in several ways and are stored in one. What is
written is read back as what was written, so the canonical text of a canonical text is
that text (`Uuid.normalize?_of_normalize?`, `normalizeAddress?_of_normalizeAddress?`).

Both readers are greedy. A piece is read back from the front of a longer text because
what follows it, a separator or the end, is nothing that the reader of the piece takes.
-/

/-- A greedy reader takes a piece off the front if it must stop behind it. -/
theorem List.takeWhile_append_of_stop {α : Type} {p : α → Bool} {l r : List α}
    (hl : ∀ a ∈ l, p a = true) (hr : ∀ a ∈ r.head?, p a = false) :
    (l ++ r).takeWhile p = l := by
  rw [takeWhile_append_of_pos hl]
  cases r with
  | nil => simp
  | cons a r => simp [hr a rfl]

namespace Skew.Text

/-! ## Hexadecimal digits -/

theorem hexValue?_digitChar : ∀ d < 16, hexValue? d.digitChar = some d := by decide

theorem hexDigit_eq_digitChar : ∀ d < 16, hexDigit d = d.digitChar := by decide

theorem hexValue?_hexDigit {d : Nat} (h : d < 16) : hexValue? (hexDigit d) = some d := by
  rw [hexDigit_eq_digitChar d h, hexValue?_digitChar d h]

theorem hexValue?_lt {c : Char} {d : Nat} (h : hexValue? c = some d) : d < 16 := by
  unfold hexValue? at h
  simp only [Char.le_def, UInt32.le_iff_toNat_le] at h
  split at h
  · next hc => cases h; have : c.toNat ≤ 57 := hc.2; omega
  · split at h
    · next hc => cases h; have : c.toNat ≤ 102 := hc.2; omega
    · split at h
      · next hc => cases h; have : c.toNat ≤ 70 := hc.2; omega
      · cases h

theorem ofHex_concat (ds : List Char) (c : Char) :
    ofHex (ds ++ [c]) = 16 * ofHex ds + (hexValue? c).getD 0 := by
  rw [ofHex, List.foldl_append]
  rfl

theorem ofHex_lt (ds : List Char) : ofHex ds < 16 ^ ds.length := by
  induction ds using List.reverseRecOn with
  | nil => decide
  | append_singleton ds c ih =>
      have hc : (hexValue? c).getD 0 < 16 := by
        cases h : hexValue? c with
        | none => decide
        | some d => exact hexValue?_lt h
      rw [ofHex_concat, List.length_append, List.length_singleton, Nat.pow_succ]
      omega

/-- The written digits of a number are digits, and denote the number. -/
theorem toDigits_spec (n : Nat) :
    (∀ c ∈ Nat.toDigits 16 n, (hexValue? c).isSome = true) ∧ ofHex (Nat.toDigits 16 n) = n := by
  induction n using Nat.strongRecOn with
  | _ n ih =>
      rw [Nat.toDigits_eq_if (by decide)]
      split
      · next hlt => simp [ofHex, hexValue?_digitChar n hlt]
      · next hge =>
          obtain ⟨hdigits, hvalue⟩ := ih (n / 16) (by omega)
          have hlast := hexValue?_digitChar (n % 16) (by omega)
          constructor
          · intro c hc
            rcases List.mem_append.mp hc with hc | hc
            · exact hdigits c hc
            · rw [List.mem_singleton.mp hc, hlast]
              rfl
          · rw [ofHex_concat, hvalue, hlast, Option.getD_some]
            omega

end Skew.Text

namespace Skew.Format

open Skew.Text Skew.Decimal

/-! ## UUIDs -/

namespace Uuid

theorem length_of_ungroup? {ns : List Nat} {s ds : List Char} (h : ungroup? ns s = some ds) :
    ds.length = ns.sum := by
  induction ns generalizing s ds with
  | nil =>
      unfold ungroup? at h
      split at h
      · cases h; rfl
      · cases h
  | cons n more ih =>
      cases more with
      | nil =>
          unfold ungroup? at h
          split at h
          · next hn => cases h; simpa using hn
          · cases h
      | cons m more =>
          unfold ungroup? at h
          split at h
          · next rest hrest =>
              obtain ⟨tail, htail, rfl⟩ := Option.map_eq_some_iff.mp h
              have hn : n < s.length := by
                by_contra hn
                rw [List.drop_eq_nil_of_le (by omega)] at hrest
                cases hrest
              rw [List.length_append, List.length_take, ih htail, List.sum_cons (a := n),
                min_eq_left (Nat.le_of_lt hn)]
          · cases h

/-- Digits that were grouped are ungrouped again. -/
theorem ungroup?_regroup {ns : List Nat} {ds : List Char} (h : ds.length = ns.sum) :
    ungroup? ns (regroup ns ds) = some ds := by
  induction ns generalizing ds with
  | nil => rw [List.length_eq_zero_iff.mp h]; rfl
  | cons n more ih =>
      cases more with
      | nil => exact if_pos h
      | cons m more =>
          rw [List.sum_cons] at h
          have htake : (ds.take n).length = n := List.length_take_of_le (by omega)
          have hrest : (ds.drop n).length = (m :: more).sum := by rw [List.length_drop]; omega
          rw [regroup, ungroup?, List.drop_left' htake, List.take_left' htake]
          · simp only [ih hrest, Option.map_some, List.take_append_drop]
          all_goals simp

theorem length_regroup {ns : List Nat} {ds : List Char} (h : ds.length = ns.sum) :
    (regroup ns ds).length = ns.sum + (ns.length - 1) := by
  induction ns generalizing ds with
  | nil => simpa [regroup] using h
  | cons n more ih =>
      cases more with
      | nil => simpa [regroup] using h
      | cons m more =>
          rw [List.sum_cons] at h
          have htake : (ds.take n).length = n := List.length_take_of_le (by omega)
          have hrest : (ds.drop n).length = (m :: more).sum := by rw [List.length_drop]; omega
          rw [regroup, List.length_append, htake, List.length_cons, ih hrest,
            List.sum_cons (a := n)]
          · simp only [List.length_cons]
            omega
          · simp

theorem mapM_hexValue? {s : List Char} {ds : List Nat} (h : s.mapM hexValue? = some ds) :
    ds.length = s.length ∧ ∀ d ∈ ds, d < 16 := by
  induction s generalizing ds with
  | nil => cases h; simp
  | cons c s ih =>
      simp only [List.mapM_cons, Option.bind_eq_bind, Option.bind_eq_some_iff] at h
      obtain ⟨d, hd, ds, hds, h⟩ := h
      cases h
      obtain ⟨hlength, hall⟩ := ih hds
      exact ⟨congrArg (· + 1) hlength, List.forall_mem_cons.mpr ⟨hexValue?_lt hd, hall⟩⟩

theorem mapM_hexValue?_hexDigit {ds : List Nat} (h : ∀ d ∈ ds, d < 16) :
    (ds.map hexDigit).mapM hexValue? = some ds := by
  induction ds with
  | nil => rfl
  | cons d ds ih =>
      obtain ⟨hd, hds⟩ := List.forall_mem_cons.mp h
      simp [hexValue?_hexDigit hd, ih hds]

theorem digits?_eq (s : List Char) : digits? s =
    (if s.length = 32 then some s else ungroup? groups (unwrap s)).bind (·.mapM hexValue?) := by
  rw [digits?]
  split <;> next h => rw [h]; rfl

theorem digits?_eq_some {s : List Char} {ds : List Nat} (h : digits? s = some ds) :
    ds.length = 32 ∧ ∀ d ∈ ds, d < 16 := by
  rw [digits?_eq, Option.bind_eq_some_iff] at h
  obtain ⟨cs, hcs, h⟩ := h
  obtain ⟨hlength, hall⟩ := mapM_hexValue? h
  refine ⟨hlength.trans ?_, hall⟩
  split at hcs
  · next h32 => cases hcs; exact h32
  · exact length_of_ungroup? hcs

/-- The written form of 32 digits is read as these digits. -/
theorem digits?_regroup {ds : List Nat} (hlength : ds.length = 32) (hall : ∀ d ∈ ds, d < 16) :
    digits? (regroup groups (ds.map hexDigit)) = some ds := by
  have hsum : (ds.map hexDigit).length = groups.sum := by rw [List.length_map, hlength]; rfl
  have h36 : (regroup groups (ds.map hexDigit)).length = 36 := length_regroup hsum
  have hunwrap : unwrap (regroup groups (ds.map hexDigit)) = regroup groups (ds.map hexDigit) := by
    rw [unwrap, h36]
    simp
  rw [digits?_eq, if_neg (by rw [h36]; decide), hunwrap, ungroup?_regroup hsum]
  exact mapM_hexValue?_hexDigit hall

/-- A UUID in canonical form is left as it is. -/
theorem normalize?_of_normalize? {s t : String} (h : normalize? s = some t) :
    normalize? t = some t := by
  obtain ⟨ds, hds, rfl⟩ := Option.map_eq_some_iff.mp h
  obtain ⟨hlength, hall⟩ := digits?_eq_some hds
  rw [normalize?, String.toList_ofList, digits?_regroup hlength hall]
  rfl

end Uuid

/-! ## Addresses -/

namespace Address

/-! ### Numbers and points -/

theorem lt_of_readByte? {s r : List Char} {n : Nat} (h : readByte? s = some (n, r)) : n < 256 := by
  simp only [readByte?] at h
  split at h
  · cases h
  · next hs =>
      cases h
      simp only [Bool.or_eq_true, not_or, decide_eq_true_eq] at hs
      omega

/-- A number behind which no digit follows is read back. -/
theorem readByte?_natDigits {n : Nat} (hn : n < 256) {r : List Char}
    (hr : ∀ c ∈ r.head?, isDigit c = false) : readByte? (natDigits n ++ r) = some (n, r) := by
  have hdigits : (natDigits n ++ r).takeWhile isDigit = natDigits n :=
    List.takeWhile_append_of_stop (fun _ => isDigit_of_mem_natDigits) hr
  have hlength : (natDigits n).length ≤ 3 := length_natDigits_le (by decide) (by omega)
  have hread : ¬ ((natDigits n).isEmpty || 3 < (natDigits n).length || 255 < n ||
      ((natDigits n).head? = some '0' && 1 < (natDigits n).length)) = true := by
    simp only [Bool.or_eq_true, Bool.and_eq_true, decide_eq_true_eq, List.isEmpty_iff, not_or]
    exact ⟨⟨⟨natDigits_ne_nil n, by omega⟩, by omega⟩, fun h => head?_natDigits h.2 h.1⟩
  simp only [readByte?, hdigits, ofDigits_natDigits, if_neg hread, List.drop_left]

theorem eq_point_of_readBytes? {count : Nat} {s r : List Char} {ns : List Nat}
    (h : readBytes? (count + 1) s = some (ns, r)) : ∃ s', s = '.' :: s' := by
  unfold readBytes? at h
  split at h <;> simp_all

theorem readBytes?_eq_some {count : Nat} {s r : List Char} {ns : List Nat}
    (h : readBytes? count s = some (ns, r)) : ns.length = count ∧ ∀ n ∈ ns, n < 256 := by
  induction count generalizing s ns with
  | zero => cases h; simp
  | succ count ih =>
      obtain ⟨s, rfl⟩ := eq_point_of_readBytes? h
      simp only [readBytes?, Option.bind_eq_bind, Option.bind_eq_some_iff, Prod.exists] at h
      obtain ⟨n, s, hn, ns, r, hns, h⟩ := h
      cases h
      obtain ⟨hlength, hall⟩ := ih hns
      exact ⟨congrArg (· + 1) hlength, List.forall_mem_cons.mpr ⟨lt_of_readByte? hn, hall⟩⟩

theorem readV4?_eq_some {s r : List Char} {ns : List Nat} (h : readV4? s = some (ns, r)) :
    ns.length = 4 ∧ ∀ n ∈ ns, n < 256 := by
  simp only [readV4?, Option.bind_eq_bind, Option.bind_eq_some_iff, Prod.exists] at h
  obtain ⟨n, s, hn, ns, r, hns, h⟩ := h
  cases h
  obtain ⟨hlength, hall⟩ := readBytes?_eq_some hns
  exact ⟨congrArg (· + 1) hlength, List.forall_mem_cons.mpr ⟨lt_of_readByte? hn, hall⟩⟩

/-- Numbers, each behind a point. -/
def pointed (ns : List Nat) : List Char := ns.flatMap fun n => '.' :: natDigits n

theorem toList_v4Text (n : Nat) (ns : List Nat) :
    (v4Text (n :: ns)).toList = natDigits n ++ pointed ns := by
  rw [v4Text, String.toList_intercalate, List.map_map]
  induction ns generalizing n with
  | nil => simp [pointed, natText]
  | cons m ns ih =>
      rw [List.map_cons, List.map_cons, List.intercalate_cons_cons, ← List.map_cons, ih m]
      simp [pointed, natText]

theorem head?_pointed (ns : List Nat) {r : List Char} (hr : ∀ c ∈ r.head?, isDigit c = false) :
    ∀ c ∈ (pointed ns ++ r).head?, isDigit c = false := by
  cases ns with
  | nil => exact hr
  | cons n ns => rintro c ⟨⟩; rfl

theorem readBytes?_pointed {ns : List Nat} (hns : ∀ n ∈ ns, n < 256) {r : List Char}
    (hr : ∀ c ∈ r.head?, isDigit c = false) :
    readBytes? ns.length (pointed ns ++ r) = some (ns, r) := by
  induction ns with
  | nil => rfl
  | cons n ns ih =>
      obtain ⟨hn, hns⟩ := List.forall_mem_cons.mp hns
      have hsplit : pointed (n :: ns) ++ r = '.' :: (natDigits n ++ (pointed ns ++ r)) := by
        simp [pointed]
      rw [hsplit, List.length_cons, readBytes?]
      simp only [readByte?_natDigits hn (head?_pointed ns hr), ih hns, Option.bind_eq_bind,
        Option.bind_some]

/-- Four numbers behind which no digit follows are read back. -/
theorem readV4?_v4Text {ns : List Nat} (hlength : ns.length = 4) (hns : ∀ n ∈ ns, n < 256)
    {r : List Char} (hr : ∀ c ∈ r.head?, isDigit c = false) :
    readV4? ((v4Text ns).toList ++ r) = some (ns, r) := by
  obtain ⟨n, ms, rfl⟩ := List.exists_cons_of_length_eq_add_one hlength
  obtain ⟨hn, hms⟩ := List.forall_mem_cons.mp hns
  have h3 : ms.length = 3 := Nat.succ.inj hlength
  rw [toList_v4Text, List.append_assoc, readV4?, readByte?_natDigits hn (head?_pointed ms hr)]
  simp only [Option.bind_eq_bind, Option.bind_some, ← h3, readBytes?_pointed hms hr]

/-- Without a point there are no four numbers. -/
theorem readV4?_of_no_point {s : List Char} (h : '.' ∉ s) : readV4? s = none := by
  rw [Option.eq_none_iff_forall_ne_some]
  rintro ⟨ns, r⟩ hread
  simp only [readV4?, Option.bind_eq_bind, Option.bind_eq_some_iff, Prod.exists] at hread
  obtain ⟨n, t, hn, ms, u, hms, -⟩ := hread
  obtain ⟨t, rfl⟩ := eq_point_of_readBytes? hms
  simp only [readByte?] at hn
  split at hn
  · cases hn
  · rw [Option.some.injEq, Prod.mk.injEq] at hn
    exact h (List.mem_of_mem_drop (hn.2 ▸ List.mem_cons_self))

/-! ### Groups and colons -/

theorem readGroup?_eq_some {s r : List Char} {g : Nat} (h : readGroup? s = some (g, r)) :
    g < 65536 := by
  simp only [readGroup?] at h
  split at h
  · cases h
  · next hs =>
      cases h
      simp only [Bool.or_eq_true, not_or, decide_eq_true_eq] at hs
      exact Nat.lt_of_lt_of_le (ofHex_lt _)
        (Nat.pow_le_pow_right (by decide) (Nat.le_of_not_lt hs.2))

/-- A group behind which no digit follows is read back. -/
theorem readGroup?_toDigits {g : Nat} (hg : g < 65536) {r : List Char}
    (hr : ∀ c ∈ r.head?, (hexValue? c).isSome = false) :
    readGroup? (Nat.toDigits 16 g ++ r) = some (g, r) := by
  obtain ⟨hdigits, hvalue⟩ := toDigits_spec g
  have hlength : (Nat.toDigits 16 g).length ≤ 4 :=
    (Nat.length_toDigits_le_iff (by decide) (by decide)).mpr hg
  have hread : ¬ ((Nat.toDigits 16 g).isEmpty || 4 < (Nat.toDigits 16 g).length) = true := by
    simp only [Bool.or_eq_true, decide_eq_true_eq, List.isEmpty_iff, not_or]
    exact ⟨Nat.toDigits_ne_nil, by omega⟩
  simp only [readGroup?, List.takeWhile_append_of_stop hdigits hr, hvalue, if_neg hread,
    List.drop_left]

theorem embedded_bound {ns : List Nat} (hlength : ns.length = 4) (hns : ∀ n ∈ ns, n < 256) :
    (embedded ns).length = 2 ∧ ∀ g ∈ embedded ns, g < 65536 := by
  obtain ⟨a, b, c, d, rfl⟩ : ∃ a b c d, ns = [a, b, c, d] := by
    match ns, hlength with
    | [a, b, c, d], _ => exact ⟨a, b, c, d, rfl⟩
  simp only [List.forall_mem_cons] at hns
  obtain ⟨ha, hb, hc, hd, -⟩ := hns
  simp only [embedded, List.forall_mem_cons]
  exact ⟨rfl, by omega, by omega, List.forall_mem_nil _⟩

/-- Whatever the text, no more groups are read than there is room for. -/
theorem readGroups_bound (room : Nat) (first : Bool) (s : List Char) :
    (readGroups room first s).1.length ≤ room ∧ ∀ g ∈ (readGroups room first s).1, g < 65536 := by
  induction room generalizing first s with
  | zero => simp [readGroups]
  | succ room ih =>
      rw [readGroups]
      dsimp only
      split
      · next ns r hdotted =>
          split at hdotted
          · cases hdotted
          · obtain ⟨t, -, ht⟩ := Option.bind_eq_some_iff.mp hdotted
            obtain ⟨hlength, hns⟩ := readV4?_eq_some ht
            obtain ⟨hlength, hall⟩ := embedded_bound hlength hns
            exact ⟨Nat.le_trans (Nat.le_of_eq hlength) (by omega), hall⟩
      · split
        · next g r hgroup =>
            obtain ⟨t, -, ht⟩ := Option.bind_eq_some_iff.mp hgroup
            obtain ⟨hlength, hall⟩ := ih false r
            exact ⟨Nat.succ_le_succ hlength, List.forall_mem_cons.mpr ⟨readGroup?_eq_some ht, hall⟩⟩
        · simp

/-- Groups with a colon before each, except perhaps the first. -/
def coloned (first : Bool) : List Nat → List Char
  | [] => []
  | g :: gs => (if first then [] else [':']) ++ Nat.toDigits 16 g ++ coloned false gs

theorem toList_groupsText (gs : List Nat) : (groupsText gs).toList = coloned true gs := by
  rw [groupsText, String.toList_intercalate, List.map_map]
  cases gs with
  | nil => rfl
  | cons g gs =>
      induction gs generalizing g with
      | nil => simp [coloned, hexText]
      | cons h gs ih =>
          rw [List.map_cons, List.map_cons, List.intercalate_cons_cons, ← List.map_cons, ih h]
          simp [coloned, hexText]

theorem point_not_mem_coloned (first : Bool) (gs : List Nat) : '.' ∉ coloned first gs := by
  induction gs generalizing first with
  | nil => simp [coloned]
  | cons g gs ih =>
      have hg : '.' ∉ Nat.toDigits 16 g := fun h =>
        absurd ((toDigits_spec g).1 '.' h) (by decide)
      cases first <;> simp [coloned, hg, ih]

/-- What may follow the groups: the end, or two colons. -/
def Ends (r : List Char) : Prop := r = [] ∨ ∃ r', r = ':' :: ':' :: r'

theorem Ends.head? {r : List Char} (h : Ends r) (gs : List Nat) :
    ∀ c ∈ (coloned false gs ++ r).head?, (hexValue? c).isSome = false := by
  cases gs with
  | nil =>
      rcases h with rfl | ⟨r, rfl⟩
      · simp [coloned]
      · rintro c ⟨⟩; rfl
  | cons g gs => rintro c ⟨⟩; rfl

theorem Ends.stops {r : List Char} (h : Ends r) (first : Bool) :
    (readColon? first r >>= readGroup?) = none := by
  rcases h with rfl | ⟨r, rfl⟩
  · cases first <;> rfl
  · cases first <;> simp [readColon?, readGroup?, hexValue?]

theorem no_dots {s : List Char} (h : '.' ∉ s) (first : Bool) :
    (readColon? first s >>= readV4?) = none := by
  rw [Option.bind_eq_bind, Option.bind_eq_none_iff]
  intro t ht
  refine readV4?_of_no_point fun hmem => h ?_
  unfold readColon? at ht
  split at ht
  · cases ht; exact hmem
  · split at ht
    · cases ht; exact List.mem_cons_of_mem _ hmem
    · cases ht

/-- Groups are read back, up to the end or to two colons. -/
theorem readGroups_coloned {room : Nat} {gs : List Nat} (hroom : gs.length ≤ room)
    (hgs : ∀ g ∈ gs, g < 65536) {r : List Char} (hr : Ends r) (hpoint : '.' ∉ r) (first : Bool) :
    readGroups room first (coloned first gs ++ r) = (gs, false, r) := by
  induction gs generalizing room first with
  | nil =>
      cases room with
      | zero => rfl
      | succ room =>
          rw [coloned, List.nil_append, readGroups]
          simp only [no_dots hpoint, hr.stops, ite_self]
  | cons g gs ih =>
      obtain ⟨room, rfl⟩ := Nat.exists_eq_add_of_le' (Nat.one_le_of_lt hroom)
      obtain ⟨hg, hgs⟩ := List.forall_mem_cons.mp hgs
      have hpoint' : '.' ∉ coloned first (g :: gs) ++ r := by
        rw [List.mem_append, not_or]
        exact ⟨point_not_mem_coloned _ _, hpoint⟩
      have hcolon : readColon? first (coloned first (g :: gs) ++ r) =
          some (Nat.toDigits 16 g ++ (coloned false gs ++ r)) := by
        cases first <;> simp [coloned, readColon?]
      have hdots := no_dots hpoint' first
      have hgroup := readGroup?_toDigits hg (hr.head? gs)
      rw [hcolon, Option.bind_eq_bind, Option.bind_some] at hdots
      rw [readGroups]
      simp only [hcolon, Option.bind_eq_bind, Option.bind_some, hdots, ite_self, hgroup,
        ih (Nat.le_of_succ_le_succ hroom) hgs false]

/-! ### Runs of zeros -/

theorem take_zeroRun {gs : List Nat} {len : Nat} (h : len ≤ zeroRun gs) :
    gs.take len = List.replicate len 0 := by
  rw [List.eq_replicate_iff]
  have hle : zeroRun gs ≤ gs.length := (List.takeWhile_prefix _).length_le
  refine ⟨List.length_take_of_le (Nat.le_trans h hle), ?_⟩
  intro g hg
  have htake : gs.take len <+: gs.takeWhile (· = 0) :=
    List.prefix_of_prefix_length_le (List.take_prefix _ _) (List.takeWhile_prefix _)
      (Nat.le_trans (List.length_take_le _ _) h)
  simpa using List.mem_takeWhile_imp (htake.subset hg)

/-- The run that is written as two colons consists of zeros. -/
theorem longestRun_le (gs : List Nat) :
    (longestRun gs).2 ≤ zeroRun (gs.drop (longestRun gs).1) := by
  refine List.foldlRecOn (List.range gs.length) _
    (motive := fun best : Nat × Nat => best.2 ≤ zeroRun (gs.drop best.1)) (Nat.zero_le _) ?_
  intro best hbest i _
  split
  · exact Nat.le_refl _
  · exact hbest

theorem take_longestRun (gs : List Nat) : gs = gs.take (longestRun gs).1 ++
    List.replicate (longestRun gs).2 0 ++ gs.drop ((longestRun gs).1 + (longestRun gs).2) := by
  rw [← take_zeroRun (longestRun_le gs), List.append_assoc, ← List.drop_drop,
    List.take_append_drop, List.take_append_drop]

theorem longestRun_length_le (gs : List Nat) :
    (gs.take (longestRun gs).1).length + (longestRun gs).2 +
      (gs.drop ((longestRun gs).1 + (longestRun gs).2)).length = gs.length := by
  conv_rhs => rw [take_longestRun gs]
  simp only [List.length_append, List.length_replicate]

/-! ### Whole addresses -/

theorem readV6?_eq_some {s r : List Char} {gs : List Nat} (h : readV6? s = some (gs, r)) :
    gs.length = 8 ∧ ∀ g ∈ gs, g < 65536 := by
  obtain ⟨hhead, hheads⟩ := readGroups_bound 8 true s
  simp only [readV6?] at h
  split at h
  · next h8 => cases h; exact ⟨h8, hheads⟩
  · split at h
    · cases h
    · split at h
      · next r _ =>
          obtain ⟨htail, htails⟩ := readGroups_bound (7 - (readGroups 8 true s).1.length) true r
          cases h
          simp only [List.length_append, List.length_replicate, List.forall_mem_append]
          refine ⟨by omega, ⟨hheads, ?_⟩, htails⟩
          intro g hg
          rw [List.eq_of_mem_replicate hg]
          decide
      · cases h

theorem readV4?_cons {c : Char} (h : isDigit c = false) (s : List Char) :
    readV4? (c :: s) = none := by
  simp [readV4?, readByte?, h]

/-- An embedded version 4 address is read back. -/
theorem readV6?_mapped {a b : Nat} (ha : a < 65536) (hb : b < 65536) :
    readV6? ("::ffff:" ++ v4Text [a / 256, a % 256, b / 256, b % 256]).toList =
      some ([0, 0, 0, 0, 0, 0xffff, a, b], []) := by
  have hbytes : readV4? ((v4Text [a / 256, a % 256, b / 256, b % 256]).toList ++ []) =
      some ([a / 256, a % 256, b / 256, b % 256], []) := by
    refine readV4?_v4Text rfl ?_ nofun
    simp only [List.forall_mem_cons]
    exact ⟨by omega, by omega, by omega, by omega, List.forall_mem_nil _⟩
  rw [String.toList_append]
  generalize (v4Text [a / 256, a % 256, b / 256, b % 256]).toList = quad at hbytes ⊢
  rw [List.append_nil] at hbytes
  have hgroup : readGroup? ('f' :: 'f' :: 'f' :: 'f' :: ':' :: quad) =
      some (0xffff, ':' :: quad) :=
    readGroup?_toDigits (g := 0xffff) (by decide) (r := ':' :: quad) (by rintro c ⟨⟩; rfl)
  have hlast : readGroups 6 false (':' :: quad) = ([a, b], true, []) := by
    have hdots : (readColon? false (':' :: quad) >>= readV4?) =
        some ([a / 256, a % 256, b / 256, b % 256], []) := hbytes
    rw [readGroups, if_neg (by decide), hdots]
    simp only [embedded, Nat.div_add_mod]
  have htail : readGroups 7 true ('f' :: 'f' :: 'f' :: 'f' :: ':' :: quad) =
      ([0xffff, a, b], true, []) := by
    rw [readGroups]
    simp only [readColon?, if_true, Option.bind_eq_bind, Option.bind_some,
      readV4?_cons (show isDigit 'f' = false from rfl), ite_self, hgroup, hlast]
  have hhead (s : List Char) : readGroups 8 true (':' :: s) = ([], false, ':' :: s) := by
    simp [readGroups, readV4?_cons (show isDigit ':' = false from rfl), readColon?, readGroup?,
      hexValue?]
  show readV6? (':' :: ':' :: 'f' :: 'f' :: 'f' :: 'f' :: ':' :: quad) = _
  simp [readV6?, hhead, htail]

/-- Two colons stand for the run of zeros between two lists of groups. -/
theorem readV6?_colons {front back : List Nat} {len : Nat} (hlen : 1 < len)
    (h8 : front.length + len + back.length = 8) (hfront : ∀ g ∈ front, g < 65536)
    (hback : ∀ g ∈ back, g < 65536) :
    readV6? (coloned true front ++ ':' :: ':' :: coloned true back) =
      some (front ++ List.replicate len 0 ++ back, []) := by
  have hpoint : '.' ∉ ':' :: ':' :: coloned true back := by
    simp [point_not_mem_coloned]
  have hhead : readGroups 8 true (coloned true front ++ ':' :: ':' :: coloned true back) =
      (front, false, ':' :: ':' :: coloned true back) :=
    readGroups_coloned (by omega) hfront (Or.inr ⟨_, rfl⟩) hpoint true
  have htail : readGroups (7 - front.length) true (coloned true back ++ []) = (back, false, []) :=
    readGroups_coloned (by omega) hback (Or.inl rfl) nofun true
  rw [List.append_nil] at htail
  have hzeros : 8 - front.length - back.length = len := by omega
  simp only [readV6?, hhead, htail, if_neg (by omega : ¬ front.length = 8), hzeros,
    Bool.false_eq_true, if_false]

theorem readV6?_coloned {gs : List Nat} (h8 : gs.length = 8) (hgs : ∀ g ∈ gs, g < 65536) :
    readV6? (coloned true gs) = some (gs, []) := by
  have hread : readGroups 8 true (coloned true gs ++ []) = (gs, false, []) :=
    readGroups_coloned (by omega) hgs (Or.inl rfl) nofun true
  rw [List.append_nil] at hread
  simp only [readV6?, hread, if_pos h8]

/-- What is written for eight groups is read as these groups, and not as four numbers. -/
theorem read_v6Text {gs : List Nat} (h8 : gs.length = 8) (hgs : ∀ g ∈ gs, g < 65536) :
    readV4? (v6Text gs).toList = none ∧ readV6? (v6Text gs).toList = some (gs, []) := by
  unfold v6Text
  split
  · next a b =>
      simp only [List.forall_mem_cons] at hgs
      obtain ⟨-, -, -, -, -, -, ha, hb, -⟩ := hgs
      refine ⟨?_, readV6?_mapped ha hb⟩
      rw [String.toList_append]
      exact readV4?_cons (c := ':') rfl _
  · dsimp only
    split
    · next hlen =>
        have hlength := longestRun_length_le gs
        have htext : (groupsText (gs.take (longestRun gs).1) ++ "::" ++
            groupsText (gs.drop ((longestRun gs).1 + (longestRun gs).2))).toList =
            coloned true (gs.take (longestRun gs).1) ++
              ':' :: ':' :: coloned true (gs.drop ((longestRun gs).1 + (longestRun gs).2)) := by
          simp [String.toList_append, toList_groupsText]
        rw [htext]
        refine ⟨readV4?_of_no_point ?_, ?_⟩
        · simp [point_not_mem_coloned]
        · rw [readV6?_colons hlen (hlength.trans h8) (fun g hg => hgs g (List.mem_of_mem_take hg))
            fun g hg => hgs g (List.mem_of_mem_drop hg), ← take_longestRun]
    · rw [toList_groupsText]
      exact ⟨readV4?_of_no_point (point_not_mem_coloned _ _), readV6?_coloned h8 hgs⟩

/-- Four bytes, or eight groups of 16 bits. -/
def Valid : Address → Prop
  | .v4 parts => parts.length = 4 ∧ ∀ n ∈ parts, n < 256
  | .v6 groups => groups.length = 8 ∧ ∀ g ∈ groups, g < 65536

theorem valid_of_read? {s : String} {a : Address} (h : read? s = some a) : a.Valid := by
  unfold read? at h
  split at h
  · next ns hns => cases h; exact readV4?_eq_some hns
  · cases h
  · split at h
    · next gs hgs => cases h; exact readV6?_eq_some hgs
    · cases h

/-- What is written for an address is read as that address. -/
theorem read?_text {a : Address} (h : a.Valid) : read? a.text = some a := by
  cases a with
  | v4 parts =>
      have hread := readV4?_v4Text h.1 h.2 (r := []) nofun
      rw [List.append_nil] at hread
      rw [read?, text, hread]
  | v6 groups =>
      obtain ⟨hv4, hv6⟩ := read_v6Text h.1 h.2
      rw [read?, text, hv4, hv6]

end Address

/-- An address in canonical form is left as it is. -/
theorem normalizeAddress?_of_normalizeAddress? {s t : String} (h : normalizeAddress? s = some t) :
    normalizeAddress? t = some t := by
  obtain ⟨a, ha, rfl⟩ := Option.map_eq_some_iff.mp h
  rw [normalizeAddress?, Address.read?_text (Address.valid_of_read? ha), Option.map_some]

end Skew.Format

import Mathlib.Data.Nat.Digits.Lemmas
import VibeField.Contracts.ReleaseVersions

/-!
# When release versions are ordered by precedence

The texts of two versions come apart into their parts again, and each part is read by itself.  The
comparison is then right just where it can tell the first difference.
-/

namespace VibeField.Contracts.ReleaseVersions

open Double Semver List Option

/-! ## Numbers -/

variable {c : Char} {m n : Nat} {x y : List Char}

theorem double_mono (h : m ≤ n) : double m ≤ double n :=
  Nat.le_min.mpr ⟨(Nat.min_le_left ..).trans (toDouble_mono h), Nat.min_le_right ..⟩

theorem compare_double (h : double m ≠ double n) : compare (double m) (double n) = compare m n := by
  rcases Nat.lt_trichotomy m n with hlt | rfl | hgt
  · have hle := double_mono (Nat.le_of_lt hlt)
    rw [Nat.compare_eq_lt.mpr hlt, Nat.compare_eq_lt]
    omega
  · exact absurd rfl h
  · have hle := double_mono (Nat.le_of_lt hgt)
    rw [Nat.compare_eq_gt.mpr hgt, Nat.compare_eq_gt]
    omega

theorem overflow_pos : 0 < overflow := by decide

theorem rounded_nat (n : Nat) : Num.rounded n =
    if toDouble n < overflow then .int (toDouble n) else .infinity false := by
  rw [Num.rounded, Int.natAbs_natCast]
  by_cases hn : n = 0
  · subst hn
    rfl
  · rw [Int.sign_natCast_of_ne_zero hn, Int.one_mul]
    rfl

theorem rounded_eq_iff (m n : Nat) : Num.rounded m = Num.rounded n ↔ double m = double n := by
  rw [rounded_nat, rounded_nat, double, double]
  by_cases hm : toDouble m < overflow <;> by_cases hn : toDouble n < overflow
  · rw [if_pos hm, if_pos hn, Num.int.injEq, Int.natCast_inj]
    omega
  · rw [if_pos hm, if_neg hn]
    simp only [reduceCtorEq, false_iff]
    omega
  · rw [if_neg hm, if_pos hn]
    simp only [reduceCtorEq, false_iff]
    omega
  · rw [if_neg hm, if_neg hn]
    simp only [true_iff]
    omega

theorem sign_rounded (n : Int) : (Num.rounded n).sign = some (compare n 0) := by
  have hpos : n ≠ 0 → 0 < (toDouble n.natAbs : Int) := fun hn =>
    Int.natCast_pos.mpr (toDouble_pos (Int.natAbs_pos.mpr hn))
  rcases Int.lt_trichotomy n 0 with hn | rfl | hn
  · rw [Int.compare_eq_lt.mpr hn, Num.rounded]
    split
    · rw [Num.sign, Int.sign_eq_neg_one_of_neg hn, Int.compare_eq_lt.mpr]
      have := hpos (Int.ne_of_lt hn)
      omega
    · simp [Num.sign, hn]
  · have hzero := rounded_nat 0
    rw [toDouble_small (Nat.zero_le _), if_pos overflow_pos] at hzero
    exact congrArg Num.sign hzero
  · rw [Int.compare_eq_gt.mpr hn, Num.rounded]
    split
    · rw [Num.sign, Int.sign_eq_one_of_pos hn, Int.compare_eq_gt.mpr]
      have := hpos (Int.ne_of_gt hn)
      omega
    · simp [Num.sign, Int.not_lt.mpr (Int.le_of_lt hn)]

theorem sign_sub (h : double m ≠ double n) :
    ((Num.rounded m).sub (Num.rounded n)).sign = some (compare (double m) (double n)) := by
  rw [rounded_nat, rounded_nat]
  simp only [double] at h ⊢
  by_cases hm : toDouble m < overflow <;> by_cases hn : toDouble n < overflow
  · rw [if_pos hm, if_pos hn, Num.sub, sign_rounded, Nat.min_eq_left (Nat.le_of_lt hm),
      Nat.min_eq_left (Nat.le_of_lt hn)]
    rcases Nat.lt_trichotomy (toDouble m) (toDouble n) with hlt | heq | hgt
    · rw [Nat.compare_eq_lt.mpr hlt, Int.compare_eq_lt.mpr (by omega)]
    · rw [heq] at h
      exact absurd rfl h
    · rw [Nat.compare_eq_gt.mpr hgt, Int.compare_eq_gt.mpr (by omega)]
  · rw [if_pos hm, if_neg hn, Nat.compare_eq_lt.mpr (by omega)]
    rfl
  · rw [if_neg hm, if_pos hn, Nat.compare_eq_gt.mpr (by omega)]
    rfl
  · omega

theorem sign_sub_same (h : double m = double n) {o : Ordering} (ho : o ≠ .eq) :
    ((Num.rounded m).sub (Num.rounded n)).sign ≠ some o := by
  rw [(rounded_eq_iff m n).mpr h, rounded_nat]
  split
  · simp only [Num.sub, Int.sub_self, sign_rounded]
    exact fun he => ho (some.inj he).symm
  · simp [Num.sub, Num.sign]

/-! ## Texts -/

theorem identifierChar_bounds (h : isIdentifierChar c = true) : c.toNat < 128 ∧ c ≠ '.' := by
  constructor
  · simp only [isIdentifierChar, isDigit, isLetter, Bool.or_eq_true, Bool.and_eq_true,
      decide_eq_true_eq, beq_iff_eq] at h
    rcases h with ((h | h | h) | rfl)
    · exact Nat.lt_of_le_of_lt h.2 (by decide)
    · exact Nat.lt_of_le_of_lt h.2 (by decide)
    · exact Nat.lt_of_le_of_lt h.2 (by decide)
    · decide
  · rintro rfl
    exact absurd h (by decide)

theorem isDigit_bounds (h : isDigit c = true) : isIdentifierChar c = true ∧ c ≠ '-' := by
  refine ⟨by simp [isIdentifierChar, h], ?_⟩
  rintro rfl
  exact absurd h (by decide)

theorem encode_ascii (h : c.toNat < 128) (x : List Char) :
    Utf16.encode (c :: x) = UInt16.ofNat c.toNat :: Utf16.encode x := by
  show Utf16.units c ++ Utf16.encode x = _
  rw [Utf16.units, if_pos (Nat.lt_trans h (by decide))]
  rfl

theorem compareText_cons (c d : Char) (x y : List Char) :
    compareText (c :: x) (d :: y) = (compare c.toNat d.toNat).then (compareText x y) := by
  rw [compareText, List.compareLex_cons_cons]
  rfl

theorem textLt_iff (hx : ∀ c ∈ x, c.toNat < 128) (hy : ∀ c ∈ y, c.toNat < 128) :
    textLt x y = true ↔ compareText x y = .lt := by
  induction x generalizing y with
  | nil =>
    cases y with
    | nil => decide
    | cons d y =>
      rw [textLt, encode_ascii (hy d mem_cons_self)]
      exact iff_of_true rfl rfl
  | cons c x ih =>
    cases y with
    | nil =>
      rw [textLt, encode_ascii (hx c mem_cons_self)]
      exact iff_of_false (by simp [Utf16.encode, Utf16.le]) Ordering.noConfusion
    | cons d y =>
      have hc := hx c mem_cons_self
      have hd := hy d mem_cons_self
      have hrest := ih (fun e he => hx e (mem_cons_of_mem c he))
        (fun e he => hy e (mem_cons_of_mem d he))
      rw [textLt] at hrest
      rw [textLt, encode_ascii hc, encode_ascii hd, compareText_cons, Utf16.le,
        Utf16.toNat_ofNat (Nat.lt_trans hc (by decide)),
        Utf16.toNat_ofNat (Nat.lt_trans hd (by decide))]
      rcases Nat.lt_trichotomy c.toNat d.toNat with hlt | heq | hgt
      · rw [Nat.compare_eq_lt.mpr hlt, if_neg (by omega), if_pos hlt]
        exact iff_of_true rfl rfl
      · rw [Nat.compare_eq_eq.mpr heq, if_neg (by omega), if_neg (by omega)]
        exact hrest
      · rw [Nat.compare_eq_gt.mpr hgt, if_pos hgt]
        exact iff_of_false (by simp) (by simp)

theorem compareText_eq : compareText x y = .eq ↔ x = y := by
  induction x generalizing y with
  | nil =>
    cases y with
    | nil => exact iff_of_true rfl rfl
    | cons d y => exact iff_of_false Ordering.noConfusion (by simp)
  | cons c x ih =>
    cases y with
    | nil => exact iff_of_false Ordering.noConfusion (by simp)
    | cons d y =>
      rw [compareText_cons, Ordering.then_eq_eq, Nat.compare_eq_eq, ih, List.cons.injEq,
        Char.toNat_inj]

/-! ## Values -/

theorem value_lt (h : isDigit c = true) : c.toNat - 48 < 10 := by
  simp only [isDigit, Bool.and_eq_true, decide_eq_true_eq] at h
  have h9 : ('9' : Char).toNat = 57 := rfl
  omega

def digit (c : Char) : Nat := c.toNat - 48

theorem value_eq (x : List Char) : value x = Nat.ofDigits 10 (x.reverse.map digit) := by
  rw [Nat.ofDigits_eq_foldr, value, foldl_eq_foldr_reverse, foldr_map]
  congr 1
  funext c n
  exact Nat.add_comm ..

theorem digit_eq_zero (h : isDigit c = true) (hc : digit c = 0) : c = '0' := by
  simp only [isDigit, Bool.and_eq_true, decide_eq_true_eq] at h
  have hlow : ('0' : Char).toNat = 48 := rfl
  rw [digit] at hc
  exact Char.toNat_inj.mp (by omega)

theorem ofNat_digit (h : isDigit c = true) : Char.ofNat (digit c + 48) = c := by
  simp only [isDigit, Bool.and_eq_true, decide_eq_true_eq] at h
  have hlow : ('0' : Char).toNat = 48 := rfl
  rw [digit, Nat.sub_add_cancel (by omega), Char.ofNat_toNat]

theorem digits_inj (hx : ∀ c ∈ x, isDigit c = true) (hy : ∀ c ∈ y, isDigit c = true)
    (h : x.map digit = y.map digit) : x = y := by
  have hback : ∀ z : List Char, (∀ c ∈ z, isDigit c = true) →
      (z.map digit).map (fun n => Char.ofNat (n + 48)) = z := fun z hz => by
    rw [List.map_map]
    exact (map_congr_left fun c hc => ofNat_digit (hz c hc)).trans (List.map_id z)
  rw [← hback x hx, h, hback y hy]

theorem digits_value (hx : Numeric x) (hzero : x ≠ ['0']) :
    Nat.digits 10 (value x) = x.reverse.map digit := by
  rw [value_eq]
  refine Nat.digits_ofDigits 10 (by omega) _ ?_ fun hne hlast => ?_
  · intro n hn
    obtain ⟨c, hc, rfl⟩ := List.mem_map.mp hn
    exact value_lt (hx.2.1 c (mem_reverse.mp hc))
  · rw [getLast_map, getLast_reverse] at hlast
    have hhead := digit_eq_zero (hx.2.1 _ (head_mem hx.1)) hlast
    exact hzero (hx.2.2 (by rw [List.head?_eq_some_head hx.1, hhead]))

theorem value_inj (hx : Numeric x) (hy : Numeric y) (h : value x = value y) : x = y := by
  have hnonzero : ∀ z, Numeric z → z ≠ ['0'] → value z ≠ 0 := fun z hz hne h0 => by
    have hdigits := digits_value hz hne
    rw [h0, Nat.digits_zero] at hdigits
    exact hz.1 (by simpa using hdigits.symm)
  by_cases hx0 : x = ['0']
  · by_cases hy0 : y = ['0']
    · rw [hx0, hy0]
    · refine absurd ?_ (hnonzero y hy hy0)
      rw [← h, hx0]
      rfl
  · by_cases hy0 : y = ['0']
    · refine absurd ?_ (hnonzero x hx hx0)
      rw [h, hy0]
      rfl
    · have hmap : x.reverse.map digit = y.reverse.map digit := by
        rw [← digits_value hx hx0, ← digits_value hy hy0, h]
      exact reverse_injective (digits_inj (fun c hc => hx.2.1 c (mem_reverse.mp hc))
        (fun c hc => hy.2.1 c (mem_reverse.mp hc)) hmap)

/-! ## The texts come apart -/

theorem numeric_chars (h : Numeric x) : '-' ∉ x ∧ '.' ∉ x :=
  ⟨fun hc => (isDigit_bounds (h.2.1 _ hc)).2 rfl,
    fun hc => (identifierChar_bounds (isDigit_bounds (h.2.1 _ hc)).1).2 rfl⟩

theorem core_numeric (v : Version) : ∀ x ∈ v.core, Numeric x := by
  intro x hx
  simp only [Version.core, mem_cons, not_mem_nil, or_false] at hx
  rcases hx with rfl | rfl | rfl
  · exact v.majorNumeric
  · exact v.minorNumeric
  · exact v.patchNumeric

theorem splitOn_joined {parts : List (List Char)} (h : ∀ x ∈ parts, '.' ∉ x) (hne : parts ≠ []) :
    (joined '.' parts).splitOn '.' = parts :=
  splitOn_intercalate '.' h hne

theorem not_mem_joined {sep c : Char} (hsep : c ≠ sep) {parts : List (List Char)}
    (h : ∀ x ∈ parts, c ∉ x) : c ∉ joined sep parts := by
  induction parts with
  | nil => simp [joined]
  | cons x rest ih =>
    have hx := h x mem_cons_self
    have hrest := ih fun y hy => h y (mem_cons_of_mem x hy)
    rw [joined] at hrest ⊢
    cases rest with
    | nil => simpa using hx
    | cons y rest =>
      rw [intercalate_cons_cons]
      simp only [mem_append, mem_singleton, not_or]
      exact ⟨⟨hx, hsep⟩, hrest⟩

theorem core_text (v : Version) : '-' ∉ joined '.' v.core :=
  not_mem_joined (by decide) fun x hx => (numeric_chars (core_numeric v x hx)).1

theorem splitOn_text (v : Version) : (v.text.splitOn '-').headD [] = joined '.' v.core ∧
    joined '-' (v.text.splitOn '-').tail = joined '.' v.prerelease := by
  rw [Version.text]
  split
  · next hpre =>
    rw [hpre, splitOn_eq_singleton (core_text v)]
    exact ⟨rfl, rfl⟩
  · rw [splitOn_append_cons_self_of_not_mem (core_text v)]
    exact ⟨rfl, intercalate_splitOn '-'⟩

theorem identifier_chars {v : Version} (hx : x ∈ v.prerelease) : '.' ∉ x :=
  fun hc => (identifierChar_bounds ((v.identifiers x hx).2.1 _ hc)).2 rfl

theorem joined_prerelease_eq_nil (v : Version) :
    joined '.' v.prerelease = [] ↔ v.prerelease = [] := by
  constructor
  · intro h
    by_contra hne
    have hsplit := splitOn_joined (fun x hx => identifier_chars hx) hne
    rw [h, splitOn_nil] at hsplit
    have hmem : [] ∈ v.prerelease := by rw [← hsplit]; exact mem_singleton_self _
    exact (v.identifiers _ hmem).1 rfl
  · intro h
    rw [h]
    rfl

theorem joined_prerelease_inj (a b : Version) :
    joined '.' a.prerelease = joined '.' b.prerelease ↔ a.prerelease = b.prerelease := by
  constructor
  · intro h
    by_cases ha : a.prerelease = []
    · rw [(joined_prerelease_eq_nil a).mpr ha] at h
      rw [ha, (joined_prerelease_eq_nil b).mp h.symm]
    · have hb : b.prerelease ≠ [] := fun hb => ha (by
        rw [(joined_prerelease_eq_nil b).mpr hb] at h
        exact (joined_prerelease_eq_nil a).mp h)
      rw [← splitOn_joined (fun x hx => identifier_chars hx) ha, h,
        splitOn_joined (fun x hx => identifier_chars hx) hb]
  · intro h
    rw [h]

theorem parts_core (v : Version) :
    parts (joined '.' v.core) = (v.core.map value).map fun n : Nat => Num.rounded n := by
  rw [parts,
    splitOn_joined (fun x hx => (numeric_chars (core_numeric v x hx)).2) (by simp [Version.core]),
    List.map_map]
  refine map_congr_left fun x hx => ?_
  have hdigits : isDigits x = true := by
    have hnum := core_numeric v x hx
    simp only [isDigits, Bool.and_eq_true, List.all_eq_true, Bool.not_eq_true',
      isEmpty_eq_false_iff]
    exact ⟨hnum.1, hnum.2.1⟩
  rw [if_pos hdigits]
  rfl

def prereleaseNum (p q : List (List Char)) : Num :=
  if p = q then .int 0 else if p = [] then .int 1 else if q = [] then .int (-1)
  else compareIdentifiers p q

theorem compareReleaseVersions_text (a b : Version) :
    compareReleaseVersions a.text b.text =
      let core := compareParts ((a.core.map value).map fun n : Nat => Num.rounded n)
        ((b.core.map value).map fun n : Nat => Num.rounded n)
      if core = .int 0 then prereleaseNum a.prerelease b.prerelease else core := by
  obtain ⟨hacore, hapre⟩ := splitOn_text a
  obtain ⟨hbcore, hbpre⟩ := splitOn_text b
  simp only [compareReleaseVersions, compareDottedVersions, hacore, hapre, hbcore, hbpre,
    parts_core, joined_prerelease_inj, joined_prerelease_eq_nil, prereleaseNum]
  congr 1
  by_cases ha : a.prerelease = []
  · simp [ha]
  · by_cases hb : b.prerelease = []
    · simp [hb]
    · rw [splitOn_joined (fun x hx => identifier_chars hx) ha,
        splitOn_joined (fun x hx => identifier_chars hx) hb]

/-! ## The first difference -/

variable {p q : List (List Char)} {m n : Nat} {ms ns : List Nat} {o : Ordering}

theorem sign_comparePart (h : double m ≠ double n) (rest : Num) :
    comparePart (Num.rounded m) (Num.rounded n) rest = (Num.rounded m).sub (Num.rounded n) := by
  have hnan : ∀ k : Nat, Num.rounded k ≠ .nan := fun k => by
    rw [rounded_nat]
    split <;> simp
  rw [comparePart, if_neg (fun hor => hor.elim (hnan m) (hnan n)),
    if_neg (fun he => h ((rounded_eq_iff m n).mp he))]

theorem comparePart_same (h : double m = double n) (rest : Num) :
    comparePart (Num.rounded m) (Num.rounded n) rest = rest := by
  have hnan : Num.rounded n ≠ .nan := by
    rw [rounded_nat]
    split <;> simp
  rw [comparePart, (rounded_eq_iff m n).mpr h, if_neg (fun hor => hor.elim hnan hnan), if_pos rfl]

def told (p q : List (List Char)) (ms ns : List Nat) : Option Ordering :=
  let core :=
    compareParts (ms.map fun n : Nat => Num.rounded n) (ns.map fun n : Nat => Num.rounded n)
  (if core = .int 0 then prereleaseNum p q else core).sign

theorem told_cons_same (h : double m = double n) :
    told p q (m :: ms) (n :: ns) = told p q ms ns := by
  simp only [told, map_cons, compareParts, comparePart_same h]

theorem told_cons (h : double m ≠ double n) :
    told p q (m :: ms) (n :: ns) = some (compare (double m) (double n)) := by
  have hsign := sign_sub h
  simp only [told, map_cons, compareParts, sign_comparePart h]
  rw [if_neg, hsign]
  intro hzero
  rw [hzero] at hsign
  have heq : compare (double m) (double n) = .eq := (some.inj hsign).symm
  exact h (Nat.compare_eq_eq.mp heq)

theorem identifiers_sign {x y : List Char} (hx : Identifier x) (hy : Identifier y) (hne : x ≠ y)
    (xs ys : List (List Char)) : (compareIdentifiers (x :: xs) (y :: ys)).sign =
      if x.all isDigit && y.all isDigit then ((number x).sub (number y)).sign
      else some (compareText x y) := by
  have hdigits : ∀ z, Identifier z → isDigits z = z.all isDigit := fun z hz => by
    rw [isDigits]
    simp [hz.1]
  have hascii : ∀ z, Identifier z → ∀ c ∈ z, c.toNat < 128 := fun z hz c hc =>
    (identifierChar_bounds (hz.2.1 c hc)).1
  rw [compareIdentifiers, if_neg hne, hdigits x hx, hdigits y hy]
  split
  · rfl
  · have hlt := textLt_iff (hascii x hx) (hascii y hy)
    cases ho : compareText x y with
    | lt => rw [if_pos (hlt.mpr ho)]; rfl
    | eq => exact absurd (compareText_eq.mp ho) hne
    | gt =>
      rw [if_neg fun hc => absurd (hlt.mp hc) (by rw [ho]; exact Ordering.noConfusion)]
      rfl

theorem identifiers_textOrder (hp : ∀ x ∈ p, Identifier x) (hq : ∀ x ∈ q, Identifier x)
    (ho : o ≠ .eq) : (compareIdentifiers p q).sign = some o ↔ textOrder p q = o := by
  induction p generalizing q with
  | nil =>
    cases q with
    | nil => exact iff_of_false (fun he => ho (some.inj he).symm) ho.symm
    | cons y ys =>
      have hlen : compare 0 (ys.length + 1) = .lt := Nat.compare_eq_lt.mpr (Nat.succ_pos _)
      show some Ordering.lt = some o ↔ compare 0 (ys.length + 1) = o
      rw [hlen, some.injEq]
  | cons x xs ih =>
    cases q with
    | nil =>
      have hlen : compare (xs.length + 1) 0 = .gt := Nat.compare_eq_gt.mpr (Nat.succ_pos _)
      show some Ordering.gt = some o ↔ compare (xs.length + 1) 0 = o
      rw [hlen, some.injEq]
    | cons y ys =>
      have hx := hp x mem_cons_self
      have hy := hq y mem_cons_self
      by_cases hne : x = y
      · rw [compareIdentifiers, if_pos hne, textOrder, if_pos hne]
        exact ih (fun z hz => hp z (mem_cons_of_mem x hz))
          (fun z hz => hq z (mem_cons_of_mem y hz))
      · rw [identifiers_sign hx hy hne, textOrder, if_neg hne]
        split
        · by_cases hd : double (value x) = double (value y)
          · rw [Nat.compare_eq_eq.mpr hd]
            exact iff_of_false (sign_sub_same hd ho) ho.symm
          · rw [number, number, sign_sub hd, some.injEq]
        · rw [some.injEq]

theorem identifiers_told (hp : ∀ x ∈ p, Identifier x) (hq : ∀ x ∈ q, Identifier x) :
    (compareIdentifiers p q).sign = some (List.compareLex Semver.compareIdentifiers p q) ↔
      IdentifiersTold p q := by
  induction p generalizing q with
  | nil => cases q <;> exact iff_of_true rfl trivial
  | cons x xs ih =>
    cases q with
    | nil => exact iff_of_true rfl trivial
    | cons y ys =>
      have hx := hp x mem_cons_self
      have hy := hq y mem_cons_self
      rw [List.compareLex_cons_cons]
      by_cases hne : x = y
      · have hsame : Semver.compareIdentifiers x y = .eq := by
          rw [hne]
          exact Std.ReflCmp.compare_self
        rw [compareIdentifiers, if_pos hne, IdentifiersTold, if_pos hne, hsame]
        exact ih (fun z hz => hp z (mem_cons_of_mem x hz))
          (fun z hz => hq z (mem_cons_of_mem y hz))
      · rw [identifiers_sign hx hy hne, IdentifiersTold, if_neg hne, Semver.compareIdentifiers]
        have htext : compareText x y ≠ .eq := fun he => hne (compareText_eq.mp he)
        have hthen : ∀ o : Ordering, o ≠ .eq → ∀ rest, o.then rest = o := fun o ho rest => by
          cases o <;> simp_all
        cases hxd : x.all isDigit <;> cases hyd : y.all isDigit
        · exact iff_of_true (by simp [hthen _ htext]) trivial
        · show some (compareText x y) = some .gt ↔ compareText x y = .gt
          rw [some.injEq]
        · show some (compareText x y) = some .lt ↔ compareText x y = .lt
          rw [some.injEq]
        · have hval : compare (value x) (value y) ≠ .eq := fun he =>
            hne (value_inj (hx.2.2 hxd) (hy.2.2 hyd) (Nat.compare_eq_eq.mp he))
          show ((number x).sub (number y)).sign = some ((compare (value x) (value y)).then _) ↔
            double (value x) ≠ double (value y)
          rw [hthen _ hval]
          by_cases hd : double (value x) = double (value y)
          · exact iff_of_false (sign_sub_same hd hval) (fun hn => hn hd)
          · rw [number, number, sign_sub hd, compare_double hd]
            exact iff_of_true rfl hd

theorem told_nil : told p q [] [] = (prereleaseNum p q).sign := by
  simp [told, compareParts]

theorem prerelease_follows (hp : ∀ x ∈ p, Identifier x) (hq : ∀ x ∈ q, Identifier x)
    (ho : o ≠ .eq) : (prereleaseNum p q).sign = some o ↔ Follows o p q [] [] := by
  rw [prereleaseNum]
  by_cases hpq : p = q
  · have hself : ∀ l : List (List Char), textOrder l l = .eq := fun l => by
      induction l with
      | nil => rfl
      | cons x xs ih => rw [textOrder, if_pos rfl, ih]
    rw [if_pos hpq, ← hpq]
    refine iff_of_false (fun he => ho (some.inj he).symm) ?_
    cases p with
    | nil => exact fun he => ho he.symm
    | cons x xs => exact fun he => ho (by rw [← he]; exact hself _)
  · rw [if_neg hpq]
    cases p with
    | nil =>
      cases q with
      | nil => exact absurd rfl hpq
      | cons y ys =>
        show some Ordering.gt = some o ↔ o = .gt
        rw [some.injEq, eq_comm]
    | cons x xs =>
      cases q with
      | nil =>
        show some Ordering.lt = some o ↔ o = .lt
        rw [some.injEq, eq_comm]
      | cons y ys => exact identifiers_textOrder hp hq ho

theorem told_follows (hp : ∀ x ∈ p, Identifier x) (hq : ∀ x ∈ q, Identifier x) (ho : o ≠ .eq)
    (hlen : ms.length = ns.length) : told p q ms ns = some o ↔ Follows o p q ms ns := by
  induction ms generalizing ns with
  | nil =>
    obtain rfl : ns = [] := length_eq_zero_iff.mp hlen.symm
    rw [told_nil]
    exact prerelease_follows hp hq ho
  | cons m ms ih =>
    cases ns with
    | nil => cases hlen
    | cons n ns =>
      rw [Follows]
      by_cases hd : double m = double n
      · rw [told_cons_same hd, if_pos hd]
        exact ih (Nat.succ.inj hlen)
      · rw [told_cons hd, if_neg hd, some.injEq]

theorem prerelease_told (hp : ∀ x ∈ p, Identifier x) (hq : ∀ x ∈ q, Identifier x) :
    (prereleaseNum p q).sign = some (comparePrereleases p q) ↔ IdentifiersTold p q := by
  rw [prereleaseNum]
  by_cases hpq : p = q
  · have htold : ∀ l : List (List Char), IdentifiersTold l l := fun l => by
      induction l with
      | nil => trivial
      | cons x xs ih => rwa [IdentifiersTold, if_pos rfl]
    have hself : comparePrereleases q q = .eq := Std.ReflCmp.compare_self
    rw [if_pos hpq, hpq, hself]
    exact iff_of_true rfl (htold q)
  · rw [if_neg hpq]
    cases p with
    | nil =>
      cases q with
      | nil => exact absurd rfl hpq
      | cons y ys => exact iff_of_true rfl trivial
    | cons x xs =>
      cases q with
      | nil => exact iff_of_true rfl trivial
      | cons y ys => exact identifiers_told hp hq

theorem told_precedence (hp : ∀ x ∈ p, Identifier x) (hq : ∀ x ∈ q, Identifier x)
    (hlen : ms.length = ns.length) :
    told p q ms ns = some ((List.compareLex compare ms ns).then (comparePrereleases p q)) ↔
      CoresTold p q ms ns := by
  induction ms generalizing ns with
  | nil =>
    obtain rfl : ns = [] := length_eq_zero_iff.mp hlen.symm
    rw [told_nil]
    exact prerelease_told hp hq
  | cons m ms ih =>
    cases ns with
    | nil => cases hlen
    | cons n ns =>
      rw [CoresTold, List.compareLex_cons_cons]
      by_cases hmn : m = n
      · rw [told_cons_same (congrArg double hmn), if_pos hmn, Nat.compare_eq_eq.mpr hmn]
        exact ih (Nat.succ.inj hlen)
      · have hne : compare m n ≠ .eq := fun he => hmn (Nat.compare_eq_eq.mp he)
        have hthen : ∀ o rest rest' : Ordering, o ≠ .eq → (o.then rest).then rest' = o := by
          decide
        rw [if_neg hmn, hthen _ _ _ hne]
        by_cases hd : double m = double n
        · rw [told_cons_same hd, told_follows hp hq hne (Nat.succ.inj hlen)]
          exact ⟨.inr, fun hor => hor.resolve_left fun hn => hn hd⟩
        · rw [told_cons hd, compare_double hd]
          exact iff_of_true rfl (.inl hd)

theorem precedence_eq (a b : Version) : precedence a b =
    (List.compareLex compare (a.core.map value) (b.core.map value)).then
      (comparePrereleases a.prerelease b.prerelease) := by
  rfl

theorem sign_told (a b : Version) : (compareReleaseVersions a.text b.text).sign =
    told a.prerelease b.prerelease (a.core.map value) (b.core.map value) := by
  rw [compareReleaseVersions_text, told]

theorem sign_precedence (a b : Version) :
    (compareReleaseVersions a.text b.text).sign = some (precedence a b) ↔ Told a b := by
  rw [sign_told, precedence_eq]
  exact told_precedence a.identifiers b.identifiers rfl

/-- Versions are ordered by precedence where each two of them can be told apart. -/
theorem ordered_iff (S : Set Version) : Ordered S ↔ ∀ a ∈ S, ∀ b ∈ S, Told a b := by
  constructor
  · intro h a ha b hb
    exact (sign_precedence a b).mp (h.precedence a ha b hb)
  · intro h
    have hsign : ∀ a ∈ S, ∀ b ∈ S,
        (compareReleaseVersions a.text b.text).sign = some (precedence a b) :=
      fun a ha b hb => (sign_precedence a b).mpr (h a ha b hb)
    have hnewer : ∀ a ∈ S, ∀ b ∈ S, NoNewer a b ↔ (precedence a b).isLE = true :=
      fun a ha b hb => by
        rw [NoNewer, hsign a ha b hb, Option.some.injEq, Option.some.injEq]
        cases precedence a b <;> simp
    have hpre : Std.TransCmp precedence := inferInstance
    refine ⟨hsign, fun a ha b hb => ?_, fun a ha b hb => ?_, fun a ha b hb c hc hab hbc => ?_⟩
    · rw [hsign b hb a ha, hsign a ha b hb, hpre.eq_swap]
      rfl
    · rw [hnewer a ha b hb, hnewer b hb a ha, hpre.eq_swap (a := b)]
      cases precedence a b <;> simp
    · rw [hnewer a ha b hb] at hab
      rw [hnewer b hb c hc] at hbc
      rw [hnewer a ha c hc]
      exact hpre.isLE_trans hab hbc

theorem numeric_0 : Numeric ['0'] := ⟨by simp, by simp [isDigit], by simp⟩

theorem numeric_1 : Numeric ['1'] := ⟨by simp, by simp [isDigit], by simp⟩

def candidate (x : List Char) (hx : Identifier x) : Version where
  major := ['1']
  minor := ['0']
  patch := ['0']
  prerelease := [x]
  majorNumeric := numeric_1
  minorNumeric := numeric_0
  patchNumeric := numeric_0
  identifiers := by simpa using hx

theorem identifier_2 : Identifier ['2'] :=
  ⟨by simp, by simp [isIdentifierChar, isDigit], fun _ => ⟨by simp, by simp [isDigit], by simp⟩⟩

theorem identifier_10 : Identifier ['1', '0'] :=
  ⟨by simp, by simp [isIdentifierChar, isDigit], fun _ => ⟨by simp, by simp [isDigit], by simp⟩⟩

theorem identifier_1a : Identifier ['1', 'a'] :=
  ⟨by simp, by simp [isIdentifierChar, isDigit, isLetter], by simp [isDigit]⟩

/-- `1a` is told to be below `2`, which is below `10`; and `10` is told to be below `1a`. -/
theorem not_ordered : ¬Ordered Set.univ := by
  intro h
  have hcycle := h.transitive (candidate _ identifier_1a) trivial (candidate _ identifier_2) trivial
    (candidate _ identifier_10) trivial
  exact absurd (hcycle (.inl (by decide)) (.inl (by decide)))
    (fun hor => hor.elim (by decide) (by decide))

end VibeField.Contracts.ReleaseVersions

import VibeField.Base.Spelling
import VibeField.Base.Utf16

/-!
# Code points

The code points of a text of UTF-16 units, a surrogate that stands alone being one of its own.  The
units of a text of scalars spell it: what is told below the surrogates by the number of a unit is
told of the scalar.
-/

namespace VibeField.Utf16

open List

def codePoints : List UInt16 → List Nat
  | [] => []
  | [u] => [u.toNat]
  | u :: v :: rest =>
    if isHigh u && isLow v then
      (0x10000 + (u.toNat - 0xD800) * 0x400 + (v.toNat - 0xDC00)) :: codePoints rest
    else u.toNat :: codePoints (v :: rest)

def unitsOf (point : Nat) : List UInt16 :=
  if point < 0x10000 then [UInt16.ofNat point]
  else
    [UInt16.ofNat (0xD800 + (point - 0x10000) / 0x400),
      UInt16.ofNat (0xDC00 + (point - 0x10000) % 0x400)]

def isSurrogate (point : Nat) : Bool := 0xD800 ≤ point && point < 0xE000

def wellFormed (text : List UInt16) : Bool := (codePoints text).all fun point => !isSurrogate point

def unit (c : Char) : UInt16 := UInt16.ofNat c.toNat

variable {text : List UInt16} {point : Nat} {c : Char}

/-! ## Code points are read back -/

theorem isSurrogate_iff : isSurrogate point = false ↔ point < 0xD800 ∨ 0xE000 ≤ point := by
  rw [isSurrogate, Bool.and_eq_false_iff, decide_eq_false_iff_not, decide_eq_false_iff_not]
  omega

theorem codePoints_single {u : UInt16} {rest : List UInt16}
    (h : ∀ v t, rest = v :: t → (isHigh u && isLow v) = false) :
    codePoints (u :: rest) = u.toNat :: codePoints rest := by
  cases rest with
  | nil => rfl
  | cons v t => rw [codePoints, h v t rfl, if_neg Bool.false_ne_true]

theorem surrogates {u v : UInt16} (h : (isHigh u && isLow v) = true) :
    (0xD800 ≤ u.toNat ∧ u.toNat < 0xDC00) ∧ 0xDC00 ≤ v.toNat ∧ v.toNat < 0xE000 := by
  simpa [isHigh, isLow] using h

theorem unitsOf_pair {u v : UInt16} (h : (isHigh u && isLow v) = true) :
    unitsOf (0x10000 + (u.toNat - 0xD800) * 0x400 + (v.toNat - 0xDC00)) = [u, v] := by
  obtain ⟨hu, hv⟩ := surrogates h
  have hhigh : 0xD800 + (0x10000 + (u.toNat - 0xD800) * 0x400 + (v.toNat - 0xDC00) - 0x10000) /
      0x400 = u.toNat := by omega
  have hlow : 0xDC00 + (0x10000 + (u.toNat - 0xD800) * 0x400 + (v.toNat - 0xDC00) - 0x10000) %
      0x400 = v.toNat := by omega
  rw [unitsOf, if_neg (by omega), hhigh, hlow, UInt16.ofNat_toNat, UInt16.ofNat_toNat]

theorem unitsOf_toNat (u : UInt16) : unitsOf u.toNat = [u] := by
  rw [unitsOf, if_pos u.toNat_lt, UInt16.ofNat_toNat]

theorem flatMap_unitsOf (text : List UInt16) : (codePoints text).flatMap unitsOf = text := by
  fun_induction codePoints text with
  | case1 => rfl
  | case2 u => exact (append_nil _).trans (unitsOf_toNat u)
  | case3 u v rest h ih => rw [flatMap_cons, ih, unitsOf_pair h]; rfl
  | case4 u v rest h ih => rw [flatMap_cons, ih, unitsOf_toNat]; rfl

theorem codePoints_lt (text : List UInt16) : ∀ point ∈ codePoints text, point < 0x110000 := by
  fun_induction codePoints text with
  | case1 => simp
  | case2 u =>
    have hu := u.toNat_lt
    simp
    omega
  | case3 u v rest h ih =>
    obtain ⟨hu, hv⟩ := surrogates h
    refine forall_mem_cons.mpr ⟨by omega, ih⟩
  | case4 u v rest h ih =>
    have hu := u.toNat_lt
    exact forall_mem_cons.mpr ⟨by omega, ih⟩

theorem codePoints_of_low {text : List UInt16} (h : ∀ u ∈ text, isHigh u = false) :
    codePoints text = text.map UInt16.toNat := by
  induction text with
  | nil => rfl
  | cons u text ih =>
    obtain ⟨hu, htext⟩ := forall_mem_cons.mp h
    rw [codePoints_single fun v t _ => by rw [hu, Bool.false_and], ih htext, map_cons]

/-! ## The units of a scalar -/

theorem units_eq (c : Char) : units c = unitsOf c.toNat := rfl

theorem units_of_lt (h : c.toNat < 0x10000) : units c = [unit c] := if_pos h

theorem units_ne (c : Char) : units c ≠ [] := by
  rw [units]
  split
  · exact cons_ne_nil _ _
  · exact cons_ne_nil _ _

theorem toNat_unit (h : c.toNat < 0x10000) : (unit c).toNat = c.toNat := toNat_ofNat h

theorem unit_inj {d : Char} (hc : c.toNat < 0x10000) (hd : d.toNat < 0x10000)
    (h : unit c = unit d) : c = d := by
  have hnat := congrArg UInt16.toNat h
  rw [toNat_unit hc, toNat_unit hd] at hnat
  exact Char.toNat_inj.mp hnat

theorem codePoints_units (c : Char) (rest : List UInt16) :
    codePoints (units c ++ rest) = c.toNat :: codePoints rest := by
  have hlt := toNat_lt c
  rw [units]
  split
  · next hplane =>
    obtain ⟨hhigh, -⟩ := not_surrogate_unit (not_surrogate c) hplane
    rw [singleton_append, codePoints_single fun v t _ => by rw [hhigh, Bool.false_and],
      toNat_ofNat hplane]
  · have hdiv : (c.toNat - 0x10000) / 0x400 < 0x400 := by omega
    have hmod : (c.toNat - 0x10000) % 0x400 < 0x400 := by omega
    have hnat : 0x10000 + (0xD800 + (c.toNat - 0x10000) / 0x400 - 0xD800) * 0x400 +
        (0xDC00 + (c.toNat - 0x10000) % 0x400 - 0xDC00) = c.toNat := by
      omega
    rw [cons_append, singleton_append, codePoints, high_toNat _ hdiv, low_toNat _ hmod,
      toNat_ofNat (by omega), toNat_ofNat (by omega), hnat]
    exact if_pos rfl

theorem codePoints_encode (t : List Char) : codePoints (encode t) = t.map Char.toNat := by
  induction t with
  | nil => rfl
  | cons c t ih =>
    rw [encode, flatMap_cons, codePoints_units, map_cons]
    exact congrArg (List.cons c.toNat) ih

theorem encode_eq_nil {t : List Char} : encode t = [] ↔ t = [] := Spelling.flatMap_eq_nil units_ne

/-! ## What a number tells -/

/-- What no surrogate and nothing past the surrogates meets. -/
def Below (P : Nat → Bool) : Prop := ∀ n, 0xD800 ≤ n → P n = false

theorem unit_of_mem {u : UInt16} (h : u ∈ units c) :
    u.toNat = c.toNat ∨ 0xD800 ≤ u.toNat ∧ 0xD800 ≤ c.toNat := by
  have hlt := toNat_lt c
  rw [units] at h
  split at h
  · next hplane =>
    rw [mem_singleton] at h
    rw [h]
    exact .inl (toNat_ofNat hplane)
  · rcases mem_pair.mp h with rfl | rfl
    · rw [toNat_ofNat (by omega)]
      omega
    · rw [toNat_ofNat (by omega)]
      omega

theorem agrees {P : Nat → Bool} (hP : Below P) :
    Spelling.Agrees units (fun u => P u.toNat) fun c => P c.toNat where
  ne := units_ne
  same c u hu := by
    rcases unit_of_mem hu with h | ⟨hu, hc⟩
    · exact congrArg P h
    · exact (hP _ hu).trans (hP _ hc).symm

theorem agrees_eq (hc : c.toNat < 0xD800) :
    Spelling.Agrees units (fun u => decide (u = unit c)) fun d => decide (d = c) := by
  have hunit := toNat_unit (c := c) (by omega)
  have h : Below fun n => decide (n = c.toNat) := fun n hn => decide_eq_false (by omega)
  have hnum := agrees h
  refine ⟨units_ne, fun d u hu => ?_⟩
  have hsame := hnum.same d u hu
  simp only [decide_eq_decide] at hsame ⊢
  rw [← UInt16.toNat_inj, hunit, hsame, Char.toNat_inj]

theorem agrees_beq (hc : c.toNat < 0xD800) :
    Spelling.Agrees units (fun u => u == unit c) fun d => d == c := by
  have h := agrees_eq hc
  refine ⟨units_ne, fun d u hu => ?_⟩
  have hsame := h.same d u hu
  simp only [decide_eq_decide] at hsame
  rw [Bool.eq_iff_iff, beq_iff_eq, beq_iff_eq, hsame]

theorem splitOn_encode (hc : c.toNat < 0xD800) (t : List Char) :
    (encode t).splitOn (unit c) = (t.splitOn c).map encode := by
  have hone : ∀ d, (d == c) = true → ∃ u, units d = [u] := fun d hd => by
    rw [beq_iff_eq] at hd
    exact ⟨unit d, units_of_lt (by rw [hd]; omega)⟩
  exact Spelling.splitOnP_flatMap (agrees_beq hc) hone t

theorem contains_encode (hc : c.toNat < 0xD800) (t : List Char) :
    (encode t).contains (unit c) = t.contains c := by
  have h := Spelling.any_flatMap (agrees_eq hc) t
  rw [Bool.eq_iff_iff] at h ⊢
  simp only [any_eq_true, decide_eq_true_eq, exists_eq_right, contains_iff_mem] at h ⊢
  exact h

theorem any_some {α : Type} [DecidableEq α] (a : α) (o : Option α) :
    (o.any fun b => decide (b = a)) = true ↔ o = some a := by
  cases o with
  | none => simp
  | some b => simp

theorem head?_encode (hc : c.toNat < 0xD800) (t : List Char) :
    (encode t).head? = some (unit c) ↔ t.head? = some c := by
  rw [← any_some, ← any_some]
  exact Bool.eq_iff_iff.mp (Spelling.head_flatMap (agrees_eq hc) t)

theorem getLast?_encode (hc : c.toNat < 0xD800) (t : List Char) :
    (encode t).getLast? = some (unit c) ↔ t.getLast? = some c := by
  rw [← any_some, ← any_some]
  exact Bool.eq_iff_iff.mp (Spelling.getLast_flatMap (agrees_eq hc) t)

theorem encode_cons_of_lt (hc : c.toNat < 0x10000) (t : List Char) :
    encode (c :: t) = unit c :: encode t := by
  rw [encode, flatMap_cons, units_of_lt hc]
  rfl

theorem drop_one_encode (hc : c.toNat < 0xD800) {t : List Char} (h : t.head? = some c) :
    (encode t).drop 1 = encode (t.drop 1) := by
  cases t with
  | nil => cases h
  | cons d t =>
    cases h
    rw [encode_cons_of_lt (by omega)]
    rfl

end VibeField.Utf16

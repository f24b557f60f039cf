import Mathlib.Data.List.Basic

/-!
# Percent-encoding and separators

`encodeURIComponent` keeps the letters, the digits and nine marks, and writes every
other byte of the UTF-8 text as a percent sign and two hexadecimal digits.  Texts are
told apart by what it makes of them, and none of it is a separator of a composed key.
-/

namespace VibeField.Uri

open List

def unreserved (byte : UInt8) : Bool :=
  let n := byte.toNat
  (65 ≤ n && n ≤ 90) || (97 ≤ n && n ≤ 122) || (48 ≤ n && n ≤ 57) ||
    [45, 95, 46, 33, 126, 42, 39, 40, 41].contains n

def hexDigit (n : Nat) : Char := Char.ofNat (if n < 10 then 48 + n else 55 + n)

def encodeByte (byte : UInt8) : List Char :=
  if unreserved byte then [Char.ofNat byte.toNat]
  else ['%', hexDigit (byte.toNat / 16), hexDigit (byte.toNat % 16)]

def encodeURIComponent (text : String) : String :=
  String.ofList (text.toUTF8.data.toList.flatMap encodeByte)

def hexValue (c : Char) : Option Nat :=
  let n := c.toNat
  if 48 ≤ n && n ≤ 57 then some (n - 48)
  else if 65 ≤ n && n ≤ 70 then some (n - 55)
  else if 97 ≤ n && n ≤ 102 then some (n - 87)
  else none

def decodeBytes : List Char → Option (List UInt8)
  | [] => some []
  | '%' :: high :: low :: rest =>
    match hexValue high, hexValue low, decodeBytes rest with
    | some h, some l, some bytes => some (UInt8.ofNat (16 * h + l) :: bytes)
    | _, _, _ => none
  | '%' :: _ => none
  | c :: rest => (decodeBytes rest).map (c.toString.toUTF8.data.toList ++ ·)

def decodeURIComponent (text : List Char) : Option String :=
  (decodeBytes text).bind fun bytes => String.fromUTF8? ⟨bytes.toArray⟩

/-! ## Texts are told apart -/

theorem kept_ne_percent (byte : UInt8) (h : unreserved byte = true) :
    Char.ofNat byte.toNat ≠ '%' := by
  have hall : ∀ i : Fin 256, unreserved (UInt8.ofFin i) = true →
      Char.ofNat (UInt8.ofFin i).toNat ≠ '%' := by
    decide +kernel
  exact hall byte.toFin h

theorem kept_inj {a b : UInt8} (ha : unreserved a = true) (hb : unreserved b = true)
    (h : Char.ofNat a.toNat = Char.ofNat b.toNat) : a = b := by
  have hall : ∀ i : Fin 256, unreserved (UInt8.ofFin i) = true →
      (Char.ofNat (UInt8.ofFin i).toNat).toNat = (UInt8.ofFin i).toNat := by
    decide +kernel
  have ha' : (Char.ofNat a.toNat).toNat = a.toNat := hall a.toFin ha
  have hb' : (Char.ofNat b.toNat).toNat = b.toNat := hall b.toFin hb
  rw [← UInt8.toNat_inj, ← ha', ← hb', h]

theorem hexDigit_inj {m n : Nat} (hm : m < 16) (hn : n < 16) (h : hexDigit m = hexDigit n) :
    m = n := by
  have hall : ∀ i j : Fin 16, hexDigit i.val = hexDigit j.val → i = j := by decide
  exact congrArg Fin.val (hall ⟨m, hm⟩ ⟨n, hn⟩ h)

theorem encodeByte_append_inj {a b : UInt8} {x y : List Char}
    (h : encodeByte a ++ x = encodeByte b ++ y) : a = b ∧ x = y := by
  unfold encodeByte at h
  split at h
  · next ha =>
    split at h
    · next hb =>
      obtain ⟨hc, hx⟩ := List.cons.inj h
      exact ⟨kept_inj ha hb hc, hx⟩
    · exact absurd (List.cons.inj h).1 (kept_ne_percent a ha)
  · split at h
    · next hb => exact absurd (List.cons.inj h).1.symm (kept_ne_percent b hb)
    · simp only [cons_append, nil_append, List.cons.injEq, true_and] at h
      obtain ⟨hhigh, hlow, hx⟩ := h
      have ha := a.toNat_lt
      have hb := b.toNat_lt
      have hdiv := hexDigit_inj (by omega) (by omega) hhigh
      have hmod := hexDigit_inj (by omega) (by omega) hlow
      have hnat : a.toNat = b.toNat := by omega
      exact ⟨UInt8.toNat_inj.mp hnat, hx⟩

theorem encodeByte_ne_nil (byte : UInt8) : encodeByte byte ≠ [] := by
  unfold encodeByte
  split <;> simp

theorem encodeBytes_inj : ∀ {a b : List UInt8},
    a.flatMap encodeByte = b.flatMap encodeByte → a = b := by
  intro a
  induction a with
  | nil =>
    intro b h
    cases b with
    | nil => rfl
    | cons byte b =>
      rw [flatMap_cons] at h
      exact absurd (append_eq_nil_iff.mp h.symm).1 (encodeByte_ne_nil byte)
  | cons byte a ih =>
    intro b h
    cases b with
    | nil =>
      rw [flatMap_cons] at h
      exact absurd (append_eq_nil_iff.mp h).1 (encodeByte_ne_nil byte)
    | cons byte' b =>
      rw [flatMap_cons, flatMap_cons] at h
      obtain ⟨rfl, hrest⟩ := encodeByte_append_inj h
      rw [ih hrest]

theorem encodeURIComponent_inj {s t : String}
    (h : encodeURIComponent s = encodeURIComponent t) : s = t := by
  have hbytes : s.toUTF8.data.toList = t.toUTF8.data.toList := by
    apply encodeBytes_inj
    have hlist := congrArg String.toList h
    rwa [encodeURIComponent, encodeURIComponent, String.toList_ofList,
      String.toList_ofList] at hlist
  have harray : s.toUTF8.data = t.toUTF8.data := Array.toList_inj.mp hbytes
  exact String.toByteArray_inj.mp (ByteArray.ext harray)

/-! ## No separator is written -/

def separators : List Char := ['#', '/', ':']

theorem not_separator_of_mem {text : String} {c : Char}
    (h : c ∈ (encodeURIComponent text).toList) : c ∉ separators := by
  rw [encodeURIComponent, String.toList_ofList] at h
  obtain ⟨byte, -, hc⟩ := mem_flatMap.mp h
  have hall : ∀ n < 256,
      (encodeByte (UInt8.ofNat n)).all (fun c => !separators.contains c) = true := by
    decide +kernel
  have hbyte := hall byte.toNat byte.toNat_lt
  rw [UInt8.ofNat_toNat, all_eq_true] at hbyte
  simpa using hbyte c hc

theorem cut_inj {sep : Char} {a b x y : List Char} (ha : sep ∉ a) (hb : sep ∉ b)
    (h : a ++ sep :: x = b ++ sep :: y) : a = b ∧ x = y := by
  have hfirst : ∀ {c z : List Char}, sep ∉ c → (c ++ sep :: z).takeWhile (· != sep) = c := by
    intro c z hc
    rw [takeWhile_append_of_pos (by grind), takeWhile_cons_of_neg (by simp), append_nil]
  obtain rfl : a = b := by rw [← hfirst ha, h, hfirst hb]
  exact ⟨rfl, (cons.inj (append_cancel_left h)).2⟩

theorem cut_ne {sep : Char} {a b x : List Char} (ha : sep ∉ a) : a ≠ b ++ sep :: x := by
  rintro rfl
  exact ha (mem_append_right b mem_cons_self)

end VibeField.Uri

import Mathlib.Data.List.Basic
import Mathlib.Data.Rat.Defs

/-!
# Codecs

A codec writes a value as characters from which it is read back, whatever follows them.  Codecs are
made of others: for pairs, options, lists, and types that stand for one another.
-/

namespace VibeField

open List

universe u v

structure Codec (α : Type u) where
  write : α → List Char
  read : List Char → Option (α × List Char)
  law : ∀ a rest, read (write a ++ rest) = some (a, rest)

namespace Codec

variable {α : Type u} {β : Type v}

def char : Codec Char where
  write c := [c]
  read
    | [] => none
    | c :: rest => some (c, rest)
  law _ _ := rfl

def bool : Codec Bool where
  write b := [if b then '1' else '0']
  read
    | [] => none
    | c :: rest => some (c == '1', rest)
  law b rest := by cases b <;> rfl

def readNat : List Char → Option (Nat × List Char)
  | [] => none
  | c :: rest => if c = '1' then (readNat rest).map fun r => (r.1 + 1, r.2) else some (0, rest)

def nat : Codec Nat where
  write n := List.replicate n '1' ++ ['0']
  read := readNat
  law n rest := by
    induction n with
    | zero => rfl
    | succ n ih =>
      show (readNat (List.replicate n '1' ++ ['0'] ++ rest)).map _ = _
      rw [ih]
      rfl

def pair (a : Codec α) (b : Codec β) : Codec (α × β) where
  write x := a.write x.1 ++ b.write x.2
  read text := (a.read text).bind fun x => (b.read x.2).map fun y => ((x.1, y.1), y.2)
  law x rest := by
    rw [List.append_assoc, a.law]
    show (b.read (b.write x.2 ++ rest)).map _ = _
    rw [b.law]
    rfl

def via (a : Codec α) (f : β → α) (g : α → β) (h : ∀ b, g (f b) = b) : Codec β where
  write b := a.write (f b)
  read text := (a.read text).map fun x => (g x.1, x.2)
  law b rest := by
    rw [a.law]
    show some (g (f b), rest) = some (b, rest)
    rw [h]

def readMany (a : Codec α) : Nat → List Char → Option (List α × List Char)
  | 0, text => some ([], text)
  | n + 1, text =>
    (a.read text).bind fun x => (readMany a n x.2).map fun xs => (x.1 :: xs.1, xs.2)

theorem readMany_flatMap (a : Codec α) (l : List α) (rest : List Char) :
    readMany a l.length (l.flatMap a.write ++ rest) = some (l, rest) := by
  induction l with
  | nil => rfl
  | cons x l ih =>
    rw [flatMap_cons, append_assoc, length_cons, readMany, a.law]
    show (readMany a l.length (l.flatMap a.write ++ rest)).map _ = _
    rw [ih]
    rfl

def list (a : Codec α) : Codec (List α) where
  write l := nat.write l.length ++ l.flatMap a.write
  read text := (nat.read text).bind fun n => readMany a n.1 n.2
  law l rest := by
    rw [List.append_assoc, nat.law]
    exact readMany_flatMap a l rest

def option (a : Codec α) : Codec (Option α) :=
  (list a).via Option.toList List.head? fun o => by cases o <;> rfl

def int : Codec Int :=
  (pair bool nat).via
    (fun
      | .ofNat n => (true, n)
      | .negSucc n => (false, n))
    (fun x => if x.1 then .ofNat x.2 else .negSucc x.2) fun n => by cases n <;> rfl

def rat : Codec ℚ :=
  (pair int nat).via (fun q => (q.num, q.den)) (fun x => mkRat x.1 x.2) Rat.mkRat_self

def decode (a : Codec α) (text : List Char) : Option α := (a.read text).map Prod.fst

theorem decode_write (a : Codec α) (x : α) : a.decode (a.write x) = some x := by
  have hlaw := a.law x []
  rw [append_nil] at hlaw
  rw [decode, hlaw]
  rfl

end Codec
end VibeField

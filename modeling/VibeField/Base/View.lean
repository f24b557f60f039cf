import Mathlib.Data.List.Forall2
import Mathlib.Data.List.Perm.Basic
import VibeField.Base.Slices

/-!
# Views of bytes

A reader takes numbers and spans out of a file's bytes.  It refuses what it will not read, and it
stops where it asks for a byte the file does not have; a reader that never does the second stays
inside the file.  Where two files agree on what a reader looks at they are read alike.
-/

namespace VibeField

open List

/-! ## Lists that go together -/

variable {α β γ : Type}

theorem forall₂_comp {R : α → β → Prop} {S : β → γ → Prop} {l : List α}
    {m : List β} {n : List γ} (hl : List.Forall₂ R l m) (hm : List.Forall₂ S m n) :
    List.Forall₂ (fun x z => ∃ y, R x y ∧ S y z) l n := by
  induction hl generalizing n with
  | nil =>
    cases hm
    exact .nil
  | cons hxy _ ih =>
    cases hm with
    | cons hyz hrest => exact .cons ⟨_, hxy, hyz⟩ (ih hrest)

theorem forall₂_split {R : α → β → Prop} {S : β → γ → Prop} {l : List α}
    {n : List γ} (hl : List.Forall₂ (fun x z => ∃ y, R x y ∧ S y z) l n) :
    ∃ m, List.Forall₂ R l m ∧ List.Forall₂ S m n := by
  induction hl with
  | nil => exact ⟨[], .nil, .nil⟩
  | cons hxz _ ih =>
    obtain ⟨y, hxy, hyz⟩ := hxz
    obtain ⟨m, hlm, hmn⟩ := ih
    exact ⟨y :: m, .cons hxy hlm, .cons hyz hmn⟩

theorem mem_of_forall₂ {α β : Type} {R : α → β → Prop} {l : List α} {m : List β} {y : β}
    (h : List.Forall₂ R l m) (hy : y ∈ m) : ∃ x ∈ l, R x y := by
  induction h with
  | nil => cases hy
  | cons hxy _ ih =>
    rcases mem_cons.mp hy with rfl | hy
    · exact ⟨_, mem_cons_self, hxy⟩
    · obtain ⟨x, hx, hr⟩ := ih hy
      exact ⟨x, mem_cons_of_mem _ hx, hr⟩

theorem exists_forall₂_of_map_perm {f : α → γ} {g : β → γ} {l : List α} {m : List β}
    (h : (l.map f).Perm (m.map g)) :
    ∃ n, List.Forall₂ (fun x y => f x = g y) l n ∧ n.Perm m := by
  have hm : List.Forall₂ (fun z y => z = g y) (m.map g) m :=
    forall₂_map_left_iff.mpr (forall₂_same.mpr fun _ _ => rfl)
  obtain ⟨n, hn, hperm⟩ := perm_comp_forall₂ h hm
  exact ⟨n, forall₂_map_left_iff.mp hn, hperm⟩

/-! ## Readers -/

/-- Why a reader stopped. -/
inductive Stop (ε : Type) where
  /-- It asked for a byte that is not there. -/
  | outside
  | refused (why : ε)
  deriving DecidableEq

abbrev Reading (ε α : Type) := Except (Stop ε) α

namespace Reading

variable {ε α β : Type}

def refuseIf (c : Prop) [Decidable c] (why : ε) : Reading ε Unit :=
  if c then .error (.refused why) else .ok ()

variable {f : α → Reading ε β}

theorem bind_ok {x : Reading ε α} {b : β} :
    (x >>= f) = .ok b ↔ ∃ a, x = .ok a ∧ f a = .ok b := by
  cases x with
  | error e =>
    refine ⟨fun h => ?_, fun ⟨_, h, _⟩ => ?_⟩ <;> cases h
  | ok a => exact ⟨fun h => ⟨a, rfl, h⟩, fun ⟨_, h, hf⟩ => by cases h; exact hf⟩

@[simp] theorem refuseIf_ok {c : Prop} [Decidable c] {why : ε} {u : Unit} :
    refuseIf c why = .ok u ↔ ¬c := by
  rw [refuseIf]
  split <;> simp_all

/-- The reader did not ask for a byte that is not there. -/
def Inside (x : Reading ε α) : Prop := x ≠ .error .outside

theorem inside_ok (a : α) : Inside (.ok a : Reading ε α) := by
  rintro ⟨⟩

theorem inside_refuseIf (c : Prop) [Decidable c] (why : ε) : Inside (refuseIf c why) := by
  rw [refuseIf]
  split <;> rintro ⟨⟩

theorem Inside.bind {x : Reading ε α} (hx : Inside x)
    (hf : ∀ a, x = .ok a → Inside (f a)) : Inside (x >>= f) := by
  cases x with
  | error e => exact fun h => hx (by cases h; rfl)
  | ok a => exact hf a rfl

theorem Inside.unless {c : Prop} [Decidable c] {why : ε} {f : Unit → Reading ε β}
    (hf : ¬c → Inside (f ())) : Inside (refuseIf c why >>= f) :=
  (inside_refuseIf c why).bind fun _ h => hf (refuseIf_ok.mp h)

/-! ## Loops -/

variable {l : List α}

theorem forM_ok {f : α → Reading ε PUnit} {u : PUnit} :
    forM l f = .ok u ↔ ∀ a ∈ l, f a = .ok u := by
  induction l with
  | nil => simp [pure, Except.pure]
  | cons a l ih =>
    rw [forM_cons, bind_ok, forall_mem_cons, ← ih]
    exact ⟨fun ⟨_, h, hl⟩ => ⟨h, hl⟩, fun ⟨h, hl⟩ => ⟨u, h, hl⟩⟩

theorem Inside.forM {f : α → Reading ε PUnit} (h : ∀ a ∈ l, Inside (f a)) :
    Inside (forM l f) := by
  induction l with
  | nil => exact inside_ok _
  | cons a l ih =>
    rw [forM_cons]
    exact (h a mem_cons_self).bind fun _ _ =>
      ih fun b hb => h b (mem_cons_of_mem a hb)

theorem foldlM_ok {f : β → α → Reading ε β} {P : β → Prop}
    (hstep : ∀ b, P b → ∀ a ∈ l, ∀ b', f b a = .ok b' → P b') :
    ∀ {b c : β}, P b → l.foldlM f b = .ok c → P c := by
  induction l with
  | nil =>
    intro b c hb h
    cases h
    exact hb
  | cons a l ih =>
    intro b c hb h
    rw [foldlM_cons, bind_ok] at h
    obtain ⟨b', hb', hl⟩ := h
    exact ih (fun d hd x hx => hstep d hd x (mem_cons_of_mem a hx))
      (hstep b hb a mem_cons_self b' hb') hl

theorem Inside.foldlM {f : β → α → Reading ε β} {P : β → Prop}
    (hinside : ∀ b, P b → ∀ a ∈ l, Inside (f b a))
    (hstep : ∀ b, P b → ∀ a ∈ l, ∀ b', f b a = .ok b' → P b') :
    ∀ {b : β}, P b → Inside (l.foldlM f b) := by
  induction l with
  | nil => exact fun _ => inside_ok _
  | cons a l ih =>
    intro b hb
    rw [foldlM_cons]
    refine (hinside b hb a mem_cons_self).bind fun b' hb' => ?_
    exact ih (fun d hd x hx => hinside d hd x (mem_cons_of_mem a hx))
      (fun d hd x hx => hstep d hd x (mem_cons_of_mem a hx))
      (hstep b hb a mem_cons_self b' hb')

theorem mapM_ok {r : List β} :
    l.mapM f = .ok r ↔ List.Forall₂ (fun a b => f a = .ok b) l r := by
  induction l generalizing r with
  | nil =>
    rw [mapM_nil]
    exact ⟨fun h => by cases h; exact .nil, fun h => by cases h; rfl⟩
  | cons a l ih =>
    rw [mapM_cons, bind_ok]
    constructor
    · rintro ⟨b, hb, h⟩
      obtain ⟨bs, hbs, h⟩ := bind_ok.mp h
      cases h
      exact .cons hb (ih.mp hbs)
    · rintro (_ | ⟨hb, hbs⟩)
      exact ⟨_, hb, bind_ok.mpr ⟨_, ih.mpr hbs, rfl⟩⟩

theorem Inside.mapM (h : ∀ a ∈ l, Inside (f a)) :
    Inside (l.mapM f) := by
  induction l with
  | nil => exact inside_ok _
  | cons a l ih =>
    rw [mapM_cons]
    refine (h a mem_cons_self).bind fun _ _ => ?_
    exact (ih fun b hb => h b (mem_cons_of_mem a hb)).bind fun _ _ => inside_ok _

end Reading

namespace View

open Reading

variable {ε : Type}

def span (bytes : List UInt8) (p q : Nat) : Reading ε (List UInt8) :=
  if p ≤ q ∧ q ≤ bytes.length then .ok ((bytes.drop p).take (q - p)) else .error .outside

def bigEndian (l : List UInt8) : Nat := l.foldl (fun n x => n * 256 + x.toNat) 0

def uint8 (bytes : List UInt8) (p : Nat) : Reading ε Nat := do
  let l ← span bytes p (p + 1)
  return bigEndian l

def uint32 (bytes : List UInt8) (p : Nat) : Reading ε Nat := do
  let l ← span bytes p (p + 4)
  return bigEndian l

def uint32LE (bytes : List UInt8) (p : Nat) : Reading ε Nat := do
  let l ← span bytes p (p + 4)
  return bigEndian l.reverse

def uint64 (bytes : List UInt8) (p : Nat) : Reading ε Nat := do
  let l ← span bytes p (p + 8)
  return bigEndian l

variable {bytes a b l : List UInt8} {p q n : Nat}

theorem span_ok : (span bytes p q : Reading ε _) = .ok l ↔
    p ≤ q ∧ q ≤ bytes.length ∧ (bytes.drop p).take (q - p) = l := by
  rw [span]
  split
  · rename_i h
    exact ⟨fun e => ⟨h.1, h.2, Except.ok.inj e⟩, fun e => congrArg Except.ok e.2.2⟩
  · rename_i h
    exact ⟨fun e => (by cases e), fun e => absurd ⟨e.1, e.2.1⟩ h⟩

theorem length_of_span (h : (span bytes p q : Reading ε _) = .ok l) : l.length = q - p := by
  obtain ⟨-, hq, rfl⟩ := span_ok.mp h
  rw [length_take, length_drop]
  omega

theorem inside_span (hpq : p ≤ q) (hq : q ≤ bytes.length) :
    Inside (span bytes p q : Reading ε _) := by
  rw [span, if_pos ⟨hpq, hq⟩]
  exact inside_ok _

theorem inside_uint8 (h : p + 1 ≤ bytes.length) : Inside (uint8 bytes p : Reading ε _) :=
  (inside_span (Nat.le_add_right p 1) h).bind fun _ _ => inside_ok _

theorem inside_uint32 (h : p + 4 ≤ bytes.length) : Inside (uint32 bytes p : Reading ε _) :=
  (inside_span (Nat.le_add_right p 4) h).bind fun _ _ => inside_ok _

theorem inside_uint32LE (h : p + 4 ≤ bytes.length) : Inside (uint32LE bytes p : Reading ε _) :=
  (inside_span (Nat.le_add_right p 4) h).bind fun _ _ => inside_ok _

theorem inside_uint64 (h : p + 8 ≤ bytes.length) : Inside (uint64 bytes p : Reading ε _) :=
  (inside_span (Nat.le_add_right p 8) h).bind fun _ _ => inside_ok _

theorem exists_uint32 (h : p + 4 ≤ bytes.length) :
    ∃ n, (uint32 bytes p : Reading ε Nat) = .ok n := by
  refine ⟨_, bind_ok.mpr ⟨_, span_ok.mpr ⟨Nat.le_add_right p 4, h, rfl⟩, rfl⟩⟩

/-! ## The same bytes -/

/-- The `n` bytes at `p` of one file are those at `p'` of another. -/
structure Same (a : List UInt8) (p : Nat) (b : List UInt8) (p' n : Nat) : Prop where
  left : p + n ≤ a.length
  right : p' + n ≤ b.length
  bytes : ∀ k < n, a[p + k]? = b[p' + k]?

namespace Same

variable {p' q' k m : Nat}

theorem span (h : Same a p b p' n) {r r' : Nat} (hq : q = p + k) (hq' : q' = p' + k)
    (hr : r = q + m) (hr' : r' = q' + m) (hm : k + m ≤ n) :
    (View.span a q r : Reading ε _) = View.span b q' r' := by
  have hleft := h.left
  have hright := h.right
  refine (span_ok.mpr ⟨by omega, by omega, rfl⟩).trans
    (span_ok.mpr ⟨by omega, by omega, ?_⟩).symm
  have hr : r - q = m := by omega
  have hr' : r' - q' = m := by omega
  rw [hr, hr']
  refine ext_getElem? fun i => ?_
  rcases Nat.lt_or_ge i m with hi | hi
  · rw [List.getElem?_take_of_lt hi, List.getElem?_take_of_lt hi, List.getElem?_drop,
      List.getElem?_drop, hq, hq', Nat.add_assoc, Nat.add_assoc]
    exact (h.bytes (k + i) (by omega)).symm
  · rw [List.getElem?_eq_none, List.getElem?_eq_none]
    · exact Nat.le_trans (length_take_le _ _) hi
    · exact Nat.le_trans (length_take_le _ _) hi

theorem uint8 (h : Same a p b p' n) (hq : q = p + k) (hq' : q' = p' + k) (hk : k + 1 ≤ n) :
    (View.uint8 a q : Reading ε _) = View.uint8 b q' := by
  rw [View.uint8, View.uint8, h.span hq hq' rfl rfl hk]

theorem uint32 (h : Same a p b p' n) (hq : q = p + k) (hq' : q' = p' + k) (hk : k + 4 ≤ n) :
    (View.uint32 a q : Reading ε _) = View.uint32 b q' := by
  rw [View.uint32, View.uint32, h.span hq hq' rfl rfl hk]

theorem first_uint32 (h : Same a p b p' n) (hn : 4 ≤ n) :
    (View.uint32 a p : Reading ε _) = View.uint32 b p' :=
  h.uint32 (k := 0) rfl rfl (by omega)

theorem uint32LE (h : Same a p b p' n) (hq : q = p + k) (hq' : q' = p' + k) (hk : k + 4 ≤ n) :
    (View.uint32LE a q : Reading ε _) = View.uint32LE b q' := by
  rw [View.uint32LE, View.uint32LE, h.span hq hq' rfl rfl hk]

theorem uint64 (h : Same a p b p' n) (hq : q = p + k) (hq' : q' = p' + k) (hk : k + 8 ≤ n) :
    (View.uint64 a q : Reading ε _) = View.uint64 b q' := by
  rw [View.uint64, View.uint64, h.span hq hq' rfl rfl hk]

theorem of_span {l : List UInt8} (ha : (View.span a p q : Reading ε _) = .ok l)
    (hb : (View.span b p' q' : Reading ε _) = .ok l) : Same a p b p' l.length := by
  have hla := length_of_span ha
  have hlb := length_of_span hb
  obtain ⟨hpq, hq, hla'⟩ := span_ok.mp ha
  obtain ⟨hpq', hq', hlb'⟩ := span_ok.mp hb
  refine ⟨by omega, by omega, fun k hk => ?_⟩
  have h : ((a.drop p).take (q - p))[k]? = ((b.drop p').take (q' - p'))[k]? := by
    rw [hla', hlb']
  rwa [List.getElem?_take_of_lt (by omega), List.getElem?_take_of_lt (by omega),
    List.getElem?_drop, List.getElem?_drop] at h

theorem of_unchanged (hlen : b.length = a.length) (hin : p + n ≤ a.length)
    (h : ∀ i, p ≤ i → i < p + n → b[i]? = a[i]?) : Same a p b p n :=
  ⟨hin, by omega, fun k hk => (h (p + k) (Nat.le_add_right p k) (by omega)).symm⟩

end Same

end View

end VibeField

import VibeField.Base.Json

/-!
# JSON texts

A value is written as a list of tokens, and a text spells tokens when white space stands
between their texts.  Tokens are read off a text in one way, and a value off its tokens, so
a text spells one value at most.  How a string is quoted is a parameter: a quoted string
starts with a quote and ends itself.
-/

namespace VibeField

open List

namespace Json

/-! ## Tokens -/

inductive Token where
  | openArr
  | closeArr
  | openObj
  | closeObj
  | comma
  | colon
  | null
  | bool (b : Bool)
  | int (n : Int)
  | str (s : String)
  deriving DecidableEq, Repr

def commas {α : Type} (comma : α) : List (List α) → List α
  | [] => []
  | part :: rest => part ++ rest.flatMap fun part => comma :: part

theorem flatMap_commas {α β : Type} {f : α → List β} {c : α} {d : β} (h : f c = [d])
    (parts : List (List α)) :
    (commas c parts).flatMap f = commas d (parts.map fun part => part.flatMap f) := by
  cases parts with
  | nil => rfl
  | cons part rest =>
    rw [commas, map_cons, commas, flatMap_append]
    congr 1
    induction rest with
    | nil => rfl
    | cons q rest ih =>
      rw [flatMap_cons, flatMap_append, ih, map_cons, flatMap_cons,
        flatMap_cons, h]
      rfl

mutual

def tokens : Json → List Token
  | null => [.null]
  | bool b => [.bool b]
  | int n => [.int n]
  | str s => [.str s]
  | arr items => .openArr :: commas .comma (tokensItems items) ++ [.closeArr]
  | obj fields => .openObj :: commas .comma (tokensFields fields) ++ [.closeObj]

def tokensItems : List Json → List (List Token)
  | [] => []
  | v :: rest => tokens v :: tokensItems rest

def tokensFields : List (String × Json) → List (List Token)
  | [] => []
  | (k, v) :: rest => (.str k :: .colon :: tokens v) :: tokensFields rest

end

def tokensField (e : String × Json) : List Token := .str e.1 :: .colon :: tokens e.2

theorem tokensItems_eq (items : List Json) : tokensItems items = items.map tokens := by
  induction items with
  | nil => rfl
  | cons v rest ih => rw [tokensItems, ih, map_cons]

theorem tokensFields_eq (fields : List (String × Json)) :
    tokensFields fields = fields.map tokensField := by
  induction fields with
  | nil => rfl
  | cons e rest ih => rw [tokensFields, ih, map_cons, tokensField]

theorem tokens_arr (items : List Json) :
    tokens (arr items) = .openArr :: (commas .comma (items.map tokens) ++ [.closeArr]) := by
  rw [tokens, tokensItems_eq]
  rfl

theorem tokens_obj (fields : List (String × Json)) :
    tokens (obj fields) =
      .openObj :: (commas .comma (fields.map tokensField) ++ [.closeObj]) := by
  rw [tokens, tokensFields_eq]
  rfl

def Token.begins : Token → Bool
  | .closeArr | .closeObj | .comma | .colon => false
  | _ => true

theorem tokens_begin (v : Json) : ∃ t ts, tokens v = t :: ts ∧ t.begins = true := by
  cases v with
  | null => exact ⟨_, _, rfl, rfl⟩
  | bool b => exact ⟨_, _, rfl, rfl⟩
  | int n => exact ⟨_, _, rfl, rfl⟩
  | str s => exact ⟨_, _, rfl, rfl⟩
  | arr items => exact ⟨_, _, tokens_arr items, rfl⟩
  | obj fields => exact ⟨_, _, tokens_obj fields, rfl⟩

/-! ## A value is read off its tokens in one way -/

/-- What one reads off tokens at the front, and what is left. -/
def ReadsOff {α : Type} (write : α → List Token) (a : α) : Prop :=
  ∀ (b : α) (r r' : List Token), write a ++ r = write b ++ r' → a = b ∧ r = r'

theorem readsOff_rest {α : Type} {write : α → List Token} {close : Token}
    (hclose : close ≠ .comma) {parts : List α} (h : ∀ a ∈ parts, ReadsOff write a) :
    ∀ (parts' : List α) (r r' : List Token),
      ((parts.map write).flatMap fun part => .comma :: part) ++ close :: r =
        ((parts'.map write).flatMap fun part => .comma :: part) ++ close :: r' →
      parts = parts' ∧ r = r' := by
  induction parts with
  | nil =>
    intro parts' r r' heq
    cases parts' with
    | nil => exact ⟨rfl, (List.cons.inj heq).2⟩
    | cons b rest' => exact absurd (List.cons.inj heq).1 hclose
  | cons a rest ih =>
    intro parts' r r' heq
    cases parts' with
    | nil => exact absurd (List.cons.inj heq).1.symm hclose
    | cons b rest' =>
      simp only [map_cons, flatMap_cons, cons_append, append_assoc,
        List.cons.injEq, true_and] at heq
      obtain ⟨rfl, hrest⟩ := h a mem_cons_self b _ _ heq
      obtain ⟨rfl, hr⟩ := ih (fun c hc => h c (mem_cons_of_mem a hc)) rest' r r' hrest
      exact ⟨rfl, hr⟩

theorem readsOff_commas {α : Type} {write : α → List Token} (close : Token)
    (hclose : close ≠ .comma) (hfirst : ∀ a ts, write a ≠ close :: ts)
    (hsome : ∀ a, write a ≠ []) {parts : List α} (h : ∀ a ∈ parts, ReadsOff write a)
    (parts' : List α) (r r' : List Token)
    (heq : commas .comma (parts.map write) ++ close :: r =
      commas .comma (parts'.map write) ++ close :: r') :
    parts = parts' ∧ r = r' := by
  have hempty : ∀ (a : α) (s s' : List Token), write a ++ s ≠ close :: s' := by
    intro a s s' hs
    cases hw : write a with
    | nil => exact hsome a hw
    | cons t ts =>
      rw [hw] at hs
      exact hfirst a ts (hw.trans (by rw [(List.cons.inj hs).1]))
  cases parts with
  | nil =>
    cases parts' with
    | nil => exact ⟨rfl, (List.cons.inj heq).2⟩
    | cons b rest' =>
      rw [map_cons, commas, append_assoc] at heq
      exact absurd heq.symm (hempty b _ _)
  | cons a rest =>
    cases parts' with
    | nil =>
      rw [map_cons, commas, append_assoc] at heq
      exact absurd heq (hempty a _ _)
    | cons b rest' =>
      rw [map_cons, commas, append_assoc, map_cons, commas,
        append_assoc] at heq
      obtain ⟨rfl, hrest⟩ := h a mem_cons_self b _ _ heq
      obtain ⟨rfl, hr⟩ :=
        readsOff_rest hclose (fun c hc => h c (mem_cons_of_mem a hc)) rest' r r' hrest
      exact ⟨rfl, hr⟩

theorem tokens_ne_nil (v : Json) : tokens v ≠ [] := by
  obtain ⟨t, ts, ht, _⟩ := tokens_begin v
  rw [ht]
  exact cons_ne_nil t ts

theorem tokens_ne_close (v : Json) (ts : List Token) : tokens v ≠ .closeArr :: ts := by
  intro h
  obtain ⟨t, ts', ht, hb⟩ := tokens_begin v
  rw [ht] at h
  obtain ⟨rfl, _⟩ := List.cons.inj h
  cases hb

variable {p : Int → Prop}

theorem tokens_readsOff {v : Json} (h : Valid p v) : ReadsOff tokens v := by
  induction h with
  | null =>
    intro w r r' heq
    cases w <;> simp_all [tokens]
  | bool b =>
    intro w r r' heq
    cases w <;> simp_all [tokens]
  | int n hn =>
    intro w r r' heq
    cases w <;> simp_all [tokens]
  | str s =>
    intro w r r' heq
    cases w <;> simp_all [tokens]
  | arr items _ ih =>
    intro w r r' heq
    cases w with
    | arr items' =>
      rw [tokens_arr, tokens_arr, cons_append, cons_append, append_assoc,
        append_assoc] at heq
      obtain ⟨rfl, hr⟩ := readsOff_commas .closeArr (by decide) tokens_ne_close tokens_ne_nil ih
        items' r r' (List.cons.inj heq).2
      exact ⟨rfl, hr⟩
    | _ => simp_all [tokens]
  | obj fields _ _ ih =>
    intro w r r' heq
    cases w with
    | obj fields' =>
      rw [tokens_obj, tokens_obj, cons_append, cons_append, append_assoc,
        append_assoc] at heq
      have hfield : ∀ e ∈ fields, ReadsOff tokensField e := by
        intro e he e' s s' hs
        simp only [tokensField, cons_append, List.cons.injEq, Token.str.injEq,
          true_and] at hs
        obtain ⟨hv, hr⟩ := ih e he e'.2 s s' hs.2
        exact ⟨Prod.ext hs.1 hv, hr⟩
      have hclose : ∀ e ts, tokensField e ≠ .closeObj :: ts := by
        intro e ts he
        cases (List.cons.inj he).1
      obtain ⟨rfl, hr⟩ := readsOff_commas .closeObj (by decide) hclose
        (fun e => cons_ne_nil _ _) hfield fields' r r' (List.cons.inj heq).2
      exact ⟨rfl, hr⟩
    | _ => simp_all [tokens]

theorem tokens_inj {v w : Json} (h : Valid p v)
    (heq : tokens v = tokens w) : v = w :=
  (tokens_readsOff h w [] [] (by rw [heq])).1

/-! ## Integers never touch -/

def Token.isInt : Token → Bool
  | .int _ => true
  | _ => false

/-- No integer follows another directly. -/
def Apart (ts : List Token) : Prop :=
  ts.IsChain fun t u => t.isInt = false ∨ u.isInt = false

/-- What may follow a value: nothing, or a token that is no integer. -/
def Follows (r : List Token) : Prop := ∀ t ∈ r.head?, t.isInt = false

theorem Apart.cons {t : Token} {r : List Token} (h : Apart r)
    (ht : t.isInt = false ∨ Follows r) : Apart (t :: r) := by
  cases r with
  | nil => exact .singleton t
  | cons u r =>
    refine isChain_cons_cons.mpr ⟨?_, h⟩
    rcases ht with ht | ht
    · exact .inl ht
    · exact .inr (ht u rfl)

theorem apart_commas {parts : List (List Token)}
    (h : ∀ part ∈ parts, ∀ r, Apart r → Follows r → Apart (part ++ r)) {close : Token}
    (hclose : close.isInt = false) {r : List Token} (hr : Apart (close :: r)) :
    Apart (commas .comma parts ++ close :: r) := by
  have hrest : ∀ rest : List (List Token), (∀ part ∈ rest, part ∈ parts) →
      Apart ((rest.flatMap fun part => .comma :: part) ++ close :: r) ∧
        Follows ((rest.flatMap fun part => .comma :: part) ++ close :: r) := by
    intro rest
    induction rest with
    | nil =>
      intro _
      refine ⟨hr, ?_⟩
      rintro t ht
      obtain rfl : close = t := by simpa using ht
      exact hclose
    | cons part rest ih =>
      intro hmem
      obtain ⟨hapart, hfollows⟩ := ih fun q hq => hmem q (mem_cons_of_mem part hq)
      rw [flatMap_cons, cons_append, cons_append, append_assoc]
      have hpart := h part (hmem part mem_cons_self) _ hapart hfollows
      refine ⟨hpart.cons (.inl rfl), ?_⟩
      rintro t ht
      obtain rfl : Token.comma = t := by simpa using ht
      rfl
  cases parts with
  | nil => exact hr
  | cons part rest =>
    rw [commas, append_assoc]
    obtain ⟨hapart, hfollows⟩ := hrest rest fun q hq => mem_cons_of_mem part hq
    exact h part mem_cons_self _ hapart hfollows

theorem apart_tokens {v : Json} (h : Valid p v) :
    ∀ r, Apart r → Follows r → Apart (tokens v ++ r) := by
  induction h with
  | null => exact fun r hr hf => hr.cons (.inl rfl)
  | bool b => exact fun r hr hf => hr.cons (.inl rfl)
  | int n hn => exact fun r hr hf => hr.cons (.inr hf)
  | str s => exact fun r hr hf => hr.cons (.inl rfl)
  | arr items _ ih =>
    intro r hr hf
    rw [tokens_arr, cons_append, append_assoc]
    refine Apart.cons (apart_commas ?_ rfl (hr.cons (.inl rfl))) (.inl rfl)
    intro part hpart
    obtain ⟨v, hv, rfl⟩ := mem_map.mp hpart
    exact ih v hv
  | obj fields _ _ ih =>
    intro r hr hf
    rw [tokens_obj, cons_append, append_assoc]
    refine Apart.cons (apart_commas ?_ rfl (hr.cons (.inl rfl))) (.inl rfl)
    intro part hpart s hs hfs
    obtain ⟨e, he, rfl⟩ := mem_map.mp hpart
    exact ((ih e he s hs hfs).cons (.inl rfl)).cons (.inl rfl)

theorem apart {v : Json} (h : Valid p v) : Apart (tokens v) := by
  have hv := apart_tokens h [] .nil (fun t ht => by cases ht)
  rwa [append_nil] at hv

/-! ## Texts -/

def decimal : Int → List Char
  | .ofNat n => Nat.toDigits 10 n
  | .negSucc n => '-' :: Nat.toDigits 10 (n + 1)

/-- How strings are quoted: from a quote to where the string ends itself. -/
structure Quoting where
  quote : String → List Char
  starts : ∀ s, ∃ rest, quote s = '"' :: rest
  reads : ∀ {s t : String} {r r' : List Char}, quote s ++ r = quote t ++ r' → s = t ∧ r = r'

def isSpace (c : Char) : Bool := c == ' ' || c == '\t' || c == '\n' || c == '\r'

section Texts

variable (Q : Quoting)

def Token.text : Token → List Char
  | .openArr => ['[']
  | .closeArr => [']']
  | .openObj => ['{']
  | .closeObj => ['}']
  | .comma => [',']
  | .colon => [':']
  | .null => "null".toList
  | .bool true => "true".toList
  | .bool false => "false".toList
  | .int n => decimal n
  | .str s => Q.quote s

/-- A text with these tokens, and white space around them. -/
inductive Spaced : List Token → List Char → Prop
  | nil (space : List Char) (h : ∀ c ∈ space, isSpace c = true) : Spaced [] space
  | cons (space : List Char) (h : ∀ c ∈ space, isSpace c = true) (t : Token)
      {ts : List Token} {rest : List Char} :
      Spaced ts rest → Spaced (t :: ts) (space ++ (t.text Q ++ rest))

/-- A text is JSON for a value. -/
def Spells (text : List Char) (v : Json) : Prop := Spaced Q (tokens v) text

/-- Two texts that differ in their white space alone. -/
def Respaced (text text' : List Char) : Prop :=
  ∃ ts, Apart ts ∧ Spaced Q ts text ∧ Spaced Q ts text'

def compact (v : Json) : List Char := (tokens v).flatMap (Token.text Q)

theorem spaced_compact (ts : List Token) : Spaced Q ts (ts.flatMap (Token.text Q)) := by
  induction ts with
  | nil => exact .nil [] (by simp)
  | cons t ts ih => exact .cons [] (by simp) t ih

theorem spells_compact (v : Json) : Spells Q (compact Q v) v := spaced_compact Q (tokens v)

/-! ## A text has one list of tokens -/

omit Q in
theorem digits_split {a b r r' : List Char} (ha : ∀ c ∈ a, c.isDigit = true)
    (hb : ∀ c ∈ b, c.isDigit = true) (hr : ∀ c ∈ r.head?, c.isDigit = false)
    (hr' : ∀ c ∈ r'.head?, c.isDigit = false) (h : a ++ r = b ++ r') : a = b ∧ r = r' := by
  have hfirst : ∀ {c z : List Char}, (∀ d ∈ c, d.isDigit = true) →
      (∀ d ∈ z.head?, d.isDigit = false) → (c ++ z).takeWhile Char.isDigit = c := by
    intro c z hc hz
    rw [takeWhile_append_of_pos hc]
    cases z with
    | nil => simp
    | cons d z => rw [takeWhile_cons_of_neg (by simp [hz d rfl]), append_nil]
  obtain rfl : a = b := by rw [← hfirst ha hr, h, hfirst hb hr']
  exact ⟨rfl, append_cancel_left h⟩

omit Q in
theorem toDigits_inj {m n : Nat} (h : Nat.toDigits 10 m = Nat.toDigits 10 n) : m = n := by
  rw [← Nat.ofDigitChars_ten_toDigits (n := m), h, Nat.ofDigitChars_ten_toDigits]

omit Q in
theorem toDigits_cons (n : Nat) :
    ∃ c cs, Nat.toDigits 10 n = c :: cs ∧ c.isDigit = true := by
  cases h : Nat.toDigits 10 n with
  | nil => exact absurd h Nat.toDigits_ne_nil
  | cons c cs =>
    refine ⟨c, cs, rfl, Nat.isDigit_of_mem_toDigits (b := 10) (n := n) (by omega) (by omega) ?_⟩
    rw [h]
    exact mem_cons_self

variable {c : Char} {p q : Int → Prop} {r r' text : List Char} {t : Token} {ts : List Token}
  {v w : Json}

omit Q in
theorem minus_ne_digit {n : Nat} : '-' :: r ≠ Nat.toDigits 10 n ++ r' := by
  intro h
  obtain ⟨c, cs, hc, hdigit⟩ := toDigits_cons n
  rw [hc] at h
  obtain ⟨rfl, _⟩ := List.cons.inj h
  cases hdigit

omit Q in
theorem decimal_inj {m n : Int} (hr : ∀ c ∈ r.head?, c.isDigit = false)
    (hr' : ∀ c ∈ r'.head?, c.isDigit = false) (h : decimal m ++ r = decimal n ++ r') :
    m = n ∧ r = r' := by
  have hdigits : ∀ k : Nat, ∀ c ∈ Nat.toDigits 10 k, c.isDigit = true := fun k c hc =>
    Nat.isDigit_of_mem_toDigits (by omega) (by omega) hc
  cases m with
  | ofNat m =>
    cases n with
    | ofNat n =>
      obtain ⟨hmn, hrest⟩ := digits_split (hdigits m) (hdigits n) hr hr' h
      exact ⟨congrArg Int.ofNat (toDigits_inj hmn), hrest⟩
    | negSucc n => exact absurd h.symm minus_ne_digit
  | negSucc m =>
    cases n with
    | ofNat n => exact absurd h minus_ne_digit
    | negSucc n =>
      obtain ⟨hmn, hrest⟩ :=
        digits_split (hdigits (m + 1)) (hdigits (n + 1)) hr hr' (List.cons.inj h).2
      exact ⟨congrArg Int.negSucc (Nat.succ.inj (toDigits_inj hmn)), hrest⟩

def Token.leads (c : Char) : Token → Prop
  | .openArr => c = '['
  | .closeArr => c = ']'
  | .openObj => c = '{'
  | .closeObj => c = '}'
  | .comma => c = ','
  | .colon => c = ':'
  | .null => c = 'n'
  | .bool true => c = 't'
  | .bool false => c = 'f'
  | .int _ => c = '-' ∨ c.isDigit = true
  | .str _ => c = '"'

theorem text_leads (t : Token) : ∃ c cs, t.text Q = c :: cs ∧ t.leads c := by
  cases t with
  | int n =>
    cases n with
    | ofNat n =>
      obtain ⟨c, cs, hc, hdigit⟩ := toDigits_cons n
      exact ⟨c, cs, hc, .inr hdigit⟩
    | negSucc n => exact ⟨_, _, rfl, .inl rfl⟩
  | str s =>
    obtain ⟨rest, hrest⟩ := Q.starts s
    exact ⟨_, rest, hrest, rfl⟩
  | bool b => cases b <;> exact ⟨_, _, rfl, rfl⟩
  | _ => exact ⟨_, _, rfl, rfl⟩

omit Q in
theorem not_space_of_leads (h : t.leads c) : isSpace c = false := by
  cases t with
  | int n =>
    rcases h with rfl | hdigit
    · rfl
    · cases hc : isSpace c with
      | false => rfl
      | true =>
        simp only [isSpace, Bool.or_eq_true, beq_iff_eq] at hc
        rcases hc with ((rfl | rfl) | rfl) | rfl <;> cases hdigit
  | bool b => cases b <;> (cases h; rfl)
  | _ => cases h; rfl

omit Q in
theorem not_digit_of_leads (h : t.leads c) (ht : t.isInt = false) : c.isDigit = false := by
  cases t with
  | int n => cases ht
  | bool b => cases b <;> (cases h; rfl)
  | _ => cases h; rfl

theorem no_digit_after (h : Spaced Q ts text) (hf : Follows ts) :
    ∀ c ∈ text.head?, c.isDigit = false := by
  have hspace : ∀ c, isSpace c = true → c.isDigit = false := by
    intro c hc
    simp only [isSpace, Bool.or_eq_true, beq_iff_eq] at hc
    rcases hc with ((rfl | rfl) | rfl) | rfl <;> rfl
  intro c hc
  cases h with
  | nil space hall => exact hspace c (hall c (List.mem_of_mem_head? hc))
  | cons space hall t hrest =>
    cases space with
    | cons d space =>
      obtain rfl : d = c := by simpa using hc
      exact hspace d (hall d mem_cons_self)
    | nil =>
      obtain ⟨d, cs, htext, hleads⟩ := text_leads Q t
      rw [htext] at hc
      obtain rfl : d = c := by simpa using hc
      exact not_digit_of_leads hleads (hf t rfl)

def Token.named (c : Char) : Option Token :=
  if c = '[' then some .openArr
  else if c = ']' then some .closeArr
  else if c = '{' then some .openObj
  else if c = '}' then some .closeObj
  else if c = ',' then some .comma
  else if c = ':' then some .colon
  else if c = 'n' then some .null
  else if c = 't' then some (.bool true)
  else if c = 'f' then some (.bool false)
  else none

omit Q in
theorem named_digit (h : c = '-' ∨ c.isDigit = true) : Token.named c = none := by
  unfold Token.named
  repeat' split
  all_goals first
    | rfl
    | next hc =>
      subst hc
      rcases h with h | h <;> cases h

omit Q in
theorem named_of_leads (h : t.leads c) :
    Token.named c = some t ∨
      Token.named c = none ∧
        ((∃ n, t = .int n) ∧ (c = '-' ∨ c.isDigit = true) ∨ (∃ s, t = .str s) ∧ c = '"') := by
  cases t with
  | int n => exact .inr ⟨named_digit h, .inl ⟨⟨n, rfl⟩, h⟩⟩
  | str s =>
    cases h
    exact .inr ⟨rfl, .inr ⟨⟨s, rfl⟩, rfl⟩⟩
  | bool b => cases b <;> (cases h; exact .inl rfl)
  | _ =>
    cases h
    exact .inl rfl

theorem token_reads {t u : Token} (ht : t.isInt = true → ∀ c ∈ r.head?, c.isDigit = false)
    (hu : u.isInt = true → ∀ c ∈ r'.head?, c.isDigit = false) (h : t.text Q ++ r = u.text Q ++ r') :
    t = u ∧ r = r' := by
  obtain ⟨c, cs, htext, hleads⟩ := text_leads Q t
  obtain ⟨d, ds, htext', hleads'⟩ := text_leads Q u
  obtain rfl : c = d := by
    rw [htext, htext'] at h
    exact (List.cons.inj h).1
  rcases named_of_leads hleads with hname | ⟨hname, hkind⟩
  · rcases named_of_leads hleads' with hname' | ⟨hname', _⟩
    · obtain rfl : t = u := Option.some.inj (hname.symm.trans hname')
      exact ⟨rfl, append_cancel_left h⟩
    · cases hname.symm.trans hname'
  · rcases named_of_leads hleads' with hname' | ⟨_, hkind'⟩
    · cases hname.symm.trans hname'
    · rcases hkind with ⟨⟨m, rfl⟩, hc⟩ | ⟨⟨s, rfl⟩, hc⟩
      · rcases hkind' with ⟨⟨n, rfl⟩, _⟩ | ⟨_, rfl⟩
        · obtain ⟨rfl, hr⟩ := decimal_inj (ht rfl) (hu rfl) h
          exact ⟨rfl, hr⟩
        · rcases hc with hc | hc <;> cases hc
      · rcases hkind' with ⟨_, hc'⟩ | ⟨⟨s', rfl⟩, _⟩
        · subst hc
          rcases hc' with hc' | hc' <;> cases hc'
        · obtain ⟨rfl, hr⟩ := Q.reads h
          exact ⟨rfl, hr⟩

omit Q in
theorem space_split {a b r r' : List Char} (ha : ∀ c ∈ a, isSpace c = true)
    (hb : ∀ c ∈ b, isSpace c = true) (hr : ∃ c cs, r = c :: cs ∧ isSpace c = false)
    (hr' : ∃ c cs, r' = c :: cs ∧ isSpace c = false) (h : a ++ r = b ++ r') :
    a = b ∧ r = r' := by
  obtain ⟨c, cs, rfl, hc⟩ := hr
  obtain ⟨d, ds, rfl, hd⟩ := hr'
  induction a generalizing b with
  | nil =>
    cases b with
    | nil => exact ⟨rfl, h⟩
    | cons e b =>
      obtain ⟨rfl, _⟩ := List.cons.inj h
      cases hc.symm.trans (hb c mem_cons_self)
  | cons e a ih =>
    cases b with
    | nil =>
      obtain ⟨rfl, _⟩ := List.cons.inj h
      cases hd.symm.trans (ha e mem_cons_self)
    | cons e' b =>
      obtain ⟨rfl, hrest⟩ := List.cons.inj h
      obtain ⟨rfl, hr⟩ := ih (fun x hx => ha x (mem_cons_of_mem e hx))
        (fun x hx => hb x (mem_cons_of_mem e hx)) hrest
      exact ⟨rfl, hr⟩

omit Q in
theorem Apart.tail (h : Apart (t :: ts)) : Apart ts := by
  cases ts with
  | nil => exact .nil
  | cons u ts => exact (isChain_cons_cons.mp h).2

omit Q in
theorem Apart.follows (h : Apart (t :: ts)) (ht : t.isInt = true) : Follows ts := by
  cases ts with
  | nil => exact fun u hu => by cases hu
  | cons u ts =>
    intro w hw
    obtain rfl : u = w := by simpa using hw
    rcases (isChain_cons_cons.mp h).1 with hno | hno
    · cases ht.symm.trans hno
    · exact hno

theorem text_not_space (t : Token) (r : List Char) :
    ∃ c cs, t.text Q ++ r = c :: cs ∧ isSpace c = false := by
  obtain ⟨c, cs, htext, hleads⟩ := text_leads Q t
  exact ⟨c, cs ++ r, by rw [htext]; rfl, not_space_of_leads hleads⟩

theorem not_spaced_of_space {space r : List Char} {all : List Char}
    (hall : ∀ c ∈ all, isSpace c = true) : all ≠ space ++ (t.text Q ++ r) := by
  rintro rfl
  obtain ⟨c, cs, htext, hc⟩ := text_not_space Q t r
  have hmem : c ∈ space ++ (t.text Q ++ r) := by
    rw [htext]
    exact mem_append_right _ mem_cons_self
  cases hc.symm.trans (hall c hmem)

theorem spaced_inj {ts us : List Token} (h : Spaced Q ts text) (hts : Apart ts) (hus : Apart us)
    (h' : Spaced Q us text) : ts = us := by
  induction h generalizing us with
  | nil space hall =>
    generalize hx : space = x at h'
    cases h' with
    | nil => rfl
    | cons space' hall' t hrest =>
      subst hx
      exact absurd rfl (not_spaced_of_space Q hall)
  | @cons space hspace t ts rest hrest ih =>
    generalize hx : space ++ (t.text Q ++ rest) = x at h'
    cases h' with
    | nil space' hall' => exact absurd hx.symm (not_spaced_of_space Q hall')
    | @cons space' hspace' u us rest' hrest' =>
      obtain ⟨_, htext⟩ :=
        space_split hspace hspace' (text_not_space Q t rest) (text_not_space Q u rest') hx
      obtain ⟨rfl, rfl⟩ := token_reads Q (fun ht => no_digit_after Q hrest (hts.follows ht))
        (fun hu => no_digit_after Q hrest' (hus.follows hu)) htext
      rw [ih hts.tail hus.tail hrest']

theorem spells_inj (hv : Valid p v) (hw : Valid q w) (h : Spells Q text v) (h' : Spells Q text w) :
    v = w :=
  tokens_inj hv (spaced_inj Q h (apart hv) (apart hw) h')

theorem spells_respaced (hv : Valid p v) (hw : Valid q w) {text text' : List Char}
    (hspace : Respaced Q text text') (h : Spells Q text v) (h' : Spells Q text' w) : v = w := by
  obtain ⟨ts, hts, hleft, hright⟩ := hspace
  have hv' : ts = tokens v := spaced_inj Q hleft hts (apart hv) h
  have hw' : ts = tokens w := spaced_inj Q hright hts (apart hw) h'
  exact tokens_inj hv (hv'.symm.trans hw')

theorem compact_inj (hv : Valid p v) (hw : Valid q w) (h : compact Q v = compact Q w) : v = w := by
  refine spells_inj Q hv hw (spells_compact Q v) ?_
  rw [h]
  exact spells_compact Q w

end Texts

end Json
end VibeField

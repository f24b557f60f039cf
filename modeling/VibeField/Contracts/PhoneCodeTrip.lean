import VibeField.Contracts.PhoneCodeRead
import Mathlib.Data.List.TakeWhile

/-!
# The trip of a phone code

What is encoded is read back, where the rules allow it: nothing an encoded login or name is made of
separates the fields.  A surrogate that stands alone has no encoding, and the search for a name
throws at the first name that has one.
-/

namespace VibeField.Contracts.PhoneCode

open List Option Dict
open Utf16 (encode codePoints unit)
open UriUnits (encodeURIComponent decodeURIComponent)

variable {login name code : Text}

/-! ## The units of a code -/

def plain (u : UInt16) : Bool := !trimmedUnit u && u.toNat < 0x80 && u ≠ unit '#'

def field (u : UInt16) : Bool := plain u && u ≠ unit '&' && u ≠ unit '='

variable {a u : UInt16} {l n : Text} {names : List (Option Text)}

theorem field_of_unreserved (h : u = UriUnits.percent ∨ UriUnits.unreserved u.toNat = true) :
    field u = true := by
  rcases h with rfl | h
  · decide
  · have hne : ∀ c : Char, c.toNat < 0x10000 → UriUnits.unreserved c.toNat = false → u ≠ unit c :=
      fun c hc hun heq => by rw [heq, Utf16.toNat_unit hc, hun] at h; cases h
    have htrim : trimmedUnit u = false := by
      simp only [UriUnits.unreserved, Bool.or_eq_true, Bool.and_eq_true, decide_eq_true_eq,
        contains_iff_mem, mem_cons, not_mem_nil, or_false] at h
      rw [trimmedUnit, ← Bool.not_eq_true, contains_iff_mem]
      simp only [TRIMMED, mem_cons, not_mem_nil, or_false]
      omega
    simp [field, plain, htrim, (UriUnits.unreserved_lt h).1, hne '#' (by decide) (by decide),
      hne '&' (by decide) (by decide), hne '=' (by decide) (by decide)]

theorem field_encoded (h : encodeURIComponent login = some code) : ∀ u ∈ code, field u = true :=
  fun u hu => field_of_unreserved (UriUnits.mem_encode h u hu)

theorem plain_of_field (h : field u = true) : plain u = true := by
  rw [field, Bool.and_eq_true, Bool.and_eq_true] at h
  exact h.1.1

theorem dropWhile_none {p : UInt16 → Bool} (h : ∀ u ∈ l, p u = false) : l.dropWhile p = l := by
  cases l with
  | nil => rfl
  | cons u l => exact dropWhile_cons_of_neg (by simp [h u])

theorem trim_plain (h : ∀ u ∈ l, plain u = true) : trim l = l := by
  have hnot : ∀ u ∈ l, trimmedUnit u = false := fun u hu => by
    have hplain := h u hu
    rw [plain, Bool.and_eq_true, Bool.and_eq_true, Bool.not_eq_true'] at hplain
    exact hplain.1.1
  rw [trim, dropWhile_none hnot, dropWhile_none fun u hu => hnot u (mem_reverse.mp hu),
    reverse_reverse]

theorem length_plain (h : ∀ u ∈ l, plain u = true) : (codePoints l).length = l.length := by
  rw [Utf16.codePoints_of_low, length_map]
  intro u hu
  have hplain := h u hu
  rw [plain, Bool.and_eq_true, Bool.and_eq_true, decide_eq_true_eq] at hplain
  rw [Utf16.isHigh, Bool.and_eq_false_iff, decide_eq_false_iff_not]
  omega

theorem cutAt_none (h : ∀ u ∈ l, u ≠ a) : (cutAt a l).1 = l :=
  takeWhile_eq_self_iff.mpr fun u hu => decide_eq_true (h u hu)

theorem cutAt_append (h : ∀ u ∈ l, u ≠ a) (rest : Text) : cutAt a (l ++ a :: rest) = (l, rest) := by
  have hall : ∀ u ∈ l, decide (u ≠ a) = true := fun u hu => decide_eq_true (h u hu)
  rw [cutAt, takeWhile_append_of_pos hall, dropWhile_append_of_pos hall,
    takeWhile_cons_of_neg (by simp), dropWhile_cons_of_neg (by simp), append_nil]
  rfl

theorem splitOn_two {l rest : Text} (hl : ∀ u ∈ l, u ≠ a) (hrest : ∀ u ∈ rest, u ≠ a) :
    (l ++ a :: rest).splitOn a = [l, rest] := by
  have hsingle : rest.splitOnP (· == a) = [rest] := by
    have hword := Spelling.splitOnP_word (p := (· == a))
      (fun u hu => beq_eq_false_iff_ne.mpr (hrest u hu)) []
    rw [append_nil] at hword
    rw [hword, splitOnP_nil, modifyHead_cons, append_nil]
  show (l ++ a :: rest).splitOnP (· == a) = _
  rw [Spelling.splitOnP_word fun u hu => beq_eq_false_iff_ne.mpr (hl u hu),
    splitOnP_cons_eq_if_modifyHead, if_pos (beq_self_eq_true a), hsingle]
  simp

/-! ## A code is read -/

def fieldsText (l n : Text) : Text :=
  encode "?login=".toList ++ (l ++ (encode "&from=".toList ++ n))

theorem encodePhoneCode_eq (hl : encodeURIComponent login = some l)
    (hn : encodeURIComponent name = some n) :
    encodePhoneCode { login, fromName := name } = some (encode codePrefix ++ fieldsText l n) := by
  simp only [encodePhoneCode, hl, hn, bind_some, map_some, fieldsText,
    append_assoc]

theorem plain_code (hl : encodeURIComponent login = some l)
    (hn : encodeURIComponent name = some n) :
    ∀ u ∈ encode codePrefix ++ fieldsText l n, plain u = true := by
  have hpre : ∀ u ∈ encode codePrefix, plain u = true := List.all_eq_true.mp (by decide)
  have hlogin : ∀ u ∈ encode "?login=".toList, plain u = true :=
    List.all_eq_true.mp (by decide)
  have hfrom : ∀ u ∈ encode "&from=".toList, plain u = true :=
    List.all_eq_true.mp (by decide)
  intro u hu
  rw [fieldsText] at hu
  simp only [mem_append] at hu
  rcases hu with hu | hu | hu | hu | hu
  · exact hpre u hu
  · exact hlogin u hu
  · exact plain_of_field (field_encoded hl u hu)
  · exact hfrom u hu
  · exact plain_of_field (field_encoded hn u hu)

theorem ne_of_field (h : field u = true) : u ≠ unit '&' ∧ u ≠ unit '=' := by
  rw [field, Bool.and_eq_true, Bool.and_eq_true, decide_eq_true_eq, decide_eq_true_eq] at h
  exact ⟨h.1.2, h.2⟩

theorem queryOf_fields (hl : encodeURIComponent login = some l)
    (hn : encodeURIComponent name = some n) :
    queryOf (dropSlash (fieldsText l n)) =
      some ((encode "login=".toList ++ l) ++ unit '&' :: (encode "from=".toList ++ n)) := by
  have hhead : (fieldsText l n).head? = some (unit '?') := rfl
  have hslash : dropSlash (fieldsText l n) = fieldsText l n := by
    rw [dropSlash, if_neg (by rw [hhead]; decide)]
  have hcut : (fieldsText l n).drop 1 =
      (encode "login=".toList ++ l) ++ unit '&' :: (encode "from=".toList ++ n) :=
    (append_assoc (encode "login=".toList) l _).symm
  have hplain : ∀ u ∈ (fieldsText l n).drop 1, u ≠ unit '#' := fun u hu => by
    have hp := plain_code hl hn u (mem_append_right _ (mem_of_mem_drop hu))
    rw [plain, Bool.and_eq_true, decide_eq_true_eq] at hp
    exact hp.2
  rw [hslash, queryOf, if_pos hhead, cutAt_none hplain, hcut]

theorem decode_word {word : Text} (h : encodeURIComponent word = some word) :
    decodeURIComponent word = some word := UriUnits.decode_encode h

def codeFields (login name : Text) : Dict Text Text :=
  (Dict.insert ∅ (encode "login".toList) login).insert (encode "from".toList) name

theorem readFields_code (hl : encodeURIComponent login = some l)
    (hn : encodeURIComponent name = some n) :
    readFields ∅ [encode "login=".toList ++ l, encode "from=".toList ++ n] =
      .ok (codeFields login name) := by
  have hcutl : cutAt (unit '=') (encode "login=".toList ++ l) = (encode "login".toList, l) :=
    cutAt_append (l := encode "login".toList) (all_iff_forall_prop.mp (by decide)) l
  have hcutn : cutAt (unit '=') (encode "from=".toList ++ n) = (encode "from".toList, n) :=
    cutAt_append (l := encode "from".toList) (all_iff_forall_prop.mp (by decide)) n
  have hlogin : decodeURIComponent (encode "login".toList) = some (encode "login".toList) :=
    decode_word (by decide)
  have hfrom : decodeURIComponent (encode "from".toList) = some (encode "from".toList) :=
    decode_word (by decide)
  have hfresh : ((Dict.insert ∅ (encode "login".toList) login).lookup (encode "from".toList)) =
      none := by
    rw [lookup_insert, if_neg (by decide)]
    rfl
  have hne : ∀ {word rest : Text}, word ≠ [] → word ++ rest ≠ [] := fun hword h =>
    hword (append_eq_nil_iff.mp h).1
  rw [readFields, if_neg (hne (by decide)), hcutl]
  simp only [hlogin, UriUnits.decode_encode hl]
  rw [if_neg (by decide), if_neg (by decide), readFields,
    if_neg (hne (by decide)), hcutn]
  simp only [hfrom, UriUnits.decode_encode hn]
  rw [if_neg (by decide), hfresh, if_neg (by decide), readFields]
  rfl

theorem parse_code (hl : encodeURIComponent login = some l)
    (hn : encodeURIComponent name = some n) :
    parsePhoneCode (encode codePrefix ++ fieldsText l n) =
      if PHONE_CODE_MAX_TEXT < (encode codePrefix ++ fieldsText l n).length then .error .tooLong
      else readCode (codeFields login name) := by
  have hplain := plain_code hl hn
  have htake : (encode codePrefix ++ fieldsText l n).take codePrefix.length = encode codePrefix :=
    take_left' (by decide)
  have hdrop : (encode codePrefix ++ fieldsText l n).drop codePrefix.length = fieldsText l n :=
    drop_left' (by decide)
  have hlower : (encode codePrefix).map asciiLower = encode codePrefix := by decide
  have hsplit : ((encode "login=".toList ++ l) ++ unit '&' :: (encode "from=".toList ++ n)).splitOn
      (unit '&') = [encode "login=".toList ++ l, encode "from=".toList ++ n] := by
    have hleft : ∀ u ∈ encode "login=".toList, u ≠ unit '&' :=
      all_iff_forall_prop.mp (by decide)
    have hright : ∀ u ∈ encode "from=".toList, u ≠ unit '&' :=
      all_iff_forall_prop.mp (by decide)
    refine splitOn_two (fun u hu => ?_) fun u hu => ?_
    · rcases mem_append.mp hu with hu | hu
      · exact hleft u hu
      · exact (ne_of_field (field_encoded hl u hu)).1
    · rcases mem_append.mp hu with hu | hu
      · exact hright u hu
      · exact (ne_of_field (field_encoded hn u hu)).1
  rw [parsePhoneCode]
  simp only [trim_plain hplain, length_plain hplain, htake, hdrop, hlower]
  split
  · rfl
  · rw [if_neg (not_not.mpr rfl), parseQuery, queryOf_fields hl hn]
    simp only [hsplit, readFields_code hl hn]

theorem readCode_fields (login name : Text) (read : Code UInt16) :
    readCode (codeFields login name) = .ok read ↔
      ((trim login ≠ [] ∧ badLogin (trim login) = false) ∧
        trim name ≠ [] ∧ badFrom (trim name) = false) ∧
      read = { login := trim login, fromName := trim name } := by
  have hlogin : (codeFields login name).lookup (encode "login".toList) = some login := by
    rw [codeFields, lookup_insert, if_neg (by decide), lookup_insert, if_pos rfl]
  have hfrom : (codeFields login name).lookup (encode "from".toList) = some name := by
    rw [codeFields, lookup_insert, if_pos rfl]
  rw [readCode, hlogin, hfrom]
  simp only [getD_some]
  by_cases hl : trim login = []
  · rw [if_pos hl]
    exact ⟨fun h => (by cases h), fun h => absurd hl h.1.1.1⟩
  rw [if_neg hl]
  by_cases hbad : badLogin (trim login) = true
  · rw [if_pos hbad]
    exact ⟨fun h => (by cases h), fun h => absurd hbad (by simp [h.1.1.2])⟩
  rw [if_neg hbad]
  by_cases hn : trim name = []
  · rw [if_pos hn]
    exact ⟨fun h => (by cases h), fun h => absurd hn h.1.2.1⟩
  rw [if_neg hn]
  by_cases hbadn : badFrom (trim name) = true
  · rw [if_pos hbadn]
    exact ⟨fun h => (by cases h), fun h => absurd hbadn (by simp [h.1.2.2])⟩
  rw [if_neg hbadn]
  exact ⟨fun h => ⟨⟨⟨hl, Bool.not_eq_true _ ▸ hbad⟩, hn, Bool.not_eq_true _ ▸ hbadn⟩,
    (Except.ok.inj h).symm⟩, fun h => by rw [h.2]⟩

/-! ## What makes a code -/

theorem encode_of_wellFormed (h : Utf16.wellFormed login = true) :
    ∃ l, encodeURIComponent login = some l :=
  isSome_iff_exists.mp (UriUnits.encode_isSome.trans h)

theorem encode_none (h : Utf16.wellFormed login = false) : encodeURIComponent login = none :=
  isNone_iff_eq_none.mp (by rw [← not_isSome, UriUnits.encode_isSome, h]; rfl)

theorem encodePhoneCode_none :
    encodePhoneCode { login, fromName := name } = none ↔
      ¬(Utf16.wellFormed login = true ∧ Utf16.wellFormed name = true) := by
  cases hlogin : Utf16.wellFormed login with
  | false => simp [encodePhoneCode, encode_none hlogin]
  | true =>
    obtain ⟨l, hl⟩ := encode_of_wellFormed hlogin
    cases hname : Utf16.wellFormed name with
    | false => simp [encodePhoneCode, hl, encode_none hname]
    | true =>
      obtain ⟨n, hn⟩ := encode_of_wellFormed hname
      simp [encodePhoneCode_eq hl hn]

theorem parse_encoded (h : encodePhoneCode { login, fromName := name } = some code)
    (read : Code UInt16) :
    parsePhoneCode code = .ok read ↔
      Readable login name ∧ read = { login := trim login, fromName := trim name } := by
  have hwell : Utf16.wellFormed login = true ∧ Utf16.wellFormed name = true := by
    by_contra hnot
    rw [encodePhoneCode_none.mpr hnot] at h
    cases h
  obtain ⟨l, hl⟩ := encode_of_wellFormed hwell.1
  obtain ⟨n, hn⟩ := encode_of_wellFormed hwell.2
  have heq := encodePhoneCode_eq hl hn
  have hcode : encode codePrefix ++ fieldsText l n = code := some.inj (heq.symm.trans h)
  have hparse := parse_code hl hn
  rw [hcode] at hparse
  rw [hparse]
  split
  · next hlong =>
    refine ⟨fun hr => (by cases hr), fun hr => ?_⟩
    exact absurd (hr.1.length code h) (Nat.not_le.mpr hlong)
  · next hshort =>
    rw [readCode_fields]
    refine ⟨fun hr => ⟨⟨hwell, fun other hother => ?_, hr.1.1, hr.1.2⟩, hr.2⟩,
      fun hr => ⟨⟨hr.1.login, hr.1.fromName⟩, hr.2⟩⟩
    rw [h] at hother
    cases hother
    exact Nat.not_lt.mp hshort

theorem makes_iff : Makes login name ↔ Readable login name := by
  constructor
  · rintro ⟨code, hcode, read, hread⟩
    exact ((parse_encoded hcode read).mp hread).1
  · intro h
    cases hcode : encodePhoneCode { login, fromName := name } with
    | none => exact absurd h.wellFormed (encodePhoneCode_none.mp hcode)
    | some code => exact ⟨code, hcode, _, (parse_encoded hcode _).mpr ⟨h, rfl⟩⟩

/-! ## The search -/

/-- No name that comes before makes a code. -/
def NoneMakes (login : Text) (names : List (Option Text)) : Prop :=
  ∀ name, some name ∈ names → ¬Makes login name

theorem NoneMakes.cons {o : Option Text} (h : NoneMakes login names)
    (ho : ∀ name, o = some name → ¬Makes login name) : NoneMakes login (o :: names) := by
  intro name hmem
  rcases mem_cons.mp hmem with heq | hmem
  · exact ho name heq.symm
  · exact h name hmem

/-- How a search may end. -/
inductive Ended (login : Text) (names : List (Option Text)) : Option (Option Text) → Prop where
  | threw (before after : List (Option Text)) (name : Text) :
      names = before ++ some name :: after → NoneMakes login before →
      encodePhoneCode { login, fromName := name } = none → Ended login names none
  | nothing : NoneMakes login names → Ended login names (some none)
  | found (before after : List (Option Text)) (name code : Text) :
      names = before ++ some name :: after → NoneMakes login before →
      encodePhoneCode { login, fromName := name } = some code →
      parsePhoneCode code = .ok { login := trim login, fromName := trim name } →
      Ended login names (some (some code))

theorem Ended.cons {o : Option Text} {r : Option (Option Text)} (h : Ended login names r)
    (ho : ∀ name, o = some name → ¬Makes login name) : Ended login (o :: names) r := by
  cases h with
  | threw before after name heq hbefore hcode =>
    exact .threw (o :: before) after name (congrArg (List.cons o) heq) (hbefore.cons ho) hcode
  | nothing hnone => exact .nothing (hnone.cons ho)
  | found before after name code heq hbefore hcode hread =>
    exact .found (o :: before) after name code (congrArg (List.cons o) heq) (hbefore.cons ho) hcode
      hread

theorem noneMakes_nil : NoneMakes login [] := fun _ h => by cases h

theorem search_ended (login : Text) (names : List (Option Text)) :
    Ended login names (phoneCodeForLogin login names) := by
  induction names with
  | nil => exact .nothing noneMakes_nil
  | cons o names ih =>
    cases o with
    | none => exact ih.cons fun name h => by cases h
    | some name =>
      rw [phoneCodeForLogin]
      cases hcode : encodePhoneCode { login, fromName := name } with
      | none => exact .threw [] names name rfl noneMakes_nil hcode
      | some code =>
        cases hread : parsePhoneCode code with
        | ok read =>
          simp only [hread]
          have hcanon := (parse_encoded hcode read).mp hread
          rw [hcanon.2] at hread
          exact .found [] names name code rfl noneMakes_nil hcode hread
        | error why =>
          simp only [hread]
          refine ih.cons fun other heq hmakes => ?_
          cases heq
          obtain ⟨code', hcode', read, hread'⟩ := hmakes
          rw [hcode] at hcode'
          cases hcode'
          rw [hread] at hread'
          cases hread'

theorem search_throws {before : List (Option Text)} (hbefore : NoneMakes login before)
    (hcode : encodePhoneCode { login, fromName := name } = none) (after : List (Option Text)) :
    phoneCodeForLogin login (before ++ some name :: after) = none := by
  induction before with
  | nil => rw [nil_append, phoneCodeForLogin, hcode]
  | cons o before ih =>
    have hrest : NoneMakes login before := fun other hmem =>
      hbefore other (mem_cons_of_mem o hmem)
    cases o with
    | none => exact ih hrest
    | some other =>
      rw [cons_append, phoneCodeForLogin]
      cases hother : encodePhoneCode { login, fromName := other } with
      | none => rfl
      | some code =>
        cases hread : parsePhoneCode code with
        | ok read =>
          exact absurd ⟨code, hother, read, hread⟩ (hbefore other (mem_cons_self ..))
        | error why =>
          simp only [hread]
          exact ih hrest

theorem trip_of_ended {r : Option Text} (h : Ended login names (some r)) :
    (r.isSome = true ↔ ∃ l, some login = some l ∧ ∃ name, some name ∈ names ∧ Makes l name) ∧
      ∀ code, r = some code → ∃ l before name after, some login = some l ∧
        names = before ++ some name :: after ∧ (∀ name', some name' ∈ before → ¬Makes l name') ∧
        encodePhoneCode { login := l, fromName := name } = some code ∧
        parsePhoneCode code = .ok { login := trim l, fromName := trim name } := by
  cases h with
  | nothing hnone =>
    refine ⟨⟨fun h => (by cases h), ?_⟩, fun code h => (by cases h)⟩
    rintro ⟨l, hl, name, hmem, hmakes⟩
    cases hl
    exact absurd hmakes (hnone name hmem)
  | found before after name code hnames hbefore hcode hread =>
    refine ⟨⟨fun _ => ⟨login, rfl, name, ?_, code, hcode, _, hread⟩, fun _ => rfl⟩, ?_⟩
    · rw [hnames]
      exact mem_append_right _ (mem_cons_self ..)
    · intro other heq
      cases heq
      exact ⟨login, before, name, after, rfl, hnames, hbefore, hcode, hread⟩

theorem trip_iff (login : Option Text) (names : List (Option Text)) :
    Trip login names ↔ Tried login names := by
  cases login with
  | none =>
    refine ⟨fun _ l _ _ _ h => (by cases h), fun _ => ⟨none, rfl, ?_, fun code h => (by cases h)⟩⟩
    exact ⟨fun h => (by cases h), fun ⟨l, h, _⟩ => (by cases h)⟩
  | some login =>
    constructor
    · rintro ⟨r, hr, -, -⟩ l before name after hl hnames hbefore
      cases hl
      by_contra hnot
      have hnone : NoneMakes login before := fun other hmem hmakes =>
        hbefore other hmem (makes_iff.mp hmakes)
      have hthrows := search_throws hnone (encodePhoneCode_none.mpr hnot) after
      rw [← hnames] at hthrows
      cases hthrows.symm.trans hr
    · intro htried
      have hended := search_ended login names
      cases hr : phoneCodeForLogin login names with
      | some r =>
        rw [hr] at hended
        exact ⟨r, hr, trip_of_ended hended⟩
      | none =>
        rw [hr] at hended
        cases hended with
        | threw before after name hnames hbefore hcode =>
          have hwell := htried login before name after rfl hnames fun other hmem hread =>
            hbefore other hmem (makes_iff.mpr hread)
          exact absurd hwell (encodePhoneCode_none.mp hcode)

/-- The trip is made unless the search comes to a surrogate that stands alone, and both readers
answer a text of scalars alike. -/
theorem carries_links (login : Option Text) (names : List (Option Text))
    (removing : List Char → Option (List Char)) (text : List Char) :
    (Trip login names ↔ Tried login names) ∧ (Removes removing → Alike removing text) :=
  ⟨trip_iff login names, fun hremoves => alike hremoves text⟩

/-- A name past the bound is passed over, and a code is read alike. -/
theorem carries_links_studio :
    Trip (some (encode "me@x".toList))
        [none, some (List.replicate 65 (unit 'a')), some (encode "Studio".toList)] ∧
      Alike removingPercentEncoding
        "vibefield://ADD-PHONE/?login=me%40x&&from=Studio#x".toList := by
  have h := carries_links (some (encode "me@x".toList))
    [none, some (List.replicate 65 (unit 'a')), some (encode "Studio".toList)]
    removingPercentEncoding "vibefield://ADD-PHONE/?login=me%40x&&from=Studio#x".toList
  refine ⟨h.1.mpr fun l before name after hl hnames _ => ?_, h.2 removes⟩
  have hmem : some name ∈ [none, some (List.replicate 65 (unit 'a')),
      some (encode "Studio".toList)] := by
    rw [hnames]
    exact List.mem_append_right _ (List.mem_cons_self ..)
  cases hl
  refine ⟨by decide, ?_⟩
  simp only [List.mem_cons, List.not_mem_nil, or_false, Option.some.injEq, reduceCtorEq,
    false_or] at hmem
  rcases hmem with rfl | rfl
  · decide
  · decide

/-- A surrogate that stands alone ends the search, though the next name makes a code. -/
theorem not_trip_surrogate :
    ¬Trip (some (encode "me@x".toList)) [some [0xD800], some (encode "Studio".toList)] ∧
      Makes (encode "me@x".toList) (encode "Studio".toList) := by
  constructor
  · rintro ⟨r, hr, -⟩
    have hnone : phoneCodeFor (some (encode "me@x".toList))
        [some [0xD800], some (encode "Studio".toList)] = none := by
      decide
    cases hnone.symm.trans hr
  · refine makes_iff.mpr ⟨by decide, fun code hcode => ?_, by decide, by decide⟩
    have hlength : (encodePhoneCode
        { login := encode "me@x".toList, fromName := encode "Studio".toList }).map List.length =
          some 46 := by
      decide
    rw [hcode, Option.map_some, Option.some_inj] at hlength
    rw [hlength]
    decide

end VibeField.Contracts.PhoneCode

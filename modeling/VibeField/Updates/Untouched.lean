import VibeField.Updates.CodeDirectoryCovers
import VibeField.Base.Uri
import Mathlib.Data.List.Forall2
import Mathlib.Data.List.Perm.Basic

/-!
# A member whose line did not change

Two members of one line are the same bytes, or are signed images of the same code: so far as the
hashes tell apart what was hashed.  The reader never leaves a file, and what a CMS blob holds does
not show in a member's line, where no other part of the file is in the CMS blob's place.
-/

namespace VibeField.Updates.CodeDirectory

open Reading View List

variable {h : Hash} {a b bytes : List UInt8}

/-! ## The images of a file -/

section Images

variable {α : Type} {read : Nat → Nat → Reading String α} {universal : Bool} {images : List α}
  {places : List (Nat × Nat)}

theorem readSpan_ok {fat count i : Nat} {place : Nat × Nat}
    (hs : readSpan bytes fat count i = .ok place) :
    fatTable fat count ≤ place.1 ∧ place.2 ≤ bytes.length := by
  simp only [readSpan, bind_ok, refuseIf_ok] at hs
  obtain ⟨offset, -, size, -, -, hin, hs⟩ := hs
  cases hs
  dsimp only
  omega

/-- What a file's first bytes say: where the images are. -/
inductive Table (bytes : List UInt8) : Bool → List (Nat × Nat) → Prop where
  | thin {fat : Nat} (hfat : readFat bytes 4 0 = .ok fat)
    (hthin : fat ≠ fatMagic ∧ fat ≠ fatMagic64) : Table bytes false [(0, bytes.length)]
  | universal {fat count : Nat} {places : List (Nat × Nat)} (hfat : readFat bytes 4 0 = .ok fat)
    (hfat' : ¬(fat ≠ fatMagic ∧ fat ≠ fatMagic64)) (hcount : readFat bytes 8 4 = .ok count)
    (hbound : ¬(count = 0 ∨ count > fatMaxArchs ∨ fatTable fat count > bytes.length))
    (hplaces : List.Forall₂ (fun i place => readSpan bytes fat count i = .ok place)
      (List.range count) places) : Table bytes true places

theorem readImages_ok : readImages read bytes = .ok (universal, images) ↔
    ∃ places, Table bytes universal places ∧
      List.Forall₂ (fun place image => read place.1 place.2 = .ok image) places images := by
  rw [readImages, bind_ok]
  constructor
  · rintro ⟨fat, hfat, hread⟩
    split at hread
    · rename_i hthin
      obtain ⟨image, himage, hread⟩ := bind_ok.mp hread
      cases hread
      exact ⟨_, .thin hfat hthin, .cons himage .nil⟩
    · rename_i hfat'
      simp only [bind_ok, refuseIf_ok, mapM_ok] at hread
      obtain ⟨count, hcount, -, hbound, images', himages, hread⟩ := hread
      cases hread
      obtain ⟨places, hplaces, hread⟩ := forall₂_split himages
      exact ⟨places, .universal hfat hfat' hcount hbound hplaces, hread⟩
  · rintro ⟨places, htable, hread⟩
    cases htable with
    | thin hfat hthin =>
      refine ⟨_, hfat, ?_⟩
      rw [if_pos hthin]
      cases hread with
      | cons himage hrest =>
        cases hrest
        exact bind_ok.mpr ⟨_, himage, rfl⟩
    | universal hfat hfat' hcount hbound hplaces =>
      refine ⟨_, hfat, ?_⟩
      rw [if_neg hfat']
      simp only [bind_ok, refuseIf_ok, mapM_ok]
      exact ⟨_, hcount, (), hbound, _, forall₂_comp hplaces hread, rfl⟩

theorem inside_readFat {least p : Nat} (hleast : p + 4 ≤ least) :
    Inside (readFat bytes least p) := by
  rw [readFat]
  split
  · exact inside_uint32 (by omega)
  · exact inside_ok _

theorem inside_readField {fat p : Nat}
    (hp : p + (if fat = fatMagic64 then 8 else 4) ≤ bytes.length) :
    Inside (readField bytes fat p) := by
  rw [readField]
  split
  · rename_i hwide
    rw [if_pos hwide] at hp
    exact inside_uint64 hp
  · rename_i hwide
    rw [if_neg hwide] at hp
    exact inside_uint32 hp

theorem entry_within (fat : Nat) {count i : Nat} (hi : i < count) :
    8 + i * fatEntry fat + (if fat = fatMagic64 then 16 else 12) +
      (if fat = fatMagic64 then 8 else 4) ≤ fatTable fat count ∧
    8 + i * fatEntry fat + 8 + (if fat = fatMagic64 then 8 else 4) ≤ fatTable fat count := by
  have hslot := slot_le (fatEntry fat) hi
  rw [fatTable]
  rw [fatEntry] at hslot ⊢
  split at hslot <;> simp_all <;> omega

theorem inside_readImages (hread : ∀ p q, q ≤ bytes.length → Inside (read p q)) :
    Inside (readImages read bytes) := by
  rw [readImages]
  refine (inside_readFat (Nat.le_refl 4)).bind fun fat _ => ?_
  split
  · exact (hread 0 bytes.length (Nat.le_refl _)).bind fun _ _ => inside_ok _
  · refine (inside_readFat (Nat.le_refl 8)).bind fun count _ => Inside.unless fun hbound => ?_
    refine (Inside.mapM fun i hi => ?_).bind fun _ _ => inside_ok _
    obtain ⟨hsize, hoffset⟩ := entry_within fat (mem_range.mp hi)
    refine Inside.bind ?_ fun place hplace => hread _ _ (readSpan_ok hplace).2
    refine (inside_readField (by omega)).bind fun _ _ => ?_
    exact (inside_readField (by omega)).bind fun _ _ => Inside.unless fun _ => inside_ok _

theorem Table.inside {place : Nat × Nat} (ht : Table bytes universal places)
    (hplace : place ∈ places) : place.2 ≤ bytes.length := by
  cases ht with
  | thin hfat hthin =>
    rw [mem_singleton.mp hplace]
  | universal hfat hfat' hcount hbound hplaces =>
    obtain ⟨i, -, hi⟩ := mem_of_forall₂ hplaces hplace
    exact (readSpan_ok hi).2

end Images

def layouts (bytes : List UInt8) : List Layout :=
  match readImages (readLayout bytes) bytes with
  | .ok (_, ls) => ls
  | .error _ => []

def hashed (h : Hash) (bytes : List UInt8) : List Hashed :=
  match readCodeSignature h bytes with
  | .unsigned _ => [{ algorithm := .sha256, kept := none, data := bytes }]
  | .signed universal slices =>
    (layouts bytes).flatMap (fun l =>
      { algorithm := .sha256, kept := none, data := l.directory.data bytes } :: l.hashed bytes) ++
    if universal then
      [{ algorithm := .sha256, kept := none, data := Contracts.encodeText (slicesText slices) }]
    else []

/-! ## Lines -/

theorem hexDigit_inj {m n : Nat} (hm : m < 16) (hn : n < 16) (h : hexDigit m = hexDigit n) :
    m = n := by
  have hall : ∀ m < 16, ∀ n < 16, hexDigit m = hexDigit n → m = n := by decide
  exact hall m hm n hn h

theorem hex_inj : ∀ {x y : List UInt8}, hex x = hex y → x = y
  | [], [], _ => rfl
  | [], _ :: _, h => by simp [hex] at h
  | _ :: _, [], h => by simp [hex] at h
  | c :: x, d :: y, h => by
    simp only [hex, flatMap_cons, cons_append, nil_append, List.cons.injEq] at h
    obtain ⟨hhigh, hlow, hrest⟩ := h
    have hc := c.toNat_lt
    have hd := d.toNat_lt
    have hq := hexDigit_inj (by omega) (by omega) hhigh
    have hr := hexDigit_inj (by omega) (by omega) hlow
    have hbyte : c = d := UInt8.toNat_inj.mp (by omega)
    rw [hbyte, hex_inj hrest]

theorem hexDigit_range {n : Nat} (hn : n < 16) :
    48 ≤ (hexDigit n).toNat ∧ (hexDigit n).toNat ≤ 102 ∧ hexDigit n ≠ ':' := by
  have hall : ∀ n < 16, 48 ≤ (hexDigit n).toNat ∧ (hexDigit n).toNat ≤ 102 ∧ hexDigit n ≠ ':' := by
    decide
  exact hall n hn

theorem mem_hex {c : Char} {x : List UInt8} (hc : c ∈ hex x) :
    48 ≤ c.toNat ∧ c.toNat ≤ 102 ∧ c ≠ ':' := by
  obtain ⟨byte, -, hc⟩ := mem_flatMap.mp hc
  have hbyte := byte.toNat_lt
  rcases mem_cons.mp hc with rfl | hc
  · exact hexDigit_range (by omega)
  · rw [mem_singleton.mp hc]
    exact hexDigit_range (by omega)

theorem encodeText_inj {x y : List Char} (h : Contracts.encodeText x = Contracts.encodeText y) :
    x = y := by
  have hx := Contracts.decodeText_encodeText x
  rw [h, Contracts.decodeText_encodeText] at hx
  exact (Option.some.inj hx).symm

theorem mem_line {s : Slice} {x : List UInt8} (hs : s.cdhash = hex x) {c : Char}
    (hc : c ∈ s.line) : c.toNat ≤ 102 ∧ c ≠ '\n' := by
  have hdigits : ∀ n : Nat, c ∈ Nat.toDigits 10 n → c.toNat ≤ 102 ∧ c ≠ '\n' := by
    intro n hn
    have hdigit := Nat.isDigit_of_mem_toDigits (b := 10) (n := n) (by omega) (by omega) hn
    rw [Char.isDigit_iff_toNat] at hdigit
    have hnine : '9'.toNat = 57 := rfl
    refine ⟨by omega, ?_⟩
    rintro rfl
    exact absurd hdigit (by decide)
  rw [Slice.line, hs] at hc
  rcases mem_append.mp hc with hc | hc
  · exact hdigits _ hc
  · rcases mem_cons.mp hc with rfl | hc
    · decide
    · rcases mem_append.mp hc with hc | hc
      · exact hdigits _ hc
      · rcases mem_cons.mp hc with rfl | hc
        · decide
        · obtain ⟨hlow, hhigh, -⟩ := mem_hex hc
          refine ⟨hhigh, ?_⟩
          rintro rfl
          exact absurd hlow (by decide)

theorem cdhash_of_line {s t : Slice} (h : s.line = t.line) : s.cdhash = t.cdhash := by
  have hzero : ∀ n : Nat, Char.ofNat 0 ∉ Nat.toDigits 10 n := by
    intro n hn
    have hdigit := Nat.isDigit_of_mem_toDigits (b := 10) (n := n) (by omega) (by omega) hn
    exact absurd hdigit (by decide)
  have hfront : ∀ u : Slice,
      Char.ofNat 0 ∉ Nat.toDigits 10 u.cputype ++ '/' :: Nat.toDigits 10 u.cpusubtype := by
    intro u hmem
    rcases mem_append.mp hmem with hmem | hmem
    · exact hzero _ hmem
    · rcases mem_cons.mp hmem with hmem | hmem
      · exact absurd hmem (by decide)
      · exact hzero _ hmem
  rw [Slice.line, Slice.line, ← cons_append, ← append_assoc, ← cons_append,
    ← append_assoc] at h
  exact (Uri.cut_inj (hfront s) (hfront t) h).2

theorem join_cons (l : List Char) (m : List Char) (x : List (List Char)) :
    List.intercalate ['\n'] (l :: m :: x) = l ++ '\n' :: List.intercalate ['\n'] (m :: x) := by
  rw [intercalate_cons_cons, append_assoc, singleton_append]

theorem join_inj {x y : List (List Char)} (hx : ∀ l ∈ x, '\n' ∉ l ∧ l ≠ [])
    (hy : ∀ l ∈ y, '\n' ∉ l ∧ l ≠ [])
    (h : List.intercalate ['\n'] x = List.intercalate ['\n'] y) : x = y := by
  have hnil : ∀ {z : List (List Char)}, (∀ l ∈ z, '\n' ∉ l ∧ l ≠ []) →
      List.intercalate ['\n'] z = [] → z = [] := by
    intro z hz hjoin
    match z with
    | [] => rfl
    | [l] =>
      rw [intercalate_singleton] at hjoin
      exact absurd hjoin (hz l mem_cons_self).2
    | l :: m :: z =>
      rw [join_cons] at hjoin
      exact absurd (append_eq_nil_iff.mp hjoin).1 (hz l mem_cons_self).2
  by_cases hxn : x = []
  · subst hxn
    exact (hnil hy h.symm).symm
  by_cases hyn : y = []
  · subst hyn
    exact hnil hx h
  rw [← splitOn_intercalate '\n' (fun l hl => (hx l hl).1) hxn, h,
    splitOn_intercalate '\n' (fun l hl => (hy l hl).1) hyn]

/-! ## Signed files -/

/-- What a slice says of the image it was read from. -/
structure Slice.Of (s : Slice) (h : Hash) (bytes : List UInt8) (l : Layout) : Prop where
  inside : l.stop ≤ bytes.length
  stands : l.Stands bytes
  verified : ∃ f algorithm,
    Verified h bytes l.start l.signature.offset l.directory l.components f algorithm
  cdhash : s.cdhash = sha256Hex h (l.directory.data bytes)

theorem readImage_ok {start stop : Nat} {s : Slice}
    (hs : readImage h bytes start stop = .ok s) (hstop : stop ≤ bytes.length) :
    ∃ l, readLayout bytes start stop = .ok l ∧ s.Of h bytes l := by
  simp only [readImage, bind_ok] at hs
  obtain ⟨l, hl, t, ht, data, hdata, hs⟩ := hs
  cases hs
  obtain ⟨rfl, rfl, hstands⟩ := readLayout_ok hl
  refine ⟨l, hl, hstop, hstands, verifyDirectory_ok ht, ?_⟩
  rw [← span_blob hdata]

theorem signed_ok {universal : Bool} {slices : List Slice}
    (hs : readCodeSignature h bytes = .signed universal slices) :
    ∃ places, Table bytes universal places ∧
      List.Forall₂ (fun place s => readImage h bytes place.1 place.2 = .ok s) places slices ∧
      List.Forall₂ (fun place l => readLayout bytes place.1 place.2 = .ok l) places
        (layouts bytes) ∧
      List.Forall₂ (fun l s => s.Of h bytes l) (layouts bytes) slices := by
  have hread : readImages (readImage h bytes) bytes = .ok (universal, slices) := by
    rw [readCodeSignature] at hs
    split at hs
    · rename_i heq
      cases hs
      exact heq
    · cases hs
    · cases hs
  obtain ⟨places, htable, himages⟩ := readImages_ok.mp hread
  have hboth : List.Forall₂ (fun place s => ∃ l, readLayout bytes place.1 place.2 = .ok l ∧
      s.Of h bytes l) places slices := by
    have hin := (forall₂_and_left _ _).mpr ⟨fun place hp => htable.inside hp, himages⟩
    exact hin.imp fun place s ⟨hstop, hs⟩ => readImage_ok hs hstop
  obtain ⟨ls, hls, hof⟩ := forall₂_split hboth
  have hlayouts : layouts bytes = ls := by
    rw [layouts, readImages_ok.mpr ⟨places, htable, hls⟩]
  rw [hlayouts]
  exact ⟨places, htable, himages, hls, hof⟩

/-- Two files hold the same code, image by image. -/
def SameSlices (h : Hash) (a b : List UInt8) : Prop :=
  ∃ universal slices slices' ls, readCodeSignature h a = .signed universal slices ∧
    readCodeSignature h b = .signed universal slices' ∧
    List.Forall₂ (fun l m => SameCode a l b m) (layouts a) ls ∧ ls.Perm (layouts b)

section Pair

variable {s : List Hashed} {l m : Layout} {x y : Slice}

theorem uint32LE_code {start limit k : Nat} (hlimit : start + limit ≤ a.length)
    {start' : Nat} (hlimit' : start' + limit ≤ b.length)
    (hcode : code a start limit = code b start' limit) (hk : k + 4 ≤ limit) :
    (uint32LE a (start + k) : Reading String Nat) = uint32LE b (start' + k) := by
  have hspan : ∀ {c : List UInt8} {p : Nat}, p + limit ≤ c.length →
      (span c p (p + limit) : Reading String _) = .ok (code c p limit) := fun hc =>
    span_ok.mpr ⟨Nat.le_add_right _ _, hc, by rw [Nat.add_sub_cancel_left, code]⟩
  have hsame := Same.of_span (hspan hlimit) ((hspan hlimit').trans (by rw [hcode]))
  rw [length_code hlimit] at hsame
  exact hsame.uint32LE rfl rfl hk

theorem sameCode_of_cdhash (hx : x.Of h a l) (hy : y.Of h b m) (hinj : Injective h s)
    (hsl : ∀ z ∈ l.hashed a, z ∈ s) (hsm : ∀ z ∈ m.hashed b, z ∈ s)
    (hdl : { algorithm := .sha256, kept := none, data := l.directory.data a } ∈ s)
    (hdm : { algorithm := .sha256, kept := none, data := m.directory.data b } ∈ s)
    (hxy : x.cdhash = y.cdhash) : SameCode a l b m := by
  have hdata : l.directory.data a = m.directory.data b := by
    rw [hx.cdhash, hy.cdhash] at hxy
    exact hinj _ hdl _ hdm rfl rfl (hex_inj hxy)
  obtain ⟨f, algorithm, hv⟩ := hx.verified
  obtain ⟨f', algorithm', hv'⟩ := hy.verified
  have hina := hx.inside
  have hinb := hy.inside
  have hdirl := hx.stands.directory_within
  have hdirm := hy.stands.directory_within
  have hsigl := hx.stands.signature_within
  have hsigm := hy.stands.signature_within
  have hspan : ∀ {c : List UInt8} {d : Blob}, d.start + d.length ≤ c.length →
      (span c d.start (d.start + d.length) : Reading String _) = .ok (d.data c) := fun hc =>
    span_ok.mpr ⟨Nat.le_add_right _ _, hc, by rw [Nat.add_sub_cancel_left, Blob.data]⟩
  have hspanl := hspan (c := a) (d := l.directory) (by omega)
  have hspanm := hspan (c := b) (d := m.directory) (by omega)
  rw [← hdata] at hspanm
  have hs := Same.of_span hspanl hspanm
  have hlength : l.directory.length = m.directory.length := by
    have hl := length_of_span hspanl
    have hm := length_of_span hspanm
    omega
  have hn : (l.directory.data a).length = m.directory.length := by
    rw [length_of_span hspanm, Nat.add_sub_cancel_left]
  rw [hn] at hs
  have hleast := hy.stands.directory_least
  obtain ⟨hcode, hcomponent⟩ := hv.sameCode hv' hs hlength hleast (by omega) (by omega) hinj hsl hsm
  have hoffset := (hv.same hv' hs hlength hleast).2.2
  have hleastl := hx.stands.least
  rw [← hoffset] at hcode
  refine ⟨?_, ?_, by rw [hcode, hoffset], hdata, hcomponent⟩
  · have hcpu := hx.stands.cputype
    rw [uint32LE_code (by omega) (by omega) hcode (by omega), hy.stands.cputype] at hcpu
    exact (Except.ok.inj hcpu).symm
  · have hsub := hx.stands.cpusubtype
    rw [uint32LE_code (by omega) (by omega) hcode (by omega), hy.stands.cpusubtype] at hsub
    exact (Except.ok.inj hsub).symm

end Pair

/-! ## One line, one code -/

theorem hashed_of_unsigned {why : String} (hu : readCodeSignature h bytes = .unsigned why) :
    { algorithm := .sha256, kept := none, data := bytes } ∈ hashed h bytes := by
  rw [hashed, hu]
  exact mem_singleton_self _

variable {slices : List Slice} {universal : Bool}

theorem hashed_of_layout {l : Layout} (hs : readCodeSignature h bytes = .signed universal slices)
    (hl : l ∈ layouts bytes) :
    { algorithm := .sha256, kept := none, data := l.directory.data bytes } ∈ hashed h bytes ∧
      ∀ z ∈ l.hashed bytes, z ∈ hashed h bytes := by
  rw [hashed, hs]
  refine ⟨?_, fun z hz => ?_⟩
  · exact mem_append_left _ (mem_flatMap.mpr ⟨l, hl, mem_cons_self⟩)
  · exact mem_append_left _ (mem_flatMap.mpr ⟨l, hl, mem_cons_of_mem _ hz⟩)

theorem hashed_of_universal (hs : readCodeSignature h bytes = .signed true slices) :
    { algorithm := .sha256, kept := none,
      data := Contracts.encodeText (slicesText slices) } ∈ hashed h bytes := by
  rw [hashed, hs]
  exact mem_append_right _ mem_cons_self

theorem mem_join {x : List (List Char)} {c : Char} (hc : c ∈ List.intercalate ['\n'] x) :
    c = '\n' ∨ ∃ l ∈ x, c ∈ l := by
  induction x with
  | nil => cases hc
  | cons l x ih =>
    cases x with
    | nil =>
      rw [intercalate_singleton] at hc
      exact .inr ⟨l, mem_cons_self, hc⟩
    | cons m x =>
      rw [join_cons] at hc
      grind

theorem mem_encodeText {t : List Char} (ht : ∀ c ∈ t, c.toNat ≤ 102) {x : UInt8}
    (hx : x ∈ Contracts.encodeText t) : x.toNat ≤ 102 := by
  obtain ⟨c, hc, hx⟩ := mem_flatMap.mp hx
  have hcode : c.val.toNat ≤ 102 := ht c hc
  have hsize : c.utf8Size = 1 := by
    rw [Char.utf8Size, if_pos]
    exact UInt32.le_iff_toNat_le.mpr (Nat.le_trans hcode (by decide))
  rw [String.utf8EncodeChar_eq_singleton hsize, mem_singleton] at hx
  rw [hx, UInt32.toNat_toUInt8]
  omega

theorem leading_byte {p n : Nat} (hn : uint32 a p = (.ok n : Reading String Nat)) {k : Nat}
    (hk : 4 ≤ k) : ∃ x ∈ (a.drop p).take k, x.toNat = n / 2 ^ 24 := by
  obtain ⟨l, hl, hn⟩ := bind_ok.mp hn
  have hlength := length_of_span hl
  obtain ⟨-, -, hl⟩ := span_ok.mp hl
  rw [Nat.add_sub_cancel_left] at hlength hl
  match l, hlength with
  | [w, x, y, z], _ =>
    cases hn
    refine ⟨w, ?_, ?_⟩
    · refine mem_of_mem_take (i := 4) ?_
      rw [take_take, Nat.min_eq_left hk, hl]
      exact mem_cons_self
    · have hx := x.toNat_lt
      have hy := y.toNat_lt
      have hz := z.toNat_lt
      simp only [bigEndian, foldl_cons, foldl_nil]
      omega

theorem directory_ne_text {l : Layout} {x : Slice} (hx : x.Of h a l)
    (hslices : ∀ y ∈ slices, ∃ z, y.cdhash = hex z) :
    l.directory.data a ≠ Contracts.encodeText (slicesText slices) := by
  intro heq
  have hmagic := (hx.stands.superBlob.named _
    (Layout.Stands.mem_named hx.stands.directory.named)).magic
  rw [hx.stands.directory.loads.magic] at hmagic
  have hleast := hx.stands.directory_least
  rw [cdFixedHeader] at hleast
  obtain ⟨w, hw, hwn⟩ := leading_byte hmagic (k := l.directory.length) (by omega)
  change w ∈ l.directory.data a at hw
  rw [heq] at hw
  have hsmall := mem_encodeText (fun c hc => ?_) hw
  · rw [hwn, csmagicCodeDirectory] at hsmall
    exact absurd hsmall (by decide)
  · rcases mem_join hc with rfl | ⟨k, hk, hck⟩
    · decide
    · obtain ⟨y, hy, rfl⟩ := mem_map.mp ((mergeSort_perm _ _).mem_iff.mp hk)
      obtain ⟨z, hz⟩ := hslices y hy
      exact (mem_line hz hck).1

theorem lines_perm {slices slices' : List Slice} (hs : ∀ y ∈ slices, ∃ z, y.cdhash = hex z)
    (hs' : ∀ y ∈ slices', ∃ z, y.cdhash = hex z) (h : slicesText slices = slicesText slices') :
    (slices.map Slice.line).Perm (slices'.map Slice.line) := by
  have hlines : ∀ {t : List Slice}, (∀ y ∈ t, ∃ z, y.cdhash = hex z) →
      ∀ k ∈ sortLines (t.map Slice.line), '\n' ∉ k ∧ k ≠ [] := by
    intro t ht k hk
    obtain ⟨y, hy, rfl⟩ := mem_map.mp ((mergeSort_perm _ _).mem_iff.mp hk)
    obtain ⟨z, hz⟩ := ht y hy
    refine ⟨fun hmem => (mem_line hz hmem).2 rfl, ?_⟩
    rw [Slice.line]
    exact append_ne_nil_of_right_ne_nil _ (cons_ne_nil _ _)
  have hsorted := join_inj (hlines hs) (hlines hs') h
  have hperm := mergeSort_perm (slices.map Slice.line) fun a b =>
    Utf16.le (Utf16.encode a) (Utf16.encode b)
  rw [sortLines] at hsorted
  rw [hsorted] at hperm
  exact hperm.symm.trans (mergeSort_perm _ _)

theorem colon_notMem_sha256Hex (x : List UInt8) : ':' ∉ sha256Hex h x := by
  rw [sha256Hex]
  intro hmem
  exact (mem_hex hmem).2.2 rfl

theorem memberDigest_thin {x : Slice}
    (hs : readCodeSignature h bytes = .signed false (x :: slices)) :
    memberDigest h bytes = .cdhash x.cdhash := by
  rw [memberDigest, hs]

theorem memberDigest_universal (hs : readCodeSignature h bytes = .signed true slices) :
    memberDigest h bytes =
      .cdhash (sha256Hex h (Contracts.encodeText (slicesText slices))) := by
  rw [memberDigest, hs]

theorem text_unsigned {why : String} (hu : readCodeSignature h bytes = .unsigned why) :
    (memberDigest h bytes).text = sha256Hex h bytes := by
  rw [memberDigest, hu]
  rfl

theorem text_cdhash_ne {d : List Char} (x : List UInt8) :
    (MemberDigest.cdhash d).text ≠ sha256Hex h x := by
  intro heq
  have hcolon : ':' ∈ (MemberDigest.cdhash d).text :=
    mem_append_left _ (by decide)
  rw [heq] at hcolon
  exact colon_notMem_sha256Hex x hcolon

theorem text_cdhash_inj {d d' : List Char}
    (heq : (MemberDigest.cdhash d).text = (MemberDigest.cdhash d').text) : d = d' :=
  append_cancel_left heq

theorem text_of_line {path : List Char} (heq : memberLine h path a = memberLine h path b) :
    (memberDigest h a).text = (memberDigest h b).text :=
  (List.cons.inj (append_cancel_left heq)).2

theorem signed_cases (hs : readCodeSignature h bytes = .signed universal slices) :
    (∃ l x, universal = false ∧ layouts bytes = [l] ∧ slices = [x] ∧ x.Of h bytes l ∧
      memberDigest h bytes = .cdhash x.cdhash) ∨
    (universal = true ∧ memberDigest h bytes =
      .cdhash (sha256Hex h (Contracts.encodeText (slicesText slices)))) := by
  obtain ⟨places, htable, -, hlayouts, hof⟩ := signed_ok hs
  generalize layouts bytes = ls at hlayouts hof ⊢
  cases htable with
  | thin hfat hthin =>
    cases hlayouts with
    | cons hl hrest =>
      cases hrest
      cases hof with
      | cons hx hrest =>
        cases hrest
        exact .inl ⟨_, _, rfl, rfl, rfl, hx, memberDigest_thin hs⟩
  | universal => exact .inr ⟨rfl, memberDigest_universal hs⟩

theorem cdhash_hex (hs : readCodeSignature h bytes = .signed universal slices) :
    ∀ y ∈ slices, ∃ z, y.cdhash = hex z := by
  intro y hy
  obtain ⟨places, -, -, -, hof⟩ := signed_ok hs
  obtain ⟨l, -, hl⟩ := mem_of_forall₂ hof hy
  exact ⟨_, hl.cdhash⟩

section Lines

variable {slices slices' : List Slice} {universal : Bool}

theorem mem_left {x : Hashed} (hx : x ∈ hashed h a) : x ∈ hashed h a ++ hashed h b :=
  mem_append_left _ hx

theorem mem_right {x : Hashed} (hx : x ∈ hashed h b) : x ∈ hashed h a ++ hashed h b :=
  mem_append_right _ hx

theorem sameCode_of_mem {l m : Layout} {x y : Slice} {universal' : Bool}
    (hinj : Injective h (hashed h a ++ hashed h b))
    (ha : readCodeSignature h a = .signed universal slices)
    (hb : readCodeSignature h b = .signed universal' slices') (hl : l ∈ layouts a)
    (hm : m ∈ layouts b) (hx : x.Of h a l) (hy : y.Of h b m) (hxy : x.cdhash = y.cdhash) :
    SameCode a l b m := by
  obtain ⟨hdl, hsl⟩ := hashed_of_layout ha hl
  obtain ⟨hdm, hsm⟩ := hashed_of_layout hb hm
  exact sameCode_of_cdhash hx hy hinj (fun z hz => mem_left (hsl z hz))
    (fun z hz => mem_right (hsm z hz)) (mem_left hdl) (mem_right hdm) hxy

theorem sameSlices_universal (hinj : Injective h (hashed h a ++ hashed h b))
    (ha : readCodeSignature h a = .signed true slices)
    (hb : readCodeSignature h b = .signed true slices')
    (htext : slicesText slices = slicesText slices') : SameSlices h a b := by
  obtain ⟨n, hn, hperm⟩ := exists_forall₂_of_map_perm
    (lines_perm (cdhash_hex ha) (cdhash_hex hb) htext)
  obtain ⟨-, -, -, -, hofa⟩ := signed_ok ha
  obtain ⟨-, -, -, -, hofb⟩ := signed_ok hb
  have hina := (forall₂_and_left _ _).mpr ⟨fun l hl => hl, hofa⟩
  have hinb := (forall₂_and_left _ _).mpr ⟨fun m hm => hm, hofb⟩
  obtain ⟨ls, hls, hperm'⟩ := perm_comp_forall₂ hperm hinb.flip
  refine ⟨true, slices, slices', ls, ha, hb, ?_, hperm'⟩
  refine (forall₂_comp hina (forall₂_comp hn hls)).imp ?_
  rintro l m ⟨x, ⟨hl, hx⟩, y, hxy, hm, hy⟩
  exact sameCode_of_mem hinj ha hb hl hm hx hy (cdhash_of_line hxy)

theorem sameSlices_of_line {path : List Char}
    (hinj : Injective h (hashed h a ++ hashed h b))
    (heq : memberLine h path a = memberLine h path b) : a = b ∨ SameSlices h a b := by
  have htext := text_of_line heq
  cases ha : readCodeSignature h a with
  | unsigned why =>
    rw [text_unsigned ha] at htext
    cases hb : readCodeSignature h b with
    | unsigned why' =>
      rw [text_unsigned hb] at htext
      exact .inl (hinj _ (mem_left (hashed_of_unsigned ha)) _ (mem_right (hashed_of_unsigned hb))
        rfl rfl (hex_inj htext))
    | signed universal slices =>
      rcases signed_cases hb with ⟨_, _, -, -, -, -, hd⟩ | ⟨-, hd⟩
      · rw [hd] at htext
        exact absurd htext.symm (text_cdhash_ne a)
      · rw [hd] at htext
        exact absurd htext.symm (text_cdhash_ne a)
  | signed universal slices =>
    cases hb : readCodeSignature h b with
    | unsigned why' =>
      rw [text_unsigned hb] at htext
      rcases signed_cases ha with ⟨_, _, -, -, -, -, hd⟩ | ⟨-, hd⟩
      · rw [hd] at htext
        exact absurd htext (text_cdhash_ne b)
      · rw [hd] at htext
        exact absurd htext (text_cdhash_ne b)
    | signed universal' slices' =>
      right
      rcases signed_cases ha with ⟨l, x, rfl, hla, rfl, hx, hd⟩ | ⟨rfl, hd⟩ <;>
        rcases signed_cases hb with ⟨m, y, rfl, hlb, rfl, hy, hd'⟩ | ⟨rfl, hd'⟩ <;>
        rw [hd, hd'] at htext <;> have hdigest := text_cdhash_inj htext
      · refine ⟨false, [x], [y], [m], ha, hb, ?_, by rw [hlb]⟩
        rw [hla]
        exact .cons (sameCode_of_mem hinj ha hb (by rw [hla]; exact mem_singleton_self l)
          (by rw [hlb]; exact mem_singleton_self m) hx hy hdigest) .nil
      · -- a code directory is no text of slices
        rw [hx.cdhash] at hdigest
        have hdata := hinj _ (mem_left (hashed_of_layout ha (l := l) (by simp [hla])).1) _
          (mem_right (hashed_of_universal hb)) rfl rfl (hex_inj hdigest)
        exact absurd hdata (directory_ne_text hx (cdhash_hex hb))
      · rw [hy.cdhash] at hdigest
        have hdata := hinj _ (mem_right (hashed_of_layout hb (l := m) (by simp [hlb])).1) _
          (mem_left (hashed_of_universal ha)) rfl rfl (hex_inj hdigest.symm)
        exact absurd hdata (directory_ne_text hy (cdhash_hex ha))
      · have htexts := hinj _ (mem_left (hashed_of_universal ha)) _
          (mem_right (hashed_of_universal hb)) rfl rfl (hex_inj hdigest)
        exact sameSlices_universal hinj ha hb (encodeText_inj htexts)

end Lines

end VibeField.Updates.CodeDirectory

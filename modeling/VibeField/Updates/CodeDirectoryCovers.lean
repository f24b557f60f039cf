import VibeField.Updates.CodeDirectoryRead

/-!
# What a code directory covers

A code directory that was verified has in its slots the digests of every page of the code before
the signature and of every component beside it.  Two images with one code directory are then the
same, as far as the digests tell what was hashed apart.
-/

namespace VibeField.Updates.CodeDirectory

open Reading View List

variable {h : Hash} {a b bytes : List UInt8} {start limit p q q' : Nat} {directory : Blob}
  {components : List Blob} {algorithm : Algorithm} {f : Fields}

/-! ## Slots -/

theorem verifySlot_ok {size : Nat} {why : String} {u : Unit}
    (hv : verifySlot h bytes algorithm size p q q' why = .ok u) :
    ∃ data, span bytes q q' = (.ok data : Reading String _) ∧
      span bytes p (p + size) = (.ok ((h algorithm data).take size) : Reading String _) := by
  simp only [verifySlot, bind_ok, refuseIf_ok] at hv
  obtain ⟨slot, hslot, data, hdata, hsame⟩ := hv
  have hlength : slot.length = size := by
    rw [length_of_span hslot, Nat.add_sub_cancel_left]
  have hprefix : slot.isPrefixOf (h algorithm data) = true := by
    simpa [sameBytes] using hsame
  have htake := prefix_iff_eq_take.mp (List.isPrefixOf_iff_prefix.mp hprefix)
  rw [hlength] at htake
  exact ⟨data, hdata, by rw [← htake]; exact hslot⟩

theorem inside_verifySlot {size : Nat} {why : String} (hp : p + size ≤ bytes.length)
    (hq : q ≤ q') (hq' : q' ≤ bytes.length) :
    Inside (verifySlot h bytes algorithm size p q q' why) := by
  refine (inside_span (Nat.le_add_right p size) hp).bind fun _ _ => ?_
  exact (inside_span hq hq').bind fun _ _ => inside_refuseIf _ _

/-! ## Pages -/

def code (bytes : List UInt8) (start limit : Nat) : List UInt8 := (bytes.drop start).take limit

theorem length_code (hlimit : start + limit ≤ bytes.length) :
    (code bytes start limit).length = limit := by
  rw [code, length_take, length_drop]
  omega

theorem pageSize_pos (limit pageBits : Nat) : 0 < pageSize limit pageBits := by
  rw [pageSize]
  split
  · exact Nat.lt_of_lt_of_le Nat.one_pos (Nat.le_max_right limit 1)
  · exact Nat.two_pow_pos pageBits

theorem page_inside (start : Nat) {size page : Nat} (hpage : page * size < limit) :
    start + page * size ≤ start + min ((page + 1) * size) limit := by
  have hmul : (page + 1) * size = page * size + size := Nat.succ_mul page size
  omega

theorem span_page {size page : Nat} (hlimit : start + limit ≤ bytes.length)
    (hpage : page * size < limit) :
    span bytes (start + page * size) (start + min ((page + 1) * size) limit) =
      (.ok (slice (code bytes start limit) size page) : Reading String _) := by
  refine span_ok.mpr ⟨page_inside start hpage, by omega, ?_⟩
  have hmul : (page + 1) * size = page * size + size := Nat.succ_mul page size
  have hwidth : start + min ((page + 1) * size) limit - (start + page * size) =
      min size (limit - page * size) := by omega
  rw [hwidth, slice, code, drop_take, drop_drop, take_take]

/-! ## Verified code directories -/

structure Verified (h : Hash) (bytes : List UInt8) (start limit : Nat) (directory : Blob)
    (components : List Blob) (f : Fields) (algorithm : Algorithm) : Prop where
  fields : readFields bytes directory.start = .ok f
  hashType : hashTypes f.hashType = some (algorithm, f.hashSize)
  codeLimit : readCodeLimit bytes directory f.version f.codeLimit = .ok limit
  count : f.nCodeSlots = sliceCount limit (pageSize limit f.pageBits)
  special : cdFixedHeader + f.nSpecialSlots * f.hashSize ≤ f.hashOffset
  slots : f.hashOffset + f.nCodeSlots * f.hashSize ≤ directory.length
  pages : ∀ page < f.nCodeSlots,
    verifyPage h bytes start directory algorithm f limit page = .ok ()
  components : ∀ c ∈ components, verifyComponent h bytes directory algorithm f c = .ok ()

theorem verifyDirectory_ok {t : Nat}
    (hv : verifyDirectory h bytes start limit directory components = .ok t) :
    ∃ f algorithm, Verified h bytes start limit directory components f algorithm := by
  simp only [verifyDirectory, bind_ok, refuseIf_ok, forM_ok] at hv
  obtain ⟨f, hf, -, -, algorithm, halg, -, -, limit', hlimit, -, hreach, -, -, -, hcount, -,
    hspecial, -, hslots, _, hpages, _, hcomponents, -⟩ := hv
  have hlim : limit' = limit := by simpa using hreach
  subst hlim
  exact ⟨f, algorithm, hf, readAlgorithm_ok halg, hlimit, by simpa using hcount, by omega,
    by omega, fun page hpage => hpages page (mem_range.mpr hpage), hcomponents⟩

theorem Verified.page {page : Nat}
    (hv : Verified h bytes start limit directory components f algorithm)
    (hlimit : start + limit ≤ bytes.length) (hpage : page < f.nCodeSlots) :
    span bytes (directory.start + f.hashOffset + page * f.hashSize)
        (directory.start + f.hashOffset + page * f.hashSize + f.hashSize) =
      (.ok ((h algorithm (slice (code bytes start limit) (pageSize limit f.pageBits) page)).take
        f.hashSize) : Reading String _) := by
  obtain ⟨data, hdata, hslot⟩ := verifySlot_ok (hv.pages page hpage)
  have hin : page * pageSize limit f.pageBits < limit :=
    mul_lt_of_lt_sliceCount (pageSize_pos _ _) (hv.count ▸ hpage)
  rw [span_page hlimit hin] at hdata
  cases hdata
  exact hslot

def Blob.data (blob : Blob) (bytes : List UInt8) : List UInt8 :=
  (bytes.drop blob.start).take blob.length

theorem span_blob {blob : Blob} {data : List UInt8}
    (hs : span bytes blob.start (blob.start + blob.length) = (.ok data : Reading String _)) :
    blob.data bytes = data := by
  obtain ⟨-, -, rfl⟩ := span_ok.mp hs
  rw [Nat.add_sub_cancel_left, Blob.data]

theorem Verified.component {c : Blob}
    (hv : Verified h bytes start limit directory components f algorithm) (hc : c ∈ components) :
    c.type ≤ f.nSpecialSlots ∧
      span bytes (directory.start + f.hashOffset - c.type * f.hashSize)
          (directory.start + f.hashOffset - c.type * f.hashSize + f.hashSize) =
        (.ok ((h algorithm (c.data bytes)).take f.hashSize) : Reading String _) := by
  have hcomponent := hv.components c hc
  rw [verifyComponent, bind_ok] at hcomponent
  obtain ⟨_, htype, hslot⟩ := hcomponent
  obtain ⟨data, hdata, hslot⟩ := verifySlot_ok hslot
  rw [← span_blob hdata] at hslot
  exact ⟨Nat.le_of_not_lt (refuseIf_ok.mp htype), hslot⟩

/-! ## The reader stays inside -/

theorem inside_readFields (hp : p + cdFixedHeader ≤ bytes.length) :
    Inside (readFields bytes p) := by
  rw [cdFixedHeader] at hp
  refine (inside_uint32 (by omega)).bind fun _ _ => (inside_uint32 (by omega)).bind fun _ _ => ?_
  refine (inside_uint32 (by omega)).bind fun _ _ => (inside_uint32 (by omega)).bind fun _ _ => ?_
  refine (inside_uint32 (by omega)).bind fun _ _ => (inside_uint8 (by omega)).bind fun _ _ => ?_
  refine (inside_uint8 (by omega)).bind fun _ _ => (inside_uint8 (by omega)).bind fun _ _ => ?_
  exact inside_ok _

theorem inside_readScatter {version : Nat}
    (hin : directory.start + directory.length ≤ bytes.length) :
    Inside (readScatter bytes directory version) := by
  rw [readScatter]
  split
  · refine Inside.unless fun hlength => (inside_uint32 (by omega)).bind fun _ _ => ?_
    exact inside_refuseIf _ _
  · exact inside_ok _

theorem inside_readCodeLimit {version n : Nat}
    (hin : directory.start + directory.length ≤ bytes.length) :
    Inside (readCodeLimit bytes directory version n) := by
  rw [readCodeLimit]
  split
  · refine Inside.unless fun hlength => (inside_uint64 (by omega)).bind fun _ _ => ?_
    exact Inside.unless fun _ => inside_ok _
  · exact inside_ok _

theorem slot_le (size : Nat) {n k : Nat} (h : k < n) : k * size + size ≤ n * size := by
  rw [← Nat.succ_mul]
  exact Nat.mul_le_mul_right size h

theorem inside_verifyDirectory (hlimit : start + limit ≤ bytes.length)
    (hleast : cdFixedHeader ≤ directory.length)
    (hin : directory.start + directory.length ≤ bytes.length)
    (hcomponents : ∀ c ∈ components, c.isComponent = true ∧ c.start + c.length ≤ bytes.length) :
    Inside (verifyDirectory h bytes start limit directory components) := by
  refine (inside_readFields (by omega)).bind fun f hf => Inside.unless fun _ => ?_
  refine (inside_readAlgorithm _ _).bind fun algorithm _ => ?_
  refine (inside_readScatter hin).bind fun _ _ => ?_
  refine (inside_readCodeLimit hin).bind fun codeLimit _ => ?_
  refine Inside.unless fun hreach => Inside.unless fun _ => Inside.unless fun hcount => ?_
  refine Inside.unless fun hspecial => Inside.unless fun hslots => ?_
  have hlim : codeLimit = limit := by simpa using hreach
  subst hlim
  refine (Inside.forM fun page hpage => ?_).bind fun _ _ => ?_
  · have hpage' : page < f.nCodeSlots := mem_range.mp hpage
    have hslot := slot_le f.hashSize hpage'
    have hn : f.nCodeSlots = sliceCount codeLimit (pageSize codeLimit f.pageBits) := by
      simpa using hcount
    have hpagein := mul_lt_of_lt_sliceCount (pageSize_pos codeLimit f.pageBits) (hn ▸ hpage')
    exact inside_verifySlot (by omega) (page_inside start hpagein) (by omega)
  · refine (Inside.forM fun c hc => ?_).bind fun _ _ => inside_ok _
    obtain ⟨hcomponent, hcin⟩ := hcomponents c hc
    refine Inside.unless fun htype => inside_verifySlot ?_ (Nat.le_add_right _ _) hcin
    rw [Blob.isComponent, Bool.and_eq_true, decide_eq_true_eq, csslotCodeDirectory] at hcomponent
    have hmul := Nat.mul_le_mul_right f.hashSize (Nat.le_of_not_lt htype)
    have hone := Nat.mul_le_mul_right f.hashSize hcomponent.1
    omega

/-! ## Two images of one code directory -/

/-- Data that is hashed, and how much of its digest is kept. -/
structure Hashed where
  algorithm : Algorithm
  kept : Option Nat
  data : List UInt8
  deriving DecidableEq

def Hashed.digest (h : Hash) (x : Hashed) : List UInt8 :=
  match x.kept with
  | some n => (h x.algorithm x.data).take n
  | none => h x.algorithm x.data

/-- What is kept of the digests tells the data apart. -/
def Injective (h : Hash) (s : List Hashed) : Prop :=
  ∀ x ∈ s, ∀ y ∈ s, x.algorithm = y.algorithm → x.kept = y.kept →
    x.digest h = y.digest h → x.data = y.data

def Layout.hashed (l : Layout) (bytes : List UInt8) : List Hashed :=
  match readFields bytes l.directory.start with
  | .ok f =>
    match hashTypes f.hashType with
    | some (algorithm, size) =>
      ((List.range f.nCodeSlots).map (slice (code bytes l.start l.signature.offset)
        (pageSize l.signature.offset f.pageBits)) ++ l.components.map (Blob.data · bytes)).map
        fun data => { algorithm, kept := some size, data }
    | none => []
  | .error _ => []

/-- Two images have one code: all that their line is to bind. -/
structure SameCode (a : List UInt8) (l : Layout) (b : List UInt8) (m : Layout) : Prop where
  cputype : l.cputype = m.cputype
  cpusubtype : l.cpusubtype = m.cpusubtype
  code : code a l.start l.signature.offset = code b m.start m.signature.offset
  directory : l.directory.data a = m.directory.data b
  component : ∀ c ∈ l.components, ∀ d ∈ m.components, c.type = d.type → c.data a = d.data b

/-! ### One code directory -/

theorem readFields_same {p' n : Nat} (hs : Same a p b p' n) (hn : cdFixedHeader ≤ n) :
    readFields a p = readFields b p' := by
  rw [cdFixedHeader] at hn
  rw [readFields, readFields, hs.uint32 rfl rfl (by omega), hs.uint32 rfl rfl (by omega),
    hs.uint32 rfl rfl (by omega), hs.uint32 rfl rfl (by omega), hs.uint32 rfl rfl (by omega),
    hs.uint8 rfl rfl (by omega), hs.uint8 rfl rfl (by omega), hs.uint8 rfl rfl (by omega)]

theorem readScatter_same {d e : Blob} {version : Nat}
    (hs : Same a d.start b e.start e.length) (hlength : d.length = e.length) :
    readScatter a d version = readScatter b e version := by
  rw [readScatter, readScatter, hlength]
  split
  · by_cases hshort : e.length < 48
    · rw [refuseIf, if_pos hshort]
      rfl
    · rw [hs.uint32 rfl rfl (by omega)]
  · rfl

theorem readCodeLimit_same {d e : Blob} {version n : Nat}
    (hs : Same a d.start b e.start e.length) (hlength : d.length = e.length) :
    readCodeLimit a d version n = readCodeLimit b e version n := by
  rw [readCodeLimit, readCodeLimit, hlength]
  split
  · by_cases hshort : e.length < 64
    · rw [refuseIf, if_pos hshort]
      rfl
    · rw [hs.uint64 rfl rfl (by omega)]
  · rfl

theorem code_eq_flatMap {size : Nat} (hsize : 0 < size)
    (hlimit : start + limit ≤ bytes.length) :
    (List.range (sliceCount limit size)).flatMap (slice (code bytes start limit) size) =
      code bytes start limit := by
  have hwhole := slices_whole (code bytes start limit) hsize
  rwa [length_code hlimit] at hwhole

section Two

variable {l m : Layout} {f' : Fields} {algorithm' : Algorithm}

theorem Verified.same
    (hv : Verified h a l.start l.signature.offset l.directory l.components f algorithm)
    (hv' : Verified h b m.start m.signature.offset m.directory m.components f' algorithm')
    (hs : Same a l.directory.start b m.directory.start m.directory.length)
    (hlength : l.directory.length = m.directory.length)
    (hleast : cdFixedHeader ≤ m.directory.length) :
    f = f' ∧ algorithm = algorithm' ∧ l.signature.offset = m.signature.offset := by
  have hf : f = f' := by
    have hfields := hv.fields
    rw [readFields_same hs hleast, hv'.fields] at hfields
    exact (Except.ok.inj hfields).symm
  subst hf
  have halg : algorithm = algorithm' := by
    have htype := hv.hashType
    rw [hv'.hashType] at htype
    exact (congrArg Prod.fst (Option.some.inj htype)).symm
  have hlimit := hv.codeLimit
  rw [readCodeLimit_same hs hlength, hv'.codeLimit] at hlimit
  exact ⟨rfl, halg, (Except.ok.inj hlimit).symm⟩

theorem component_pos {c : Blob} (hc : c ∈ l.components) : 1 ≤ c.type := by
  have hcomponent := (mem_filter.mp hc).2
  rw [Blob.isComponent, Bool.and_eq_true, decide_eq_true_eq] at hcomponent
  exact hcomponent.1

theorem mem_hashed_page {page : Nat}
    (hv : Verified h a l.start l.signature.offset l.directory l.components f algorithm)
    (hpage : page < f.nCodeSlots) :
    { algorithm, kept := some f.hashSize,
      data := slice (code a l.start l.signature.offset) (pageSize l.signature.offset f.pageBits)
        page } ∈ l.hashed a := by
  rw [Layout.hashed, hv.fields]
  simp only [hv.hashType]
  exact mem_map_of_mem (mem_append_left _ (mem_map_of_mem
    (mem_range.mpr hpage)))

theorem mem_hashed_component {c : Blob}
    (hv : Verified h a l.start l.signature.offset l.directory l.components f algorithm)
    (hc : c ∈ l.components) :
    { algorithm, kept := some f.hashSize, data := c.data a } ∈ l.hashed a := by
  rw [Layout.hashed, hv.fields]
  simp only [hv.hashType]
  exact mem_map_of_mem (mem_append_right _ (mem_map_of_mem hc))

theorem Verified.sameCode {s : List Hashed}
    (hv : Verified h a l.start l.signature.offset l.directory l.components f algorithm)
    (hv' : Verified h b m.start m.signature.offset m.directory m.components f' algorithm')
    (hs : Same a l.directory.start b m.directory.start m.directory.length)
    (hlength : l.directory.length = m.directory.length)
    (hleast : cdFixedHeader ≤ m.directory.length)
    (hl : l.start + l.signature.offset ≤ a.length) (hm : m.start + m.signature.offset ≤ b.length)
    (hinj : Injective h s) (hsl : ∀ x ∈ l.hashed a, x ∈ s) (hsm : ∀ x ∈ m.hashed b, x ∈ s) :
    code a l.start l.signature.offset = code b m.start m.signature.offset ∧
      ∀ c ∈ l.components, ∀ d ∈ m.components, c.type = d.type → c.data a = d.data b := by
  obtain ⟨rfl, rfl, hoffset⟩ := hv.same hv' hs hlength hleast
  have hsame : ∀ x y : List UInt8,
      { algorithm, kept := some f.hashSize, data := x } ∈ l.hashed a →
      { algorithm, kept := some f.hashSize, data := y } ∈ m.hashed b →
      (h algorithm x).take f.hashSize = (h algorithm y).take f.hashSize → x = y :=
    fun x y hx hy hxy => hinj _ (hsl _ hx) _ (hsm _ hy) rfl rfl hxy
  have hspecial := hv.special
  have hslots := hv.slots
  constructor
  · have hcount := hv.count
    rw [← code_eq_flatMap (pageSize_pos l.signature.offset f.pageBits) hl,
      ← code_eq_flatMap (pageSize_pos m.signature.offset f.pageBits) hm, ← hoffset, ← hcount]
    refine flatMap_congr fun page hpage => ?_
    have hpage' := mem_range.mp hpage
    have hslot := slot_le f.hashSize hpage'
    refine hsame _ _ (mem_hashed_page hv hpage') ?_ ?_
    · have hmem := mem_hashed_page hv' hpage'
      rwa [← hoffset] at hmem
    · have hpa := hv.page hl hpage'
      have hpb := hv'.page hm hpage'
      rw [← hoffset] at hpb
      rw [hs.span (Nat.add_assoc _ _ _) (Nat.add_assoc _ _ _) rfl rfl (by omega), hpb] at hpa
      exact (Except.ok.inj hpa).symm
  · intro c hc d hd htype
    obtain ⟨hbound, hca⟩ := hv.component hc
    obtain ⟨-, hdb⟩ := hv'.component hd
    refine hsame _ _ (mem_hashed_component hv hc) (mem_hashed_component hv' hd) ?_
    have hmul := Nat.mul_le_mul_right f.hashSize hbound
    have hback : c.type * f.hashSize ≤ f.hashOffset := by omega
    rw [← htype] at hdb
    rw [hs.span (Nat.add_sub_assoc hback _) (Nat.add_sub_assoc hback _) rfl rfl ?_, hdb] at hca
    · exact (Except.ok.inj hca).symm
    · have hone := Nat.mul_le_mul_right f.hashSize (component_pos hc)
      omega

end Two

/-- An image's layout, as the reader leaves it. -/
structure Layout.Stands (l : Layout) (bytes : List UInt8) : Prop where
  least : 28 ≤ l.signature.offset
  ends : l.signature.offset + l.signature.size = l.stop - l.start
  cputype : uint32LE bytes (l.start + 4) = (.ok l.cputype : Reading String Nat)
  cpusubtype : uint32LE bytes (l.start + 8) = (.ok l.cpusubtype : Reading String Nat)
  superBlob : l.superBlob.Stands bytes (l.start + l.signature.offset) l.signature.size
  directory : Enforced bytes l.superBlob.blobs l.directory

theorem readLayout_ok {stop : Nat} {l : Layout} (hl : readLayout bytes start stop = .ok l) :
    l.start = start ∧ l.stop = stop ∧ l.Stands bytes := by
  simp only [readLayout, bind_ok] at hl
  obtain ⟨m, hm, found, -, hl⟩ := hl
  have hheader := readHeader_ok hm
  have hleast := hheader.least
  have hordered := hheader.ordered
  cases found with
  | none => cases hl
  | some signature =>
    obtain ⟨_, hends, hl⟩ := bind_ok.mp hl
    obtain ⟨superBlob, hsuper, hl⟩ := bind_ok.mp hl
    obtain ⟨directory, hdirectory, hl⟩ := bind_ok.mp hl
    cases hl
    have hends' := refuseIf_ok.mp hends
    exact ⟨rfl, rfl, by dsimp only; omega, by dsimp only; omega, hheader.cputype,
      hheader.cpusubtype, readSuperBlob_ok hsuper, bestDirectory_ok hdirectory⟩

namespace Layout.Stands

variable {l : Layout} {blob : Blob}

theorem mem_named (hblob : blob ∈ l.superBlob.blobs) : blob ∈ l.superBlob.named :=
  (mem_filter.mp hblob).1

theorem blob_within (hl : l.Stands bytes) (hblob : blob ∈ l.superBlob.named) :
    l.start + l.signature.offset + 12 + l.superBlob.count * 8 ≤ blob.start ∧
      blob.start + blob.length ≤ l.stop := by
  have hb := hl.superBlob.named blob hblob
  have hafter := hb.after
  have hwithin := hb.within
  have hroom := hl.superBlob.room
  have hends := hl.ends
  have hleast := hl.least
  omega

theorem signature_within (hl : l.Stands bytes) :
    l.start + l.signature.offset + l.signature.size = l.stop := by
  have hends := hl.ends
  have hleast := hl.least
  omega

theorem directory_least (hl : l.Stands bytes) : cdFixedHeader ≤ l.directory.length :=
  hl.directory.loads.least

theorem directory_within (hl : l.Stands bytes) :
    l.directory.start + l.directory.length ≤ l.stop :=
  (hl.blob_within (mem_named hl.directory.named)).2

theorem component_within (hl : l.Stands bytes) (hblob : blob ∈ l.components) :
    blob.isComponent = true ∧ blob.start + blob.length ≤ l.stop :=
  have hmem := mem_filter.mp hblob
  ⟨hmem.2, (hl.blob_within (mem_named hmem.1)).2⟩

end Layout.Stands

theorem inside_readLayout {stop : Nat} (hstop : stop ≤ bytes.length) :
    Inside (readLayout bytes start stop) := by
  refine (inside_readHeader hstop).bind fun m hm => ?_
  have hheader := readHeader_ok hm
  have hleast := hheader.least
  have hordered := hheader.ordered
  have hroom := hheader.room
  refine (inside_readCommands (by omega) _ _ _).bind fun found _ => ?_
  cases found with
  | none => rintro ⟨⟩
  | some signature =>
    refine Inside.unless fun hends => (inside_readSuperBlob (by omega)).bind fun s hs => ?_
    refine (inside_bestDirectory fun blob hblob => ?_).bind fun _ _ => inside_ok _
    have hs' := readSuperBlob_ok hs
    have hsroom := hs'.room
    have hwithin := (hs'.named blob (mem_filter.mp hblob).1).within
    omega

theorem inside_readImage {stop : Nat} (hstop : stop ≤ bytes.length) :
    Inside (readImage h bytes start stop) := by
  refine (inside_readLayout hstop).bind fun l hread => ?_
  obtain ⟨rfl, rfl, hl⟩ := readLayout_ok hread
  have hsignature := hl.signature_within
  have hdirectory := hl.directory_within
  refine (inside_verifyDirectory (by omega) hl.directory_least (by omega) fun c hc => ?_).bind
    fun _ _ => ?_
  · obtain ⟨hcomponent, hin⟩ := hl.component_within hc
    exact ⟨hcomponent, by omega⟩
  · exact (inside_span (Nat.le_add_right _ _) (by omega)).bind fun _ _ => inside_ok _

end VibeField.Updates.CodeDirectory

import VibeField.Updates.Untouched

/-!
# A member signed again

The bytes of a CMS blob are read for its length alone.  A file whose CMS blobs were overwritten
where nothing else of it lies, and whose CMS blobs still end inside their super blobs, keeps its
line.
-/

namespace VibeField.Updates.CodeDirectory

open Reading View List

variable {h : Hash} {a b : List UInt8} {p : Nat}

/-! ## The index -/

/-- Blobs alike but for what the CMS blob's header says. -/
structure Alike (l l' : List Blob) : Prop where
  types : l.map Blob.type = l'.map Blob.type
  kept : l.filter (fun blob => blob.type ≠ csslotSignatureslot) =
    l'.filter fun blob => blob.type ≠ csslotSignatureslot

theorem Alike.append {l l' : List Blob} {blob blob' : Blob} (hl : Alike l l')
    (htype : blob.type = blob'.type)
    (hkept : blob.type ≠ csslotSignatureslot → blob = blob') :
    Alike (l ++ [blob]) (l' ++ [blob']) := by
  refine ⟨by rw [map_append, map_append, hl.types, map_singleton,
    map_singleton, htype], ?_⟩
  rw [filter_append, filter_append, hl.kept]
  by_cases hcms : blob.type = csslotSignatureslot
  · rw [filter_singleton, filter_singleton, ← htype]
    simp [hcms]
  · rw [hkept hcms]

/-- What a blob's header says in a file: enough for the reader. -/
def Blob.Bounded (blob : Blob) (b : List UInt8) (last : Nat) : Prop :=
  ∃ n, uint32 b (blob.start + 4) = (.ok n : Reading String Nat) ∧ 8 ≤ n ∧ blob.start + n ≤ last

theorem readBlob_carry {length count i : Nat} {blobs blobs' : List Blob} {blob : Blob}
    (hi : i < count) (hread : readBlob a p length count blobs i = .ok blob)
    (hlen : b.length = a.length) (hin : p + length ≤ a.length)
    (hindex : Same a p b p (12 + count * 8)) (hblobs : Alike blobs blobs')
    (hkept : blob.type ≠ csslotSignatureslot → Same a blob.start b blob.start 8)
    (hcms : blob.type = csslotSignatureslot → blob.Bounded b (p + length)) :
    ∃ blob', readBlob b p length count blobs' i = .ok blob' ∧ blob.type = blob'.type ∧
      (blob.type ≠ csslotSignatureslot → blob = blob') := by
  simp only [readBlob, bind_ok, refuseIf_ok] at hread ⊢
  obtain ⟨type, htype, offset, hoffset, -, hnew, -, hout, magic, hmagic, blobLength, hblobLength,
    -, hpast, hread⟩ := hread
  cases hread
  rw [hindex.uint32 (Nat.add_assoc p 12 _) (Nat.add_assoc p 12 _) (by omega)] at htype
  rw [hindex.uint32 (Nat.add_assoc p 16 _) (Nat.add_assoc p 16 _) (by omega)] at hoffset
  rw [hblobs.types] at hnew
  by_cases hsig : type = csslotSignatureslot
  · obtain ⟨n, hn, hleast, hlast⟩ := hcms hsig
    obtain ⟨magic', hmagic'⟩ : ∃ n, uint32 b (p + offset) = (.ok n : Reading String Nat) :=
      exists_uint32 (by omega)
    dsimp only at hn hlast
    exact ⟨{ type, magic := magic', start := p + offset, length := n },
      ⟨type, htype, offset, hoffset, (), hnew, (), hout, magic', hmagic', n, hn, (), by omega, rfl⟩,
      rfl, fun hne => absurd hsig hne⟩
  · have hsame : Same a (p + offset) b (p + offset) 8 := hkept hsig
    rw [hsame.first_uint32 (by omega)] at hmagic
    rw [hsame.uint32 (k := 4) rfl rfl (by omega)] at hblobLength
    exact ⟨_, ⟨type, htype, offset, hoffset, (), hnew, (), hout, magic, hmagic, blobLength,
      hblobLength, (), hpast, rfl⟩, rfl, fun _ => rfl⟩

theorem index_carry {length count : Nat} (hlen : b.length = a.length)
    (hin : p + length ≤ a.length) (hindex : Same a p b p (12 + count * 8)) (l : List Nat) :
    ∀ {blobs blobs' named : List Blob}, (∀ i ∈ l, i < count) → Alike blobs blobs' →
      l.foldlM (fun blobs i => do
        let blob ← readBlob a p length count blobs i
        return blobs ++ [blob]) blobs = (.ok named : Reading String _) →
      (∀ blob ∈ named, blob.type ≠ csslotSignatureslot → Same a blob.start b blob.start 8) →
      (∀ blob ∈ named, blob.type = csslotSignatureslot → blob.Bounded b (p + length)) →
      ∃ named', l.foldlM (fun blobs i => do
        let blob ← readBlob b p length count blobs i
        return blobs ++ [blob]) blobs' = (.ok named' : Reading String _) ∧
        Alike named named' ∧ ∀ blob ∈ blobs, blob ∈ named := by
  induction l with
  | nil =>
    intro blobs blobs' named _ hblobs hfold _ _
    cases hfold
    exact ⟨blobs', rfl, hblobs, fun _ hb => hb⟩
  | cons i l ih =>
    intro blobs blobs' named hl hblobs hfold hkept hcms
    rw [foldlM_cons, bind_ok] at hfold
    obtain ⟨blobs₁, hstep, hfold⟩ := hfold
    obtain ⟨blob, hblob, hstep⟩ := bind_ok.mp hstep
    cases hstep
    -- the blob stays in the list, so what holds of the whole index holds of it
    have hmem : blob ∈ named := by
      have hpersist := foldlM_ok (P := fun l : List Blob => blob ∈ l)
        (fun l hb i _ l' hl' => by
          obtain ⟨x, -, hl'⟩ := bind_ok.mp hl'
          cases hl'
          exact mem_append_left _ hb) (mem_append_right _ (mem_singleton_self _))
        hfold
      exact hpersist
    obtain ⟨blob', hblob', htype, heq⟩ := readBlob_carry (hl i mem_cons_self) hblob hlen hin
      hindex hblobs (hkept blob hmem) (hcms blob hmem)
    obtain ⟨named', hfold', halike, hall⟩ := ih (fun j hj => hl j (mem_cons_of_mem i hj))
      (hblobs.append htype heq) hfold hkept hcms
    refine ⟨named', ?_, halike, fun x hx => hall x (mem_append_left _ hx)⟩
    rw [foldlM_cons, bind_ok]
    exact ⟨_, bind_ok.mpr ⟨blob', hblob', rfl⟩, hfold'⟩

theorem readSuperBlob_carry {room : Nat} {s : SuperBlob} (hread : readSuperBlob a p room = .ok s)
    (hlen : b.length = a.length) (hin : p + room ≤ a.length)
    (hindex : Same a p b p (12 + s.count * 8))
    (hkept : ∀ blob ∈ s.blobs, Same a blob.start b blob.start 8)
    (hcms : ∀ blob ∈ s.named, blob.type = csslotSignatureslot → blob.Bounded b (p + s.length)) :
    ∃ s', readSuperBlob b p room = .ok s' ∧ s'.blobs = s.blobs := by
  have hstands := readSuperBlob_ok hread
  have hsroom := hstands.room
  simp only [readSuperBlob, bind_ok, refuseIf_ok] at hread ⊢
  obtain ⟨-, hshort, magic, hmagic, -, hembedded, length, hlength, count, hcount, -, hpast, -,
    hfits, named, hnamed, hread⟩ := hread
  cases hread
  dsimp only at hindex hcms hsroom
  rw [hindex.first_uint32 (by omega)] at hmagic
  rw [hindex.uint32 (k := 4) rfl rfl (by omega)] at hlength
  rw [hindex.uint32 (k := 8) rfl rfl (by omega)] at hcount
  obtain ⟨named', hnamed', halike, -⟩ := index_carry hlen (by omega) hindex (List.range count)
    (fun i hi => mem_range.mp hi) ⟨rfl, rfl⟩ hnamed
    (fun blob hb hne => hkept blob (mem_filter.mpr ⟨hb, by simpa using hne⟩)) hcms
  exact ⟨{ length, count, named := named' }, ⟨(), hshort, magic, hmagic, (), hembedded, length,
    hlength, count, hcount, (), hpast, (), hfits, named', hnamed', rfl⟩, halike.kept.symm⟩

/-! ## The code directory -/

theorem verifySlot_same {algorithm : Algorithm} {size p q q' : Nat} {why : String}
    (hslot : Same a p b p size) (hdata : Same a q b q (q' - q)) (hq : q ≤ q') :
    verifySlot h a algorithm size p q q' why = verifySlot h b algorithm size p q q' why := by
  have hslot' : (span a p (p + size) : Reading String _) = span b p (p + size) :=
    hslot.span (k := 0) rfl rfl rfl rfl (by omega)
  have hdata' : (span a q q' : Reading String _) = span b q q' :=
    hdata.span (k := 0) rfl rfl (m := q' - q) (by omega) (by omega) (by omega)
  rw [verifySlot, verifySlot, hslot', hdata']

theorem sub_same {p q n m : Nat} (hs : Same a p b p n) (hpq : p ≤ q) (hm : q + m ≤ p + n) :
    Same a q b q m := by
  have hleft := hs.left
  have hright := hs.right
  refine ⟨by omega, by omega, fun k hk => ?_⟩
  have hbyte := hs.bytes (q - p + k) (by omega)
  have hplace : p + (q - p + k) = q + k := by omega
  rwa [hplace] at hbyte

theorem verifyDirectory_carry {start limit t : Nat} {directory : Blob} {components : List Blob}
    (hv : verifyDirectory h a start limit directory components = .ok t)
    (hcode : Same a start b start limit)
    (hdirectory : Same a directory.start b directory.start directory.length)
    (hleast : cdFixedHeader ≤ directory.length)
    (hcomponents : ∀ c ∈ components, 1 ≤ c.type ∧ Same a c.start b c.start c.length) :
    verifyDirectory h b start limit directory components = .ok t := by
  simp only [verifyDirectory, bind_ok, refuseIf_ok, forM_ok] at hv ⊢
  obtain ⟨f, hf, _, hversion, algorithm, halg, _, hscatter, limit', hlimit, _, hreach, _, hbits, _,
    hcount, _, hspecial, _, hslots, _, hpages, _, hall, ht⟩ := hv
  rw [readFields_same hdirectory hleast] at hf
  rw [readScatter_same hdirectory rfl] at hscatter
  rw [readCodeLimit_same hdirectory rfl] at hlimit
  have hlim : limit' = limit := by simpa using hreach
  subst hlim
  refine ⟨f, hf, (), hversion, algorithm, halg, (), hscatter, limit', hlimit, (), hreach, (), hbits,
    (), hcount, (), hspecial, (), hslots, (), fun page hpage => ?_, (), fun c hc => ?_, ht⟩
  · have hpage' := mem_range.mp hpage
    have hslot := slot_le f.hashSize hpage'
    have hn : f.nCodeSlots = sliceCount limit' (pageSize limit' f.pageBits) := by
      simpa using hcount
    have hstart := mul_lt_of_lt_sliceCount (pageSize_pos limit' f.pageBits) (hn ▸ hpage')
    have hin := page_inside start hstart
    rw [← hpages page hpage, verifyPage, verifyPage]
    exact (verifySlot_same (sub_same hdirectory (by omega) (by omega))
      (sub_same hcode (by omega) (by omega)) hin).symm
  · obtain ⟨hpos, hsame⟩ := hcomponents c hc
    have hc' := hall c hc
    rw [verifyComponent, bind_ok] at hc' ⊢
    obtain ⟨_, htype, hslot⟩ := hc'
    have hbound := Nat.le_of_not_lt (refuseIf_ok.mp htype)
    have hmul := Nat.mul_le_mul_right f.hashSize hbound
    have hone := Nat.mul_le_mul_right f.hashSize hpos
    refine ⟨_, htype, hslot ▸ (verifySlot_same (sub_same hdirectory (by omega) (by omega)) ?_
      (Nat.le_add_right _ _)).symm⟩
    rwa [Nat.add_sub_cancel_left]

/-! ## Overwritten CMS blobs -/

def Layout.InCms (l : Layout) (i : Nat) : Prop :=
  ∃ blob ∈ l.superBlob.named, blob.type = csslotSignatureslot ∧ blob.Holds i

/-- Of one file another was made by overwriting bytes of CMS blobs alone.  Each changed byte is in
no other part of an image that has it, and each CMS blob still ends in its super blob. -/
structure Resigned (a b : List UInt8) : Prop where
  length : b.length = a.length
  inCms : ∀ i, b[i]? ≠ a[i]? → ∃ l ∈ layouts a, l.InCms i
  apart : ∀ i, b[i]? ≠ a[i]? → ∀ l ∈ layouts a, l.start ≤ i → i < l.stop →
    l.InCms i ∧ ∀ blob ∈ l.superBlob.blobs, ¬blob.Holds i
  bounded : ∀ l ∈ layouts a, ∀ blob ∈ l.superBlob.named, blob.type = csslotSignatureslot →
    blob.Bounded b (l.start + l.signature.offset + l.superBlob.length)

theorem Layout.InCms.after {l : Layout} {i : Nat} (hcms : l.InCms i) (hl : l.Stands a) :
    l.start + l.signature.offset + 12 + l.superBlob.count * 8 ≤ i := by
  obtain ⟨blob, hblob, -, hholds⟩ := hcms
  exact Nat.le_trans (hl.blob_within hblob).1 hholds.1

theorem stands_of_mem {l : Layout} (hl : l ∈ layouts a) : l.Stands a := by
  rw [layouts] at hl
  split at hl
  · rename_i universal ls hread
    obtain ⟨places, -, hls⟩ := readImages_ok.mp hread
    obtain ⟨place, -, hlayout⟩ := mem_of_forall₂ hls hl
    exact (readLayout_ok hlayout).2.2
  · cases hl

namespace Resigned

variable {l : Layout}

theorem same_code (hr : Resigned a b) (hl : l ∈ layouts a) (hstands : l.Stands a)
    (hin : l.stop ≤ a.length) :
    Same a l.start b l.start (l.signature.offset + (12 + l.superBlob.count * 8)) := by
  have hsignature := hstands.signature_within
  have hindex := hstands.superBlob.index
  have hroom := hstands.superBlob.room
  refine .of_unchanged hr.length (by omega) fun i hi hi' => ?_
  by_contra hne
  have hafter := (hr.apart i hne l hl hi (by omega)).1.after hstands
  omega

theorem same_blob (hr : Resigned a b) (hl : l ∈ layouts a) (hstands : l.Stands a)
    (hin : l.stop ≤ a.length) {blob : Blob} (hblob : blob ∈ l.superBlob.blobs) :
    Same a blob.start b blob.start blob.length := by
  have hwithin := hstands.blob_within (Layout.Stands.mem_named hblob)
  refine .of_unchanged hr.length (by omega) fun i hi hi' => ?_
  by_contra hne
  exact (hr.apart i hne l hl (by omega) (by omega)).2 blob hblob ⟨hi, hi'⟩

theorem readLayout (hr : Resigned a b) (hl : l ∈ layouts a) (hin : l.stop ≤ a.length)
    (hread : readLayout a l.start l.stop = .ok l) :
    ∃ s, CodeDirectory.readLayout b l.start l.stop = .ok { l with superBlob := s } ∧
      s.blobs = l.superBlob.blobs := by
  obtain ⟨-, -, hstands⟩ := readLayout_ok hread
  have hcode := hr.same_code hl hstands hin
  have hsignature := hstands.signature_within
  have hleast := hstands.least
  have hindex : Same a (l.start + l.signature.offset) b (l.start + l.signature.offset)
      (12 + l.superBlob.count * 8) := sub_same hcode (by omega) (by omega)
  simp only [CodeDirectory.readLayout, bind_ok] at hread ⊢
  obtain ⟨m, hm, found, hfound, hread⟩ := hread
  have hheader := readHeader_ok hm
  cases found with
  | none => cases hread
  | some signature =>
    obtain ⟨_, hends, hread⟩ := bind_ok.mp hread
    obtain ⟨superBlob, hsuper, hread⟩ := bind_ok.mp hread
    obtain ⟨directory, hdirectory, hread⟩ := bind_ok.mp hread
    have heq := Except.ok.inj hread
    obtain rfl : signature = l.signature := by rw [← heq]
    obtain rfl : superBlob = l.superBlob := by rw [← heq]
    obtain rfl : directory = l.directory := by rw [← heq]
    have hends' := refuseIf_ok.mp hends
    rw [readHeader_same (n := l.signature.offset) (by omega)
      (sub_same hcode (Nat.le_refl _) (by omega))] at hm
    rw [readCommands_same (sub_same hcode (Nat.le_refl _) (by omega))] at hfound
    obtain ⟨s, hs, hblobs⟩ := readSuperBlob_carry hsuper hr.length (by omega) hindex
      (fun blob hb => sub_same (hr.same_blob hl hstands hin hb) (Nat.le_refl _)
        (Nat.add_le_add_left (hstands.superBlob.named blob
          (Layout.Stands.mem_named hb)).least _)) (hr.bounded _ hl)
    rw [bestDirectory_same fun blob hb => hr.same_blob hl hstands hin hb, ← hblobs] at hdirectory
    refine ⟨s, ⟨m, hm, some l.signature, hfound, ?_⟩, hblobs⟩
    refine bind_ok.mpr ⟨(), hends, bind_ok.mpr ⟨s, hs, bind_ok.mpr ⟨l.directory, hdirectory, ?_⟩⟩⟩
    rw [← heq]
    rfl

theorem readImage (hr : Resigned a b) {s : Slice} (hl : l ∈ layouts a) (hin : l.stop ≤ a.length)
    (hread : CodeDirectory.readLayout a l.start l.stop = .ok l)
    (hs : CodeDirectory.readImage h a l.start l.stop = .ok s) :
    CodeDirectory.readImage h b l.start l.stop = .ok s := by
  obtain ⟨-, -, hstands⟩ := readLayout_ok hread
  obtain ⟨superBlob, hlayout, hblobs⟩ := hr.readLayout hl hin hread
  have hcode := hr.same_code hl hstands hin
  have hdirectory := hr.same_blob hl hstands hin hstands.directory.named
  simp only [CodeDirectory.readImage, bind_ok] at hs ⊢
  obtain ⟨l', hl', t, ht, data, hdata, hs⟩ := hs
  rw [hread] at hl'
  cases hl'
  have hcomponents : Layout.components { l with superBlob } = l.components := by
    rw [Layout.components, hblobs, Layout.components]
  have hbefore : Same a l.start b l.start l.signature.offset :=
    sub_same hcode (Nat.le_refl _) (by omega)
  have hspan : (span a l.directory.start (l.directory.start + l.directory.length) :
      Reading String _) = span b l.directory.start (l.directory.start + l.directory.length) :=
    hdirectory.span (k := 0) rfl rfl rfl rfl (by omega)
  refine ⟨_, hlayout, t, ?_, data, hspan ▸ hdata, hs⟩
  rw [hcomponents]
  refine verifyDirectory_carry ht hbefore hdirectory hstands.directory_least
    fun c hc => ⟨component_pos hc, ?_⟩
  exact hr.same_blob hl hstands hin (mem_filter.mp hc).1

theorem same_first (hr : Resigned a b) (hstands : ∀ l ∈ layouts a, l.Stands a) {n : Nat}
    (hn : n ≤ a.length) (hlow : n ≤ 28 ∨ ∀ l ∈ layouts a, n ≤ l.start) : Same a 0 b 0 n := by
  refine .of_unchanged hr.length (by omega) fun i _ hi => ?_
  by_contra hne
  obtain ⟨l, hl, hcms⟩ := hr.inCms i hne
  have hafter := hcms.after (hstands l hl)
  have hleast := (hstands l hl).least
  rcases hlow with hlow | hlow
  · omega
  · have hstart := hlow l hl
    omega

theorem table (hr : Resigned a b) (hstands : ∀ l ∈ layouts a, l.Stands a) {universal : Bool}
    {places : List (Nat × Nat)} (ht : Table a universal places)
    (hplaces : List.Forall₂ (fun place l => CodeDirectory.readLayout a place.1 place.2 = .ok l)
      places (layouts a)) : Table b universal places := by
  have hfat : ∀ {least p : Nat}, least ≤ 28 → p + 4 ≤ least →
      readFat a least p = readFat b least p := by
    intro least p hlow hp
    rw [readFat, readFat, hr.length]
    split
    · rename_i hlength
      exact (hr.same_first hstands hlength (.inl hlow)).uint32 (Nat.zero_add p).symm
        (Nat.zero_add p).symm hp
    · rfl
  cases ht with
  | thin hread hthin =>
    rw [hfat (by omega) (by omega)] at hread
    rw [← hr.length]
    exact .thin hread hthin
  | universal hread hfat' hcount hbound hspans =>
    rename_i fat count
    rw [hfat (by omega) (by omega)] at hread hcount
    have hbound' := hbound
    rw [← hr.length] at hbound'
    refine .universal hread hfat' hcount hbound' ?_
    -- every image begins past the table, so the table is as it was
    have hlow : ∀ l ∈ layouts a, fatTable fat count ≤ l.start := by
      intro l hl
      obtain ⟨place, hplace, hlayout⟩ := mem_of_forall₂ hplaces hl
      obtain ⟨i, -, hi⟩ := mem_of_forall₂ hspans hplace
      rw [(readLayout_ok hlayout).1]
      exact (readSpan_ok hi).1
    have hsame := hr.same_first hstands (n := fatTable fat count) (by omega) (.inr hlow)
    have hin := (forall₂_and_left _ _).mpr ⟨fun i hi => mem_range.mp hi, hspans⟩
    refine hin.imp fun i place hplace => ?_
    obtain ⟨hi, hspan⟩ := hplace
    obtain ⟨hsize, hoffset⟩ := entry_within fat hi
    have hfield : ∀ {p : Nat}, p + (if fat = fatMagic64 then 8 else 4) ≤ fatTable fat count →
        readField a fat p = readField b fat p := by
      intro p hp
      rw [readField, readField]
      split
      · rename_i hwide
        rw [if_pos hwide] at hp
        exact hsame.uint64 (Nat.zero_add p).symm (Nat.zero_add p).symm hp
      · rename_i hwide
        rw [if_neg hwide] at hp
        exact hsame.uint32 (Nat.zero_add p).symm (Nat.zero_add p).symm hp
    rw [← hspan, readSpan, readSpan, hfield hoffset, hfield hsize, hr.length]

theorem readCodeSignature (hr : Resigned a b) {universal : Bool} {slices : List Slice}
    (hs : CodeDirectory.readCodeSignature h a = .signed universal slices) :
    CodeDirectory.readCodeSignature h b = .signed universal slices := by
  obtain ⟨places, htable, himages, hlayouts, hof⟩ := signed_ok hs
  have hstands : ∀ l ∈ layouts a, l.Stands a := by
    intro l hl
    obtain ⟨place, -, hread⟩ := mem_of_forall₂ hlayouts hl
    exact (readLayout_ok hread).2.2
  have himages' : List.Forall₂ (fun place s =>
      CodeDirectory.readImage h b place.1 place.2 = .ok s) places slices := by
    have hmem := (forall₂_and_left _ _).mpr ⟨fun place hp => hp, himages⟩
    refine hmem.imp fun place s ⟨hplace, hread⟩ => ?_
    obtain ⟨l, hl, hlayout⟩ := mem_of_forall₂ hlayouts.flip hplace
    have hlayout : CodeDirectory.readLayout a place.1 place.2 = .ok l := hlayout
    obtain ⟨hstart, hstop, -⟩ := readLayout_ok hlayout
    rw [← hstart, ← hstop] at hlayout hread ⊢
    exact hr.readImage hl (by rw [hstop]; exact htable.inside hplace) hlayout hread
  have hread := readImages_ok.mpr ⟨places, hr.table hstands htable hlayouts, himages'⟩
  rw [CodeDirectory.readCodeSignature, hread]

end Resigned

/-! ## Untouched -/

/-- Members of one line are the same bytes or the same code, of the code directories the kernel
enforces; the reader stays inside the file; and a member signed again keeps its line. -/
theorem untouched (h : Hash) (path : List Char) :
    (∀ a b, Injective h (hashed h a ++ hashed h b) →
      memberLine h path a = memberLine h path b → a = b ∨ SameSlices h a b) ∧
    (∀ a, ∀ l ∈ layouts a, Enforced a l.superBlob.blobs l.directory) ∧
    (∀ a, Inside (readImages (readImage h a) a)) ∧
    ∀ a b universal slices, readCodeSignature h a = .signed universal slices → Resigned a b →
      memberLine h path b = memberLine h path a := by
  refine ⟨fun a b hinj heq => sameSlices_of_line hinj heq, fun a l hl => ?_, fun a => ?_,
    fun a b universal slices hs hr => ?_⟩
  · exact (stands_of_mem hl).directory
  · exact inside_readImages fun p q hq => inside_readImage hq
  · rw [memberLine, memberLine, memberDigest, memberDigest, hr.readCodeSignature hs, hs]
    cases universal <;> cases slices <;> rfl

def digestBytes (n : Nat) : List UInt8 :=
  (List.range 32).map fun i => UInt8.ofNat (n / 256 ^ (31 - i))

def sampleCode : List UInt8 :=
  [206, 250, 237, 254, 7, 0, 0, 0, 3, 0, 0, 0, 2, 0, 0, 0, 1, 0, 0, 0, 16, 0, 0, 0, 0, 0, 0,
    0, 29, 0, 0, 0, 16, 0, 0, 0, 44, 0, 0, 0, 116, 0, 0, 0]

def samplePage : List UInt8 :=
  digestBytes 0xf3ebdb6134a8dc9fdc2ca126511b2b96c48d343a25cf69fc50537b7917bcd0d2

def sampleDirectory : List UInt8 :=
  [250, 222, 12, 2, 0, 0, 0, 76, 0, 2, 0, 1, 0, 0, 0, 0, 0, 0, 0, 44, 0, 0, 0, 0, 0, 0, 0, 0,
    0, 0, 0, 1, 0, 0, 0, 44, 32, 2, 0, 0, 0, 0, 0, 0] ++ samplePage

def sampleFile : List UInt8 :=
  sampleCode ++
    [250, 222, 12, 192, 0, 0, 0, 116, 0, 0, 0, 2, 0, 0, 0, 0, 0, 0, 0, 36, 0, 1, 0, 0, 0, 0, 0,
    28] ++
    [250, 222, 11, 1, 0, 0, 0, 88] ++ sampleDirectory ++ [1, 2, 3, 4]

def sampleHash : Hash := fun algorithm data =>
  if algorithm = .sha256 then
    if data = sampleCode then samplePage
    else if data = sampleDirectory then
      digestBytes 0x2dc9b42b334a480d867cfa89936fa16c303cbd0f666297ca62e5b8d18510c303
    else if data = sampleFile.set 79 0 then
      digestBytes 0x5f5e2acc4b51d156890fe9da302118cc55527db1d9c8c777212c7ffa202b1485
    else digestBytes 0x42c84643e05268b8ca458ca28f557a96e114363ead7a780f5c4da379a7bd2fa0
  else []

theorem changed_at {l : List UInt8} {i k : Nat} {x : UInt8} (hi : (l.set k x)[i]? ≠ l[i]?) :
    i = k := by
  by_contra hne
  exact hi (List.getElem?_set_ne (Ne.symm hne))

instance (blob : Blob) (i : Nat) : Decidable (blob.Holds i) :=
  inferInstanceAs (Decidable (blob.start ≤ i ∧ i < blob.start + blob.length))

instance (l : Layout) (i : Nat) : Decidable (l.InCms i) :=
  inferInstanceAs (Decidable (∃ blob ∈ l.superBlob.named,
    blob.type = csslotSignatureslot ∧ blob.Holds i))

set_option maxRecDepth 20000 in
theorem sample_resigned : Resigned sampleFile (sampleFile.set 159 0) where
  length := length_set
  inCms i hi := by
    rw [changed_at hi]
    decide
  apart i hi := by
    rw [changed_at hi]
    decide
  bounded := by
    have hbound : ∀ l ∈ layouts sampleFile, ∀ blob ∈ l.superBlob.named,
        blob.type = csslotSignatureslot →
        blob.start = 72 ∧ l.start + l.signature.offset + l.superBlob.length = 160 := by
      decide
    intro l hl blob hblob htype
    obtain ⟨hstart, hlast⟩ := hbound l hl blob hblob htype
    rw [Blob.Bounded, hstart, hlast]
    exact ⟨88, rfl, by decide, by decide⟩

set_option maxRecDepth 20000 in
theorem untouched_sample :
    memberLine sampleHash [] (sampleFile.set 159 0) = memberLine sampleHash [] sampleFile ∧
      (sampleFile = sampleFile.set 159 0 ∨
        SameSlices sampleHash sampleFile (sampleFile.set 159 0)) := by
  have hsigned : ∃ slices, readCodeSignature sampleHash sampleFile = .signed false slices :=
    ⟨_, rfl⟩
  obtain ⟨slices, hslices⟩ := hsigned
  have hline := (untouched sampleHash []).2.2.2 _ _ _ _ hslices sample_resigned
  exact ⟨hline, (untouched sampleHash []).1 _ _ (by unfold Injective; decide) hline.symm⟩

set_option maxRecDepth 20000 in
/-- Of a signed file, overwritten in its CMS blob alone, the line does change: where the blob's
length is no longer one, and where the code directory lies in the blob. -/
theorem cms_touched :
    (∃ slices, readCodeSignature sampleHash sampleFile = .signed false slices) ∧
    (∀ i, (sampleFile.set 79 0)[i]? ≠ sampleFile[i]? → ∃ l ∈ layouts sampleFile, l.InCms i) ∧
    memberLine sampleHash [] (sampleFile.set 79 0) ≠ memberLine sampleHash [] sampleFile ∧
    (∀ i, (sampleFile.set 124 244)[i]? ≠ sampleFile[i]? → ∃ l ∈ layouts sampleFile, l.InCms i) ∧
    memberLine sampleHash [] (sampleFile.set 124 244) ≠ memberLine sampleHash [] sampleFile := by
  refine ⟨⟨_, rfl⟩, fun i hi => ?_, by decide, fun i hi => ?_, by decide⟩
  · rw [changed_at hi]
    decide
  · rw [changed_at hi]
    decide

end VibeField.Updates.CodeDirectory

import VibeField.Updates.CodeDirectory

/-!
# What the reader of code directories looks at

Each part of the reader stays inside the file, says what holds where it does not refuse, and reads
two files alike that have the same bytes where it looks.
-/

namespace VibeField.Updates.CodeDirectory

open Reading View List

variable {h : Hash} {a b bytes : List UInt8} {start stop p : Nat}

/-! ## The load commands -/

/-- The header is part of what its load commands end. -/
structure MachHeader.Holds (m : MachHeader) (bytes : List UInt8) (start stop : Nat) : Prop where
  least : 28 ≤ m.header
  ordered : m.header ≤ m.commandsEnd
  room : m.commandsEnd ≤ stop - start
  cputype : uint32LE bytes (start + 4) = (.ok m.cputype : Reading String Nat)
  cpusubtype : uint32LE bytes (start + 8) = (.ok m.cpusubtype : Reading String Nat)

theorem readHeader_ok {m : MachHeader} (hm : readHeader bytes start stop = .ok m) :
    m.Holds bytes start stop := by
  simp only [readHeader, bind_ok, refuseIf_ok] at hm
  obtain ⟨-, hsize, magic, -, -, -, -, -, -, hheader, cputype, hcpu, cpusubtype, hsub, ncmds, -,
    sizeofcmds, -, -, hroom, h⟩ := hm
  cases h
  refine ⟨?_, Nat.le_add_right _ _, Nat.le_of_not_lt hroom, hcpu, hsub⟩
  dsimp only
  split <;> omega

theorem inside_readHeader (hstop : stop ≤ bytes.length) :
    Inside (readHeader bytes start stop) := by
  refine Inside.unless fun hsize => (inside_uint32LE (by omega)).bind fun magic _ => ?_
  refine Inside.unless fun _ => Inside.unless fun _ => Inside.unless fun hheader => ?_
  have hleast : 28 ≤ stop - start := by
    revert hheader
    split <;> omega
  refine (inside_uint32LE (by omega)).bind fun _ _ => ?_
  refine (inside_uint32LE (by omega)).bind fun _ _ => ?_
  refine (inside_uint32LE (by omega)).bind fun _ _ => ?_
  refine (inside_uint32LE (by omega)).bind fun _ _ => ?_
  exact Inside.unless fun _ => inside_ok _

theorem readHeader_same {n : Nat} (hn : 28 ≤ n) (hs : Same a start b start n) :
    readHeader a start stop = readHeader b start stop := by
  have hmagic : (uint32LE a start : Reading String Nat) = uint32LE b start :=
    hs.uint32LE (k := 0) rfl rfl (by omega)
  rw [readHeader, readHeader, hmagic,
    hs.uint32LE (k := 4) rfl rfl (by omega), hs.uint32LE (k := 8) rfl rfl (by omega),
    hs.uint32LE (k := 16) rfl rfl (by omega), hs.uint32LE (k := 20) rfl rfl (by omega)]

theorem inside_readSignature {cmd cmdsize : Nat} {signature : Option Signature}
    (hroom : start + p + cmdsize ≤ bytes.length) :
    Inside (readSignature bytes start p cmd cmdsize signature) := by
  rw [readSignature]
  split
  · refine Inside.unless fun _ => Inside.unless fun _ => ?_
    refine (inside_uint32LE (by omega)).bind fun _ _ => ?_
    exact (inside_uint32LE (by omega)).bind fun _ _ => inside_ok _
  · exact inside_ok _

theorem readSignature_same {cmd cmdsize n : Nat} {signature : Option Signature}
    (hs : Same a start b start n) (hroom : p + cmdsize ≤ n) :
    readSignature a start p cmd cmdsize signature =
      readSignature b start p cmd cmdsize signature := by
  rw [readSignature, readSignature]
  split
  · by_cases hsize : cmdsize < 16
    · rw [refuseIf, refuseIf, if_pos hsize]
      rfl
    · rw [hs.uint32LE (Nat.add_assoc start p 8) (Nat.add_assoc start p 8) (by omega),
        hs.uint32LE (Nat.add_assoc start p 12) (Nat.add_assoc start p 12) (by omega)]
  · rfl

theorem inside_readCommands {commandsEnd : Nat} (hend : start + commandsEnd ≤ bytes.length)
    (n : Nat) (p : Nat) (signature : Option Signature) :
    Inside (readCommands bytes start commandsEnd n p signature) := by
  induction n generalizing p signature with
  | zero => exact inside_ok _
  | succ n ih =>
    refine Inside.unless fun hp => (inside_uint32LE (by omega)).bind fun cmd _ => ?_
    refine (inside_uint32LE (by omega)).bind fun cmdsize _ => Inside.unless fun hsize => ?_
    exact (inside_readSignature (by omega)).bind fun _ _ => ih _ _

theorem readCommands_same {commandsEnd : Nat} (hs : Same a start b start commandsEnd) (n : Nat)
    (p : Nat) (signature : Option Signature) :
    readCommands a start commandsEnd n p signature =
      readCommands b start commandsEnd n p signature := by
  induction n generalizing p signature with
  | zero => rfl
  | succ n ih =>
    rw [readCommands, readCommands]
    by_cases hp : p + 8 > commandsEnd
    · rw [refuseIf, if_pos hp]
      rfl
    · rw [hs.uint32LE (k := p) rfl rfl (by omega),
        hs.uint32LE (Nat.add_assoc start p 4) (Nat.add_assoc start p 4) (by omega)]
      refine bind_congr fun _ => bind_congr fun cmd => bind_congr fun cmdsize => ?_
      by_cases hsize : cmdsize < 8 ∨ p + cmdsize > commandsEnd
      · rw [refuseIf, if_pos hsize]
        rfl
      · rw [readSignature_same hs (by omega)]
        exact bind_congr fun _ => bind_congr fun _ => ih _ _

/-! ## The signature's blobs -/

def Blob.Holds (blob : Blob) (i : Nat) : Prop := blob.start ≤ i ∧ i < blob.start + blob.length

/-- A blob as its header says it, within a super blob of some length at `p`. -/
structure Blob.Stands (blob : Blob) (bytes : List UInt8) (p length count : Nat) : Prop where
  after : p + 12 + count * 8 ≤ blob.start
  least : 8 ≤ blob.length
  within : blob.start + blob.length ≤ p + length
  magic : uint32 bytes blob.start = (.ok blob.magic : Reading String Nat)

variable {blobs : List Blob}

theorem readBlob_ok {length count i : Nat} {blob : Blob}
    (h : readBlob bytes p length count blobs i = .ok blob) :
    blob.Stands bytes p length count := by
  simp only [readBlob, bind_ok, refuseIf_ok] at h
  obtain ⟨type, -, offset, -, -, -, -, hoffset, magic, hmagic, blobLength, -, -, hlength, h⟩ := h
  cases h
  exact ⟨by dsimp only; omega, by dsimp only; omega, by dsimp only; omega, hmagic⟩

theorem inside_readBlob {length count i : Nat} (hi : i < count)
    (hindex : 12 + count * 8 ≤ length) (hroom : p + length ≤ bytes.length) :
    Inside (readBlob bytes p length count blobs i) := by
  refine (inside_uint32 (by omega)).bind fun _ _ => (inside_uint32 (by omega)).bind fun _ _ => ?_
  refine Inside.unless fun _ => Inside.unless fun hoffset => ?_
  refine (inside_uint32 (by omega)).bind fun _ _ => (inside_uint32 (by omega)).bind fun _ _ => ?_
  exact Inside.unless fun _ => inside_ok _

structure SuperBlob.Stands (s : SuperBlob) (bytes : List UInt8) (p room : Nat) : Prop where
  index : 12 + s.count * 8 ≤ s.length
  room : s.length ≤ room
  named : ∀ blob ∈ s.named, blob.Stands bytes p s.length s.count

theorem readSuperBlob_ok {room : Nat} {s : SuperBlob} (h : readSuperBlob bytes p room = .ok s) :
    s.Stands bytes p room := by
  simp only [readSuperBlob, bind_ok, refuseIf_ok] at h
  obtain ⟨-, -, magic, -, -, -, length, -, count, -, -, hlength, -, hindex, named, hnamed, h⟩ := h
  cases h
  refine ⟨by dsimp only; omega, by dsimp only; omega, ?_⟩
  refine foldlM_ok (P := fun blobs : List Blob => ∀ blob ∈ blobs, blob.Stands bytes p length count)
    (fun blobs hblobs i _ blobs' h' => ?_) (by simp) hnamed
  obtain ⟨blob, hblob, h'⟩ := bind_ok.mp h'
  cases h'
  exact forall_mem_append.mpr ⟨hblobs, forall_mem_singleton.mpr (readBlob_ok hblob)⟩

theorem inside_readSuperBlob {room : Nat} (hroom : p + room ≤ bytes.length) :
    Inside (readSuperBlob bytes p room) := by
  refine Inside.unless fun hleast => (inside_uint32 (by omega)).bind fun _ _ => ?_
  refine Inside.unless fun _ => (inside_uint32 (by omega)).bind fun length _ => ?_
  refine (inside_uint32 (by omega)).bind fun count _ => Inside.unless fun hlength => ?_
  refine Inside.unless fun hindex => Inside.bind ?_ fun _ _ => inside_ok _
  refine Inside.foldlM (P := fun _ => True) (fun blobs _ i hi => ?_)
    (fun _ _ _ _ _ _ => trivial) trivial
  exact (inside_readBlob (mem_range.mp hi) (by omega) (by omega)).bind fun _ _ => inside_ok _

/-! ## The code directory the kernel enforces -/

def kernelRank : Nat → Nat
  | 4 => 4
  | t => rank t

theorem readAlgorithm_ok {hashType hashSize : Nat} {algorithm : Algorithm}
    (h : readAlgorithm hashType hashSize = .ok algorithm) :
    hashTypes hashType = some (algorithm, hashSize) := by
  rw [readAlgorithm] at h
  split at h
  · rename_i algorithm' size htype
    split at h
    · rename_i hsize
      cases h
      rw [htype, hsize]
    · cases h
  · cases h

theorem inside_readAlgorithm (hashType hashSize : Nat) :
    Inside (readAlgorithm hashType hashSize) := by
  rw [readAlgorithm]
  split
  · split <;> rintro ⟨⟩
  · rintro ⟨⟩

def hashTypeOf (bytes : List UInt8) (directory : Blob) : Reading String Nat :=
  uint8 bytes (directory.start + 37)

/-- A code directory the kernel would load, and would not enforce over the SHA-256 one. -/
structure Blob.Loads (directory : Blob) (bytes : List UInt8) : Prop where
  magic : directory.magic = csmagicCodeDirectory
  least : cdFixedHeader ≤ directory.length
  ranked : ∃ t, hashTypeOf bytes directory = .ok t ∧ t ≠ csHashtypeSha384

/-- What the search for the best has come to, after some code directories. -/
structure Ranked.After (r : Ranked) (bytes : List UInt8) (directories : List Blob) : Prop where
  loads : ∀ d ∈ directories, d.Loads bytes
  best : ∀ d n, r.best = some (d, n) → d ∈ directories ∧
    ∃ t, hashTypeOf bytes d = .ok t ∧ t ≠ csHashtypeSha384 ∧ n = rank t
  top : ∀ d ∈ directories, ∀ t, hashTypeOf bytes d = .ok t →
    ∃ e n, r.best = some (e, n) ∧ rank t ≤ n

theorem Ranked.better_cases (r : Ranked) (directory : Blob) (n : Nat) :
    (r.better directory n = some (directory, n) ∧ ∀ e m, r.best = some (e, m) → m ≤ n) ∨
      ∃ e m, r.best = some (e, m) ∧ r.better directory n = some (e, m) ∧ n ≤ m := by
  rw [Ranked.better]
  split
  · rename_i hnone
    exact .inl ⟨rfl, fun e m h => by rw [hnone] at h; cases h⟩
  · rename_i best hbest
    obtain ⟨e, m⟩ := best
    split
    · rename_i hn
      refine .inl ⟨rfl, fun e' m' h => ?_⟩
      rw [hbest] at h
      cases h
      exact Nat.le_of_lt hn
    · rename_i hn
      exact .inr ⟨e, m, hbest, rfl, Nat.le_of_not_lt hn⟩

theorem Ranked.After.rankDirectory {r r' : Ranked} {directories : List Blob} {directory : Blob}
    (h : r.After bytes directories) (hr : rankDirectory bytes r directory = .ok r') :
    r'.After bytes (directories ++ [directory]) := by
  simp only [CodeDirectory.rankDirectory, bind_ok, refuseIf_ok] at hr
  obtain ⟨-, hmagic, -, hlength, t, ht, size, -, -, -, -, -, -, ht4, hr⟩ := hr
  cases hr
  have hloads : directory.Loads bytes := by
    refine ⟨?_, ?_, t, ht, ht4⟩
    · simpa using hmagic
    · omega
  refine ⟨?_, fun d n hd => ?_, fun d hd u hu => ?_⟩
  · simpa [or_imp, forall_and] using ⟨h.loads, hloads⟩
  · rcases r.better_cases directory (rank t) with ⟨hb, -⟩ | ⟨e, m, he, hb, -⟩
    · rw [hb] at hd
      cases hd
      exact ⟨by simp, t, ht, ht4, rfl⟩
    · rw [hb] at hd
      cases hd
      obtain ⟨hmem, hrest⟩ := h.best d n he
      exact ⟨mem_append_left _ hmem, hrest⟩
  · rcases r.better_cases directory (rank t) with ⟨hb, hle⟩ | ⟨e, m, he, hb, hle⟩
    · refine ⟨directory, rank t, hb, ?_⟩
      rcases mem_append.mp hd with hd | hd
      · obtain ⟨e, m, he, hm⟩ := h.top d hd u hu
        exact Nat.le_trans hm (hle e m he)
      · rw [mem_singleton.mp hd, hashTypeOf, ht] at hu
        cases hu
        exact Nat.le_refl _
    · refine ⟨e, m, hb, ?_⟩
      rcases mem_append.mp hd with hd | hd
      · obtain ⟨e', m', he', hm⟩ := h.top d hd u hu
        rw [he] at he'
        cases he'
        exact hm
      · rw [mem_singleton.mp hd, hashTypeOf, ht] at hu
        cases hu
        exact hle

theorem Ranked.After.foldlM {r r' : Ranked} {before directories : List Blob}
    (h : r.After bytes before)
    (hr : directories.foldlM (CodeDirectory.rankDirectory bytes) r = .ok r') :
    r'.After bytes (before ++ directories) := by
  induction directories generalizing r before with
  | nil =>
    cases hr
    rwa [append_nil]
  | cons d directories ih =>
    rw [foldlM_cons, bind_ok] at hr
    obtain ⟨r₁, hr₁, hr⟩ := hr
    have hrun := ih (h.rankDirectory hr₁) hr
    rwa [append_assoc] at hrun

/-- Of the code directories among some blobs, the one that the kernel ranks first. -/
structure Enforced (bytes : List UInt8) (blobs : List Blob) (directory : Blob) : Prop where
  named : directory ∈ blobs
  isDirectory : directory.isDirectory = true
  loads : directory.Loads bytes
  first : ∀ t, hashTypeOf bytes directory = .ok t → ∀ d ∈ blobs, d.isDirectory = true →
    ∀ u, hashTypeOf bytes d = .ok u → kernelRank u ≤ kernelRank t

theorem kernelRank_of_ne {t : Nat} (h : t ≠ csHashtypeSha384) : kernelRank t = rank t := by
  rw [kernelRank]
  rintro rfl
  exact h rfl

theorem bestDirectory_ok {directory : Blob}
    (h : bestDirectory bytes blobs = .ok directory) : Enforced bytes blobs directory := by
  simp only [bestDirectory, bind_ok, refuseIf_ok] at h
  obtain ⟨-, -, ranked, hranked, h⟩ := h
  have hnone : Ranked.After { hashTypes := [], best := none } bytes [] :=
    ⟨by simp, by simp, by simp⟩
  have hafter : ranked.After bytes (blobs.filter Blob.isDirectory) := hnone.foldlM hranked
  split at h
  · rename_i best n hbest
    obtain ⟨-, -, h⟩ := bind_ok.mp h
    cases h
    obtain ⟨hmem, t, ht, ht4, rfl⟩ := hafter.best _ _ hbest
    obtain ⟨hin, hdir⟩ := mem_filter.mp hmem
    refine ⟨hin, hdir, hafter.loads _ hmem, fun t' ht' d hd hisdir u hu => ?_⟩
    rw [ht] at ht'
    cases ht'
    have hd' : d ∈ blobs.filter Blob.isDirectory := mem_filter.mpr ⟨hd, hisdir⟩
    obtain ⟨v, hv, hv4⟩ := (hafter.loads d hd').ranked
    rw [hu] at hv
    cases hv
    obtain ⟨e, m, he, hm⟩ := hafter.top d hd' u hu
    rw [hbest] at he
    cases he
    rwa [kernelRank_of_ne hv4, kernelRank_of_ne ht4]
  · cases h

theorem inside_bestDirectory
    (hblobs : ∀ blob ∈ blobs, blob.start + blob.length ≤ bytes.length) :
    Inside (bestDirectory bytes blobs) := by
  refine Inside.unless fun _ => Inside.bind ?_ fun ranked _ => ?_
  · refine Inside.foldlM (P := fun _ => True) (fun r _ d hd => ?_)
      (fun _ _ _ _ _ _ => trivial) trivial
    have hd' := hblobs d (mem_filter.mp hd).1
    refine Inside.unless fun _ => Inside.unless fun hlength => ?_
    rw [cdFixedHeader] at hlength
    refine (inside_uint8 (by omega)).bind fun t _ => (inside_uint8 (by omega)).bind fun _ _ => ?_
    refine (inside_readAlgorithm _ _).bind fun _ _ => Inside.unless fun _ => ?_
    exact Inside.unless fun _ => inside_ok _
  · split
    · exact Inside.unless fun _ => inside_ok _
    · rintro ⟨⟩

theorem bestDirectory_same
    (hs : ∀ blob ∈ blobs, Same a blob.start b blob.start blob.length) :
    bestDirectory a blobs = bestDirectory b blobs := by
  have hfold : ∀ (l : List Blob) (r : Ranked), (∀ d ∈ l, d ∈ blobs) →
      l.foldlM (rankDirectory a) r = l.foldlM (rankDirectory b) r := by
    intro l
    induction l with
    | nil => exact fun _ _ => rfl
    | cons d l ih =>
      intro r hl
      have hsame := hs d (hl d mem_cons_self)
      have hd : rankDirectory a r d = rankDirectory b r d := by
        rw [rankDirectory, rankDirectory]
        by_cases hlength : d.length < cdFixedHeader
        · rw [refuseIf, refuseIf, if_pos hlength]
          rfl
        · rw [cdFixedHeader] at hlength
          rw [hsame.uint8 rfl rfl (by omega), hsame.uint8 rfl rfl (by omega)]
      rw [foldlM_cons, foldlM_cons, hd]
      exact bind_congr fun r' => ih r' fun x hx => hl x (mem_cons_of_mem d hx)
  rw [bestDirectory, bestDirectory,
    hfold (blobs.filter Blob.isDirectory) _ fun d hd => (mem_filter.mp hd).1]

end VibeField.Updates.CodeDirectory

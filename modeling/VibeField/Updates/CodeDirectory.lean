import VibeField.Base.View
import VibeField.Base.Utf16
import VibeField.Contracts.DocSync

/-!
# The digest of a member

A member of the native plane is digested by its code directory where it is a signed Mach-O, and by
its bytes otherwise.  The reader walks the load commands to the signature, the signature's index to
its blobs, and checks the code directory the kernel would enforce against every page of the code
and every component beside it.  What it does not read whole is read by bytes.

The hash functions come from outside.
-/

namespace VibeField.Updates.CodeDirectory

open Reading View

def mhMagic : Nat := 0xfeedface
def mhMagic64 : Nat := 0xfeedfacf
def mhCigam : Nat := 0xcefaedfe
def mhCigam64 : Nat := 0xcffaedfe
def fatMagic : Nat := 0xcafebabe
def fatMagic64 : Nat := 0xcafebabf
def fatMaxArchs : Nat := 64
def lcCodeSignature : Nat := 0x1d
def csmagicEmbeddedSignature : Nat := 0xfade0cc0
def csmagicCodeDirectory : Nat := 0xfade0c02
def csslotCodeDirectory : Nat := 0
def csslotAlternateCodeDirectories : Nat := 0x1000
def csslotAlternateCodeDirectoryCount : Nat := 5
def csslotSignatureslot : Nat := 0x10000
def cdFixedHeader : Nat := 44
def cdEarliestVersion : Nat := 0x20001
def cdSupportsScatter : Nat := 0x20100
def cdSupportsCodelimit64 : Nat := 0x20300
def csHashtypeSha384 : Nat := 4
def maxSafeInteger : Nat := 2 ^ 53 - 1

/-! ## Hashes -/

inductive Algorithm where
  | sha1
  | sha256
  | sha384
  deriving DecidableEq

abbrev Hash := Algorithm → List UInt8 → List UInt8

def hashTypes : Nat → Option (Algorithm × Nat)
  | 1 => some (.sha1, 20)
  | 2 => some (.sha256, 32)
  | 3 => some (.sha256, 20)
  | 4 => some (.sha384, 48)
  | _ => none

def rank : Nat → Nat
  | 2 => 3
  | 3 => 2
  | 1 => 1
  | _ => 0

def hexDigit (n : Nat) : Char := Char.ofNat (if n < 10 then 48 + n else 87 + n)

def hex (bytes : List UInt8) : List Char :=
  bytes.flatMap fun x => [hexDigit (x.toNat / 16), hexDigit (x.toNat % 16)]

def sha256Hex (h : Hash) (bytes : List UInt8) : List Char := hex (h .sha256 bytes)

def sameBytes (slot digest : List UInt8) : Bool := slot.isPrefixOf digest

/-! ## The load commands -/

structure MachHeader where
  cputype : Nat
  cpusubtype : Nat
  ncmds : Nat
  /-- How long the header is, and where its load commands end. -/
  header : Nat
  commandsEnd : Nat

/-- The image is the bytes from `start` up to `stop`. -/
def readHeader (bytes : List UInt8) (start stop : Nat) : Reading String MachHeader := do
  let size := stop - start
  refuseIf (size < 4) "not a Mach-O"
  let magic ← uint32LE bytes start
  refuseIf (magic = mhCigam ∨ magic = mhCigam64) "a big-endian Mach-O"
  refuseIf (magic ≠ mhMagic ∧ magic ≠ mhMagic64) "not a Mach-O"
  let header := if magic = mhMagic64 then 32 else 28
  refuseIf (size < header) "shorter than its Mach-O header"
  let cputype ← uint32LE bytes (start + 4)
  let cpusubtype ← uint32LE bytes (start + 8)
  let ncmds ← uint32LE bytes (start + 16)
  let sizeofcmds ← uint32LE bytes (start + 20)
  refuseIf (header + sizeofcmds > size) "its load commands run past the image"
  return { cputype, cpusubtype, ncmds, header, commandsEnd := header + sizeofcmds }

structure Signature where
  offset : Nat
  size : Nat

def readSignature (bytes : List UInt8) (start p cmd cmdsize : Nat) (signature : Option Signature) :
    Reading String (Option Signature) :=
  if cmd = lcCodeSignature then do
    refuseIf (signature.isSome = true) "two LC_CODE_SIGNATURE commands"
    refuseIf (cmdsize < 16) "a short LC_CODE_SIGNATURE"
    let offset ← uint32LE bytes (start + p + 8)
    let size ← uint32LE bytes (start + p + 12)
    return some { offset, size }
  else .ok signature

def readCommands (bytes : List UInt8) (start commandsEnd : Nat) :
    Nat → Nat → Option Signature → Reading String (Option Signature)
  | 0, _, signature => .ok signature
  | n + 1, p, signature => do
    refuseIf (p + 8 > commandsEnd) "a load command past sizeofcmds"
    let cmd ← uint32LE bytes (start + p)
    let cmdsize ← uint32LE bytes (start + p + 4)
    refuseIf (cmdsize < 8 ∨ p + cmdsize > commandsEnd) "a load command of a bad size"
    let signature ← readSignature bytes start p cmd cmdsize signature
    readCommands bytes start commandsEnd n (p + cmdsize) signature

/-! ## The signature's blobs -/

structure Blob where
  type : Nat
  magic : Nat
  start : Nat
  length : Nat
  deriving DecidableEq

def readBlob (bytes : List UInt8) (p length count : Nat) (blobs : List Blob) (i : Nat) :
    Reading String Blob := do
  let type ← uint32 bytes (p + 12 + i * 8)
  let offset ← uint32 bytes (p + 16 + i * 8)
  refuseIf (type ∈ blobs.map Blob.type) "a SuperBlob names a slot twice"
  refuseIf (offset < 12 + count * 8 ∨ offset + 8 > length) "a blob outside its SuperBlob"
  let magic ← uint32 bytes (p + offset)
  let blobLength ← uint32 bytes (p + offset + 4)
  refuseIf (blobLength < 8 ∨ offset + blobLength > length) "a blob past its SuperBlob"
  return { type, magic, start := p + offset, length := blobLength }

structure SuperBlob where
  length : Nat
  count : Nat
  /-- Every blob it names, the CMS blob among them. -/
  named : List Blob

def readSuperBlob (bytes : List UInt8) (p room : Nat) : Reading String SuperBlob := do
  refuseIf (room < 12) "a signature too short for its SuperBlob"
  let magic ← uint32 bytes p
  refuseIf (magic ≠ csmagicEmbeddedSignature) "no embedded signature"
  let length ← uint32 bytes (p + 4)
  let count ← uint32 bytes (p + 8)
  refuseIf (length < 12 ∨ length > room) "a SuperBlob past its signature"
  refuseIf (12 + count * 8 > length) "a SuperBlob index past its length"
  let named ← (List.range count).foldlM (fun blobs i => do
    let blob ← readBlob bytes p length count blobs i
    return blobs ++ [blob]) []
  return { length, count, named }

def SuperBlob.blobs (s : SuperBlob) : List Blob :=
  s.named.filter fun blob => blob.type ≠ csslotSignatureslot

/-! ## The code directory the kernel enforces -/

def Blob.isDirectory (blob : Blob) : Bool :=
  blob.type = csslotCodeDirectory ||
    (csslotAlternateCodeDirectories ≤ blob.type &&
      blob.type < csslotAlternateCodeDirectories + csslotAlternateCodeDirectoryCount)

def Blob.isComponent (blob : Blob) : Bool :=
  csslotCodeDirectory < blob.type && blob.type < csslotAlternateCodeDirectories

def readAlgorithm (hashType hashSize : Nat) : Reading String Algorithm :=
  match hashTypes hashType with
  | some (algorithm, size) =>
    if hashSize = size then .ok algorithm
    else .error (.refused "a CodeDirectory of an unknown hash type")
  | none => .error (.refused "a CodeDirectory of an unknown hash type")

structure Ranked where
  hashTypes : List Nat
  best : Option (Blob × Nat)

def Ranked.better (r : Ranked) (directory : Blob) (n : Nat) : Option (Blob × Nat) :=
  match r.best with
  | none => some (directory, n)
  | some best => if n > best.2 then some (directory, n) else some best

def rankDirectory (bytes : List UInt8) (r : Ranked) (directory : Blob) : Reading String Ranked := do
  refuseIf (directory.magic ≠ csmagicCodeDirectory) "a CodeDirectory slot holds another blob"
  refuseIf (directory.length < cdFixedHeader) "a short CodeDirectory"
  let hashType ← uint8 bytes (directory.start + 37)
  let hashSize ← uint8 bytes (directory.start + 36)
  let _ ← readAlgorithm hashType hashSize
  refuseIf (hashType ∈ r.hashTypes) "two CodeDirectories of one hash type"
  refuseIf (hashType = csHashtypeSha384) "a CodeDirectory the kernel ranks above SHA-256"
  return { hashTypes := r.hashTypes ++ [hashType], best := r.better directory (rank hashType) }

def bestDirectory (bytes : List UInt8) (blobs : List Blob) : Reading String Blob := do
  let directories := blobs.filter Blob.isDirectory
  refuseIf (directories = []) "a signature with no CodeDirectory"
  let ranked ← directories.foldlM (rankDirectory bytes) { hashTypes := [], best := none }
  match ranked.best with
  | some (directory, n) => do
    refuseIf (n = 0) "a CodeDirectory of an unknown hash type"
    return directory
  | none => .error (.refused "a signature with no CodeDirectory")

/-! ## What a code directory covers -/

structure Fields where
  version : Nat
  hashOffset : Nat
  nSpecialSlots : Nat
  nCodeSlots : Nat
  codeLimit : Nat
  hashSize : Nat
  hashType : Nat
  pageBits : Nat

def readFields (bytes : List UInt8) (p : Nat) : Reading String Fields := do
  let version ← uint32 bytes (p + 8)
  let hashOffset ← uint32 bytes (p + 16)
  let nSpecialSlots ← uint32 bytes (p + 24)
  let nCodeSlots ← uint32 bytes (p + 28)
  let codeLimit ← uint32 bytes (p + 32)
  let hashSize ← uint8 bytes (p + 36)
  let hashType ← uint8 bytes (p + 37)
  let pageBits ← uint8 bytes (p + 39)
  return { version, hashOffset, nSpecialSlots, nCodeSlots, codeLimit, hashSize, hashType, pageBits }

def readScatter (bytes : List UInt8) (directory : Blob) (version : Nat) : Reading String Unit :=
  if version ≥ cdSupportsScatter then do
    refuseIf (directory.length < 48) "a short CodeDirectory"
    let scatter ← uint32 bytes (directory.start + 44)
    refuseIf (scatter ≠ 0) "a scattered CodeDirectory"
  else .ok ()

def readCodeLimit (bytes : List UInt8) (directory : Blob) (version codeLimit : Nat) :
    Reading String Nat :=
  if version ≥ cdSupportsCodelimit64 then do
    refuseIf (directory.length < 64) "a short CodeDirectory"
    let codeLimit64 ← uint64 bytes (directory.start + 56)
    refuseIf (codeLimit64 > maxSafeInteger) "a code limit past any file"
    return if codeLimit64 ≠ 0 then codeLimit64 else codeLimit
  else .ok codeLimit

def verifySlot (h : Hash) (bytes : List UInt8) (algorithm : Algorithm) (hashSize p q q' : Nat)
    (why : String) : Reading String Unit := do
  let slot ← span bytes p (p + hashSize)
  let data ← span bytes q q'
  refuseIf (sameBytes slot (h algorithm data) = false) why

def pageSize (codeLimit pageBits : Nat) : Nat :=
  if pageBits = 0 then max codeLimit 1 else 2 ^ pageBits

def verifyPage (h : Hash) (bytes : List UInt8) (start : Nat) (directory : Blob)
    (algorithm : Algorithm) (f : Fields) (codeLimit page : Nat) : Reading String Unit :=
  let size := pageSize codeLimit f.pageBits
  verifySlot h bytes algorithm f.hashSize (directory.start + f.hashOffset + page * f.hashSize)
    (start + page * size) (start + min ((page + 1) * size) codeLimit)
    ("code page " ++ toString page ++ " does not match its CodeDirectory")

def verifyComponent (h : Hash) (bytes : List UInt8) (directory : Blob) (algorithm : Algorithm)
    (f : Fields) (component : Blob) : Reading String Unit := do
  refuseIf (component.type > f.nSpecialSlots)
    ("a component (slot " ++ toString component.type ++ ") the CodeDirectory does not bind")
  verifySlot h bytes algorithm f.hashSize
    (directory.start + f.hashOffset - component.type * f.hashSize)
    component.start (component.start + component.length)
    ("a component (slot " ++ toString component.type ++ ") does not match its CodeDirectory")

/-- The hash type of the code directory, which covers the image. -/
def verifyDirectory (h : Hash) (bytes : List UInt8) (start signatureOffset : Nat) (directory : Blob)
    (components : List Blob) : Reading String Nat := do
  let f ← readFields bytes directory.start
  refuseIf (f.version < cdEarliestVersion) "a CodeDirectory older than any kernel reads"
  let algorithm ← readAlgorithm f.hashType f.hashSize
  readScatter bytes directory f.version
  let codeLimit ← readCodeLimit bytes directory f.version f.codeLimit
  refuseIf (codeLimit ≠ signatureOffset) "a CodeDirectory that does not reach the signature"
  refuseIf (f.pageBits > 30) "a page size past any kernel's"
  refuseIf (f.nCodeSlots ≠ sliceCount codeLimit (pageSize codeLimit f.pageBits))
    "a code slot count off its pages"
  refuseIf (f.hashOffset < cdFixedHeader + f.nSpecialSlots * f.hashSize)
    "special slots in the header"
  refuseIf (f.hashOffset + f.nCodeSlots * f.hashSize > directory.length)
    "code slots past the CodeDirectory"
  forM (List.range f.nCodeSlots) (verifyPage h bytes start directory algorithm f codeLimit)
  forM components (verifyComponent h bytes directory algorithm f)
  return f.hashType

/-! ## Images -/

/-- Where an image's code ends and what its signature names. -/
structure Layout where
  start : Nat
  stop : Nat
  cputype : Nat
  cpusubtype : Nat
  signature : Signature
  superBlob : SuperBlob
  directory : Blob

def Layout.components (l : Layout) : List Blob := l.superBlob.blobs.filter Blob.isComponent

def readLayout (bytes : List UInt8) (start stop : Nat) : Reading String Layout := do
  let m ← readHeader bytes start stop
  let found ← readCommands bytes start m.commandsEnd m.ncmds m.header none
  match found with
  | none => .error (.refused "unsigned")
  | some signature => do
    refuseIf (signature.offset < m.commandsEnd ∨
      signature.offset + signature.size ≠ stop - start) "the signature does not end the image"
    let superBlob ← readSuperBlob bytes (start + signature.offset) signature.size
    let directory ← bestDirectory bytes superBlob.blobs
    return { start, stop, cputype := m.cputype, cpusubtype := m.cpusubtype, signature, superBlob,
             directory }

structure Slice where
  cputype : Nat
  cpusubtype : Nat
  hashType : Nat
  cdhash : List Char

def readImage (h : Hash) (bytes : List UInt8) (start stop : Nat) : Reading String Slice := do
  let l ← readLayout bytes start stop
  let hashType ← verifyDirectory h bytes start l.signature.offset l.directory l.components
  let directory ← span bytes l.directory.start (l.directory.start + l.directory.length)
  return { cputype := l.cputype, cpusubtype := l.cpusubtype, hashType,
           cdhash := sha256Hex h directory }

/-! ## Files -/

def readFat (bytes : List UInt8) (least p : Nat) : Reading String Nat :=
  if bytes.length ≥ least then uint32 bytes p else .ok 0

def fatEntry (fat : Nat) : Nat := if fat = fatMagic64 then 32 else 20

def fatTable (fat count : Nat) : Nat := 8 + count * fatEntry fat

def readField (bytes : List UInt8) (fat p : Nat) : Reading String Nat :=
  if fat = fatMagic64 then uint64 bytes p else uint32 bytes p

def readSpan (bytes : List UInt8) (fat count i : Nat) : Reading String (Nat × Nat) := do
  let offset ← readField bytes fat (8 + i * fatEntry fat + 8)
  let size ← readField bytes fat (8 + i * fatEntry fat + if fat = fatMagic64 then 16 else 12)
  refuseIf (offset < fatTable fat count ∨ offset + size > bytes.length) "a slice outside the file"
  return (offset, offset + size)

/-- Whether the file is universal, and its every image read. -/
def readImages {α : Type} (read : Nat → Nat → Reading String α) (bytes : List UInt8) :
    Reading String (Bool × List α) := do
  let fat ← readFat bytes 4 0
  if fat ≠ fatMagic ∧ fat ≠ fatMagic64 then do
    let image ← read 0 bytes.length
    return (false, [image])
  else do
    let count ← readFat bytes 8 4
    refuseIf (count = 0 ∨ count > fatMaxArchs ∨ fatTable fat count > bytes.length)
      "not a universal binary"
    let images ← (List.range count).mapM fun i => do
      let place ← readSpan bytes fat count i
      read place.1 place.2
    return (true, images)

inductive CodeSignature where
  | signed (universal : Bool) (slices : List Slice)
  | unsigned (why : String)

def readCodeSignature (h : Hash) (bytes : List UInt8) : CodeSignature :=
  match readImages (readImage h bytes) bytes with
  | .ok (universal, slices) => .signed universal slices
  | .error (.refused why) => .unsigned why
  | .error .outside => .unsigned "unreadable: Offset is outside the bounds of the DataView"

/-! ## Members -/

inductive MemberDigest where
  | bytes (digest : List Char) (why : String)
  | cdhash (digest : List Char)

def Slice.line (s : Slice) : List Char :=
  Nat.toDigits 10 s.cputype ++ '/' :: (Nat.toDigits 10 s.cpusubtype ++ Char.ofNat 0 :: s.cdhash)

def sortLines (lines : List (List Char)) : List (List Char) :=
  lines.mergeSort fun a b => Utf16.le (Utf16.encode a) (Utf16.encode b)

def slicesText (slices : List Slice) : List Char :=
  List.intercalate ['\n'] (sortLines (slices.map Slice.line))

def memberDigest (h : Hash) (bytes : List UInt8) : MemberDigest :=
  match readCodeSignature h bytes with
  | .unsigned why => .bytes (sha256Hex h bytes) why
  | .signed false (only :: _) => .cdhash only.cdhash
  | .signed _ slices => .cdhash (sha256Hex h (Contracts.encodeText (slicesText slices)))

def MemberDigest.text : MemberDigest → List Char
  | .bytes digest _ => digest
  | .cdhash digest => ['c', 'd', 'h', 'a', 's', 'h', ':'] ++ digest

def lineOf (path : List Char) (member : MemberDigest) : List Char :=
  path ++ Char.ofNat 0 :: member.text

def memberLine (h : Hash) (path : List Char) (bytes : List UInt8) : List Char :=
  lineOf path (memberDigest h bytes)

end VibeField.Updates.CodeDirectory

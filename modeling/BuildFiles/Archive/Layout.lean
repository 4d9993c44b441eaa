import BuildFiles.Archive.Checksum
import BuildFiles.Archive.Inflate
import BuildFiles.Archive.RangeCoded
import BuildFiles.Archive.SortedBlocks

/-!
# The layout of archives

An archive is a sequence of entries, each under a header of its own, then a directory that names
them and says where they are, and at the end a record of where the directory is, which a wide record
for large numbers may stand before. What stands before the first entry does not matter. `entries`
reads the directory, `content` takes one entry out, and `encode` writes an archive of entries that
are not compressed.
-/

namespace BuildFiles.Archive

/-! ## Numbers and names -/

/-- The number in `n` bytes from an offset on, the lowest byte first. -/
def numberAt (b : ByteArray) (offset : Nat) : Nat → Nat
  | 0 => 0
  | n + 1 => (b[offset]?.getD 0).toNat + 256 * numberAt b (offset + 1) n

/-- The bytes of a number, the lowest first. -/
def numberBytes : Nat → Nat → List UInt8
  | 0, _ => []
  | n + 1, x => x.toUInt8 :: numberBytes n (x / 256)

/-- The bytes stand in the content at an offset. -/
def standsAt (b : ByteArray) (offset : Nat) (bytes : List UInt8) : Bool :=
  (b.extract offset (offset + bytes.length)).data.toList == bytes

/-- The characters of the upper half of the code page of names that are not marked as Unicode. -/
def upperHalf : List Char :=
  ("ÇüéâäàåçêëèïîìÄÅÉæÆôöòûùÿÖÜ¢£¥₧ƒáíóúñÑªº¿⌐¬½¼¡«»░▒▓│┤╡╢╖╕╣║╗╝╜╛┐└┴┬├─┼╞╟╚╔╩╦╠═╬╧"
    ++ "╨╤╥╙╘╒╓╫╪┘┌█▄▌▐▀αßΓπΣσµτΦΘΩδ∞φε∩≡±≥≤⌠⌡÷≈°∙·√ⁿ²■\u00a0").toList

/-- A character of the code page. -/
def codePageChar (b : UInt8) : Char :=
  if b < 128 then Char.ofNat b.toNat else upperHalf[b.toNat - 128]?.getD ' '

/-- The name that the bytes are, if they are one. -/
def nameOf? (isUnicode : Bool) (bytes : ByteArray) : Option String :=
  if isUnicode then String.fromUTF8? bytes
  else some (String.ofList (bytes.data.toList.map codePageChar))

/-! ## The directory -/

/-- What is wrong with an archive or an entry. -/
inductive Damage where
  /-- the archive as a whole cannot be read -/
  | unreadable
  /-- the entry cannot be taken out -/
  | corrupt
  /-- a name is no Unicode text -/
  | notText
  /-- the compressed form under a range code is none -/
  | garbled
  /-- the entry is said to be where no offset leads -/
  | unplaced

/-- An entry as the directory of an archive has it. -/
structure Entry where
  name : String
  /-- properties of the entry, one for each bit -/
  flags : Nat
  method : Nat
  checksum : Nat
  packedSize : Nat
  size : Nat
  /-- where the header of the entry stands -/
  offset : Int
  /-- where its room ends -/
  roomEnd : Int := 0
  deriving Inhabited

/-- The bit of the flags. -/
def Entry.hasFlag (flags bit : Nat) : Bool := (flags >>> bit) % 2 == 1

/-- The bit of the flags that marks the name as Unicode. -/
def unicodeFlag : Nat := 11

/-- The signatures of the parts of an archive. -/
def endSignature : List UInt8 := [0x50, 0x4b, 5, 6]

/-- The signature of the wide record at the end, which has larger numbers. -/
def wideSignature : List UInt8 := [0x50, 0x4b, 6, 6]

/-- The signature of what says where the wide record is. -/
def locatorSignature : List UInt8 := [0x50, 0x4b, 6, 7]

@[inherit_doc endSignature]
def directorySignature : List UInt8 := [0x50, 0x4b, 1, 2]

@[inherit_doc endSignature]
def headerSignature : List UInt8 := [0x50, 0x4b, 3, 4]

/-- The sizes of the fixed parts. -/
def endSize : Nat := 22

@[inherit_doc endSize]
def wideSize : Nat := 56

@[inherit_doc endSize]
def locatorSize : Nat := 20

@[inherit_doc endSize]
def directorySize : Nat := 46

@[inherit_doc endSize]
def headerSize : Nat := 30

/-- The longest remark after the record at the end. -/
def maxRemark : Nat := 65536

/-- The highest version of the layout that is read, times ten. -/
def maxVersion : Nat := 63

/-- The last of the given number of offsets at which the record at the end stands. -/
def lastEnd? (b : ByteArray) (start : Nat) : Nat → Option Nat
  | 0 => none
  | n + 1 => if standsAt b (start + n) endSignature then some (start + n) else lastEnd? b start n

/-- Where the record at the end stands. -/
def endOffset? (b : ByteArray) : Option Nat :=
  if b.size < endSize then none else
    let last := b.size - endSize
    if standsAt b last endSignature && numberAt b (last + 20) 2 == 0 then some last
    else
      let start := last - maxRemark
      (lastEnd? b start (b.size - start)).filter fun o => o + endSize ≤ b.size

/-- The additional parts, each with its kind, if they fit into the bytes. -/
def parts? : List UInt8 → Option (List (Nat × List UInt8))
  | kind :: kindHigh :: low :: high :: rest => do
    let size := low.toNat + 256 * high.toNat
    if rest.length < size then none
    else return (kind.toNat + 256 * kindHigh.toNat, rest.take size) :: (← parts? (rest.drop size))
  | _ => some []
termination_by bytes => bytes.length
decreasing_by
  simp only [List.length_drop, List.length_cons]
  omega

/-- The number that stands for one which is written elsewhere, in eight bytes. -/
def elsewhere : Nat := 0xffffffff

/-- The number itself or, when it is elsewhere, the one at the start of the bytes, with what is
left of them. -/
def resolved? (n : Nat) (bytes : List UInt8) : Option (Nat × List UInt8) :=
  if n = elsewhere then
    if bytes.length < 8 then none
    else some (numberAt bytes.toByteArray 0 8, bytes.drop 8)
  else some (n, bytes)

/-- The kind of the part with the numbers of an entry that are elsewhere. -/
def widePart : Nat := 1

/-- The sizes and the offset of an entry, some of which may be in a part. -/
structure Extent where
  size : Nat
  packedSize : Nat
  offset : Nat

/-- The extent with the numbers that are in a part. -/
def Extent.within? (x : Extent) (part : Nat × List UInt8) : Option Extent :=
  if part.1 ≠ widePart then some x
  else do
    let size := if x.size = Nat.pow 2 64 - 1 then elsewhere else x.size
    let (size, bytes) ← resolved? size part.2
    let (packedSize, bytes) ← resolved? x.packedSize bytes
    let (offset, _) ← resolved? x.offset bytes
    return ⟨size, packedSize, offset⟩

/-- Read entries of the directory from an offset up to its end, at most `fuel` of them. Offsets of
headers are written as if the archive began `shift` bytes later. -/
def entriesFrom (b : ByteArray) (stop : Nat) (shift : Int) : Nat → Nat → Except Damage (List Entry)
  | 0, _ => .error .unreadable
  | fuel + 1, offset =>
    if stop ≤ offset then .ok []
    else if stop < offset + directorySize || !standsAt b offset directorySignature then
      .error .unreadable
    else do
      let nameSize := numberAt b (offset + 28) 2
      let extraSize := numberAt b (offset + 30) 2
      let remarkSize := numberAt b (offset + 32) 2
      let nameStart := offset + directorySize
      let part (start size : Nat) : ByteArray := b.extract start (min stop (start + size))
      let flags := numberAt b (offset + 8) 2
      let some name := nameOf? (Entry.hasFlag flags unicodeFlag) (part nameStart nameSize)
        | .error .notText
      let written : Extent :=
        ⟨numberAt b (offset + 24) 4, numberAt b (offset + 20) 4, numberAt b (offset + 42) 4⟩
      let extra := (part (nameStart + nameSize) extraSize).data.toList
      let some extent := (parts? extra).bind fun parts => parts.foldlM Extent.within? written
        | .error .unreadable
      if maxVersion < numberAt b (offset + 6) 1 then .error .unreadable
      let entry : Entry := {
        name := name
        flags := flags
        method := numberAt b (offset + 10) 2
        checksum := numberAt b (offset + 16) 4
        packedSize := extent.packedSize
        size := extent.size
        offset := extent.offset + shift }
      let rest ← entriesFrom b stop shift fuel (nameStart + nameSize + extraSize + remarkSize)
      return entry :: rest

/-- The entries with the ends of their rooms: that of the last in the archive is at the directory,
and that of another at the header after its own. Of entries with one header the first has all of
the room. -/
def withRooms (directoryStart : Nat) (es : List Entry) : List Entry :=
  let fromLast := es.zipIdx.mergeSort fun a b => decide (b.1.offset ≤ a.1.offset)
  let ends := Int.ofNat directoryStart :: fromLast.map fun e => e.1.offset
  let placed := (fromLast.zip ends).map fun ((e, i), stop) => ({ e with roomEnd := stop }, i)
  (placed.mergeSort fun a b => decide (a.2 ≤ b.2)).map Prod.fst

/-- The record at the end: where it stands, and the size and the offset of the directory as
written. -/
structure EndRecord where
  start : Nat
  size : Nat
  written : Nat

/-- The record at an offset, or the wide one before it. -/
def endRecord (b : ByteArray) (stop : Nat) : Except Damage EndRecord :=
  let narrow : EndRecord := ⟨stop, numberAt b (stop + 12) 4, numberAt b (stop + 16) 4⟩
  let locator := stop - locatorSize
  if stop < locatorSize || !standsAt b locator locatorSignature then .ok narrow
  else if numberAt b (locator + 4) 4 ≠ 0 || 1 < numberAt b (locator + 16) 4 then .error .unreadable
  else if locator < wideSize then .error .unreadable
  else
    let wide := locator - wideSize
    if standsAt b wide wideSignature then
      .ok ⟨wide, numberAt b (wide + 40) 8, numberAt b (wide + 48) 8⟩
    else .ok narrow

/-- The entries of an archive in the order of its directory. -/
def entries (b : ByteArray) : Except Damage (List Entry) := do
  let some stop := endOffset? b | .error .unreadable
  let record ← endRecord b stop
  if record.start < record.size then .error .unreadable
  let start := record.start - record.size
  let shift := Int.ofNat start - Int.ofNat record.written
  return withRooms start (← entriesFrom b record.start shift (record.size + 1) start)

/-! ## Entries -/

/-- The name under which the entry is known, which ends at a null character. -/
def Entry.shownName (e : Entry) : String :=
  String.ofList (e.name.toList.takeWhile fun c => c.toNat ≠ 0)

/-- The entry is a folder. -/
def Entry.isFolder (e : Entry) : Bool := e.shownName.toList.getLast? == some '/'

/-- The content that is packed by a method: as it is, by literals and copies, in sorted blocks, or
under a range code. -/
def unpack (method : Nat) (packed : ByteArray) : Except Damage Unpacked :=
  match method with
  | 0 => .ok ⟨packed, false⟩
  | 8 => (inflate? packed).elim (.error .corrupt) .ok
  | 12 => (unsort? packed).elim (.error .unreadable) .ok
  | 14 => (unrange? packed).elim (.error .garbled) .ok
  | _ => .error .corrupt

/-- The flags of entries that cannot be taken out: patches, and those encrypted with a mark. -/
def closedFlags : List Nat := [5, 6]

/-- The flag of encrypted entries. -/
def encryptedFlag : Nat := 0

/-- Offsets are less than this, and not less than its negative. -/
def offsetBound : Int := Nat.pow 2 63

/-- The offset up to which a file can be read. -/
def farthestOffset : Int := Nat.pow 2 44 - 4096

/-- The content of an entry. -/
def content (b : ByteArray) (e : Entry) : Except Damage ByteArray := do
  if e.offset < -offsetBound || offsetBound ≤ e.offset then .error .unplaced
  if e.offset < 0 || farthestOffset < e.offset then .error .unreadable
  let start := e.offset.toNat
  if b.size < start + headerSize || !standsAt b start headerSignature then .error .corrupt
  let nameSize := numberAt b (start + 26) 2
  let nameStart := start + headerSize
  let flags := numberAt b (start + 6) 2
  if closedFlags.any (Entry.hasFlag e.flags) then .error .corrupt
  let some name := nameOf? (Entry.hasFlag flags unicodeFlag)
    (b.extract nameStart (nameStart + nameSize)) | .error .notText
  let contentStart := nameStart + nameSize + numberAt b (start + 28) 2
  if name ≠ e.name || e.roomEnd < Int.ofNat (contentStart + e.packedSize)
      || Entry.hasFlag e.flags encryptedFlag then
    .error .corrupt
  let packed := b.extract contentStart (contentStart + e.packedSize)
  if packed.isEmpty && 0 < e.packedSize then .error .corrupt
  let out ← unpack e.method packed
  if packed.size < e.packedSize && !out.isWhole && out.content.size < e.size then .error .corrupt
  let out := out.content.extract 0 e.size
  if (checksum out).toNat = e.checksum then return out else .error .corrupt

/-! ## Writing -/

/-- An entry to write: its name and its content, empty for a folder. -/
abbrev NewEntry := String × ByteArray

/-- What the header and the directory both say of an entry. -/
def sharedFields (e : NewEntry) : List UInt8 :=
  let name := e.1.toUTF8
  let flags := if name.size = e.1.length then 0 else 1 <<< unicodeFlag
  numberBytes 2 20 ++ numberBytes 2 flags ++ numberBytes 2 0 ++ numberBytes 4 0
    ++ numberBytes 4 (checksum e.2).toNat ++ numberBytes 4 e.2.size ++ numberBytes 4 e.2.size
    ++ numberBytes 2 name.size ++ numberBytes 2 0

/-- The bytes of one entry under its header. -/
def entryBytes (e : NewEntry) : ByteArray :=
  (headerSignature ++ sharedFields e).toByteArray ++ e.1.toUTF8 ++ e.2

/-- The bytes of an entry in the directory, when its header stands at an offset. -/
def directoryBytes (e : NewEntry) (offset : Nat) : ByteArray :=
  (directorySignature ++ numberBytes 2 20 ++ sharedFields e ++ numberBytes 2 0 ++ numberBytes 2 0
    ++ numberBytes 2 0 ++ numberBytes 4 0 ++ numberBytes 4 offset).toByteArray ++ e.1.toUTF8

/-- The archive of the entries. -/
def encode (es : List NewEntry) : ByteArray :=
  let (body, listing) := es.foldl (fun (body, listing) e =>
    (body ++ entryBytes e, listing ++ directoryBytes e body.size))
    (ByteArray.empty, ByteArray.empty)
  body ++ listing ++ (endSignature ++ numberBytes 4 0 ++ numberBytes 2 es.length
    ++ numberBytes 2 es.length ++ numberBytes 4 listing.size ++ numberBytes 4 body.size
    ++ numberBytes 2 0).toByteArray

end BuildFiles.Archive

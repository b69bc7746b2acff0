import WordMachine.Archive.Zip.ExtraField
import WordMachine.Text.CodePage437

/-!
The directory of an archive: where it stands, and its entries. It is looked for by an end record,
which comes behind it. Numbers that do not fit the end record stand in a wide one, which a locator
right before the end record points to. Whatever stands before the archive proper is found out from
the place where the directory or the wide end record really is.
-/

namespace WordMachine.Zip

def entrySignature : Nat := 0x04034b50

def directorySignature : Nat := 0x02014b50

def endSignature : Nat := 0x06054b50

def wideEndSignature : Nat := 0x06064b50

def locatorSignature : Nat := 0x07064b50

structure DirectoryPlace where
  /-- How many bytes stand before the archive proper. -/
  lead : Nat
  start : Nat
  count : Nat
deriving DecidableEq

structure EndRecord where
  disk : Nat
  directoryDisk : Nat
  /-- How many entries there are on this disk. -/
  count : Nat
  /-- How many entries there are on all disks. -/
  total : Nat
  offset : Nat

namespace EndRecord

/-- Reads the record at the beginning of the bytes; its comment must not reach past them. -/
def ofBytes? (bytes : List UInt8) : Option EndRecord := do
  let commentLength ← field? bytes 20 2
  let _ ← slice? bytes 0 (22 + commentLength)
  return {
    disk := ← field? bytes 4 2
    directoryDisk := ← field? bytes 6 2
    count := ← field? bytes 8 2
    total := ← field? bytes 10 2
    offset := ← field? bytes 16 4 }

/-- Whether some number may be too large for this record. -/
def mayBeWide (r : EndRecord) : Bool := r.total == 0xffff || r.offset == 0xffffffff

/-- The place of the directory, for a record at the given place. The directory is taken to begin at
the first signature of an entry that is not before its offset. -/
def place? (r : EndRecord) (bytes : List UInt8) (recordAt : Nat) : Option DirectoryPlace := do
  guard (r.disk = r.directoryDisk)
  if r.total = 0 then
    let lead := recordAt - r.offset
    return ⟨lead, r.offset + lead, r.count⟩
  else
    let start ← firstPlace? (number 4 directorySignature) r.offset (bytes.drop r.offset)
    guard (start < recordAt)
    return ⟨start - r.offset, start, r.count⟩

end EndRecord

/-- Points to the wide end record. -/
structure Locator where
  place : Nat
  directoryDisk : Nat
  offset : Nat
  disks : Nat

namespace Locator

/-- The locator before an end record at the given place. -/
def before? (bytes : List UInt8) (recordAt : Nat) : Option Locator := do
  guard (20 ≤ recordAt)
  let place := recordAt - 20
  let record := bytes.drop place
  guard ((← field? record 0 4) = locatorSignature)
  return {
    place
    directoryDisk := ← field? record 4 4
    offset := ← field? record 8 8
    disks := ← field? record 16 4 }

/-- Whether a wide end record fits the locator: it reaches up to it, agrees with it, and has room
for its entries before it. -/
def fits (l : Locator) (candidate : Nat × List UInt8) : Bool :=
  let (place, record) := candidate
  match field? record 4 8, field? record 20 4, field? record 32 8, field? record 48 8 with
  | some size, some directoryDisk, some total, some offset =>
    l.offset ≤ place && 44 ≤ size && place + size + 12 == l.place &&
      directoryDisk == l.directoryDisk && 46 * total + offset ≤ place
  | _, _, _, _ => false

/-- The place of the directory by the first wide end record that fits. -/
def place? (l : Locator) (bytes : List UInt8) : Option DirectoryPlace := do
  guard (l.offset < l.place ∧ l.disks ≤ 1)
  let candidates := places (number 4 wideEndSignature) (bytes.take l.place)
  let (recordAt, _) ← candidates.reverse.find? l.fits
  let record := bytes.drop recordAt
  guard ((← field? record 14 2) ≤ (← field? record 12 2))
  guard ((← field? record 16 4) = l.directoryDisk)
  let count ← field? record 32 8
  guard ((← field? record 24 8) ≤ count)
  let lead := recordAt - l.offset
  return ⟨lead, (← field? record 48 8) + lead, count⟩

end Locator

structure Entry where
  name : List UInt8
  encrypted : Bool
  method : Nat
  checksum : Nat
  packedSize : Nat
  size : Nat
  place : Nat
deriving DecidableEq

namespace Entry

/-- A comment as UTF-8. Bit 11 of the flags says that it was written so, and not in the old code
page. -/
def commentText (flags : Nat) (comment : List UInt8) : List UInt8 :=
  Text.Utf8.encode (if flags / 2048 % 2 = 1 then Text.Utf8.decodeLossy comment
    else Text.CodePage437.decode comment)

/-- The method number of encryption, under which the true method is in an extra field. -/
def cipherMethod : Nat := 99

/-- Reads the entry at the beginning of the bytes, and gives what follows it. The entry itself must
begin before the directory. -/
def read? (directory : DirectoryPlace) (bytes : List UInt8) : Option (Entry × List UInt8) := do
  guard ((← field? bytes 0 4) = directorySignature)
  let nameLength ← field? bytes 28 2
  let extraLength ← field? bytes 30 2
  let commentLength ← field? bytes 32 2
  let flags ← field? bytes 8 2
  let offset ← field? bytes 42 4
  let name ← slice? bytes 46 nameLength
  let extra ← slice? bytes (46 + nameLength) extraLength
  let comment ← slice? bytes (46 + nameLength + extraLength) commentLength
  let description : Description := {
    name
    comment := commentText flags comment
    method := ← field? bytes 10 2
    packedSize := ← field? bytes 20 4
    size := ← field? bytes 24 4
    offset }
  let d ← description.withExtra extra
  guard (d.method ≠ cipherMethod ∨ d.locked)
  guard (d.offset + directory.lead < directory.start)
  let entry : Entry := {
    name := d.name
    encrypted := flags % 2 == 1 || d.locked
    method := d.method
    checksum := ← field? bytes 16 4
    packedSize := d.packedSize
    size := d.size
    place := d.offset + directory.lead }
  return (entry, bytes.drop (46 + nameLength + extraLength + commentLength))

end Entry

namespace DirectoryPlace

/-- The place of the directory by an end record at the given place, where the bytes begin. -/
def ofEndRecord? (bytes : List UInt8) (recordAt : Nat) (record : List UInt8) :
    Option DirectoryPlace := do
  let r ← EndRecord.ofBytes? record
  match if r.mayBeWide then Locator.before? bytes recordAt else none with
  | some locator => locator.place? bytes
  | none => r.place? bytes recordAt

/-- Reads so many entries. -/
def entriesFrom? (d : DirectoryPlace) : Nat → List UInt8 → Option (List Entry)
  | 0, _ => some []
  | n + 1, bytes => do
    let (entry, rest) ← Entry.read? d bytes
    return entry :: (← d.entriesFrom? n rest)

def entries? (d : DirectoryPlace) (bytes : List UInt8) : Option (List Entry) :=
  d.entriesFrom? d.count (bytes.drop d.start)

end DirectoryPlace

end WordMachine.Zip

import WordMachine.Archive.Deflate
import WordMachine.Archive.Zip.Directory

/-!
Zip archives with stored or deflated entries. An archive is read from its end: the last end record
that leads to a sound directory counts. The directory may name a file twice; then the later entry
counts.
-/

namespace WordMachine.Zip

/-- Why an entry that was found gives no content. -/
inductive ReadFault where
  /-- The packed bytes are no deflate stream, or end before it does. -/
  | corrupt
  | checksum
deriving DecidableEq

def ReadFault.message : ReadFault → String
  | corrupt => "corrupt deflate stream"
  | checksum => "Invalid checksum"

inductive ArchiveError where
  /-- No end record leads to a directory. -/
  | noDirectory
  | missingEntry
  | encrypted
  /-- No entry begins at the place that the directory gives for it. -/
  | misplaced
  | unknownMethod
  | unreadable (fault : ReadFault)
deriving DecidableEq

def ArchiveError.message : ArchiveError → String
  | noDirectory => "invalid Zip archive: Could not find EOCD"
  | missingEntry => "specified file not found in archive"
  | encrypted => "unsupported Zip archive: Password required to decrypt file"
  | misplaced => "invalid Zip archive: Invalid local file header"
  | unknownMethod => "unsupported Zip archive: Compression method not supported"
  | unreadable fault => fault.message

def storedMethod : Nat := 0

def deflatedMethod : Nat := 8

structure Archive where
  bytes : List UInt8
  entries : List Entry

/-- Reads an archive by the end record at the given place, where the rest of the bytes begins. -/
def readAt? (bytes : List UInt8) (recordAt : Nat) (record : List UInt8) : Option Archive := do
  let directory ← DirectoryPlace.ofEndRecord? bytes recordAt record
  return ⟨bytes, ← directory.entries? bytes⟩

def read (bytes : List UInt8) : Except ArchiveError Archive :=
  let candidates := places (number 4 endSignature) bytes
  match candidates.findSome? fun (place, record) => readAt? bytes place record with
  | some archive => .ok archive
  | none => .error .noDirectory

namespace Archive

def find? (a : Archive) (name : String) : Option Entry :=
  a.entries.reverse.find? fun entry => entry.name = Text.Utf8.encode name

/-- The bytes of an entry as they are packed. -/
def packed? (a : Archive) (entry : Entry) : Option (List UInt8) := do
  let record := a.bytes.drop entry.place
  guard ((← field? record 0 4) = entrySignature)
  let nameLength ← field? record 26 2
  let extraLength ← field? record 28 2
  return (record.drop (30 + nameLength + extraLength)).take entry.packedSize

def unpack (method : Nat) (packed : List UInt8) : Except ArchiveError (List UInt8) :=
  if method = storedMethod then .ok packed
  else if method = deflatedMethod then
    match Deflate.inflate? packed with
    | some content => .ok content
    | none => .error (.unreadable .corrupt)
  else .error .unknownMethod

def content (a : Archive) (entry : Entry) : Except ArchiveError (List UInt8) := do
  if entry.encrypted then throw .encrypted
  let packed ← (a.packed? entry).getDM (throw .misplaced)
  let content ← unpack entry.method packed
  if (Crc32.checksum content).toNat = entry.checksum then return content
  else throw (.unreadable .checksum)

def extract (a : Archive) (name : String) : Except ArchiveError (List UInt8) :=
  match a.find? name with
  | none => .error .missingEntry
  | some entry => a.content entry

end Archive

/-- What an entry and its place in the directory both say: version, flags, method, time, date,
checksum, the two sizes, the length of the name, and no extra field. -/
def description (name content packed : List UInt8) : List UInt8 :=
  number 2 20 ++ number 2 0 ++ number 2 deflatedMethod ++ number 2 0 ++ number 2 0x21 ++
    number 4 (Crc32.checksum content).toNat ++ number 4 packed.length ++
    number 4 content.length ++ number 2 name.length ++ number 2 0

/-- An archive with a single entry. -/
def single (name : String) (content : List UInt8) : List UInt8 :=
  let name := Text.Utf8.encode name
  let packed := Deflate.store content
  let entry := number 4 entrySignature ++ description name content packed ++ name ++ packed
  let directory := number 4 directorySignature ++ number 2 20 ++ description name content packed ++
    number 2 0 ++ number 2 0 ++ number 2 0 ++ number 4 0 ++ number 4 0 ++ name
  entry ++ directory ++ (number 4 endSignature ++ number 2 0 ++ number 2 0 ++ number 2 1 ++
    number 2 1 ++ number 4 directory.length ++ number 4 entry.length ++ number 2 0)

end WordMachine.Zip

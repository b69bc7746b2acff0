import WordMachine.Archive.Zip
import WordMachine.Digest.Blake3
import WordMachine.Machine
import WordMachine.Snapshot.Encoding

/-!
Snapshots kept: as the single entry of an archive, and under an address that is computed from their
content.
-/

namespace WordMachine

inductive SnapshotError where
  | archive (error : Zip.ArchiveError)
  | encoding (error : EncodingError)
deriving DecidableEq

namespace SnapshotError

/-- The entry is there, but it cannot be read. -/
@[match_pattern]
def io (fault : Zip.ReadFault) : SnapshotError := archive (.unreadable fault)

def message : SnapshotError → String
  | io fault => "io: " ++ fault.message
  | archive error => "archive: " ++ error.message
  | encoding error => error.message

end SnapshotError

namespace Snapshot

/-- The name of the archive entry that holds a snapshot. -/
def entryName : String := "state.bin"

def toArchive (s : Snapshot) : Except EncodingError (List UInt8) :=
  s.encode.map (Zip.single entryName)

def ofArchive (bytes : List UInt8) : Except SnapshotError Snapshot := do
  let raw ← (Zip.read bytes >>= (·.extract entryName)).mapError SnapshotError.archive
  (decode raw).mapError SnapshotError.encoding

/-- The hash of the raw encoding, marked with the name of the hash. -/
def contentAddress (s : Snapshot) : Except EncodingError String :=
  s.encode.map fun raw => "b3:" ++ Blake3.hexDigest raw

end Snapshot

namespace Machine

def save (m : Machine) : Except EncodingError (List UInt8) := m.snapshot.toArchive

/-- Goes to a saved state of a machine with the same image. -/
def resume (m : Machine) (saved : List UInt8) : Except SnapshotError Machine :=
  (Snapshot.ofArchive saved).map m.restore

end Machine

end WordMachine

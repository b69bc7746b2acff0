import WordMachine.Word
import WordMachine.Opcode
import WordMachine.Text.Blank
import WordMachine.Text.Cut
import WordMachine.Text.Printable
import WordMachine.Text.Extender
import WordMachine.Text.Ignorable
import WordMachine.Text.Quoted
import WordMachine.Text.Numeral
import WordMachine.Text.Utf8
import WordMachine.Text.CodePage437
import WordMachine.Bytes
import WordMachine.Image
import WordMachine.Memory
import WordMachine.Fault
import WordMachine.Instruction
import WordMachine.Listing
import WordMachine.Console
import WordMachine.LineCursor
import WordMachine.Snapshot
import WordMachine.Machine
import WordMachine.RunConfig
import WordMachine.Observer
import WordMachine.Effect
import WordMachine.Step
import WordMachine.Run
import WordMachine.Debugger
import WordMachine.Recorder
import WordMachine.Text.Hex
import WordMachine.Snapshot.Encoding
import WordMachine.Digest.Blake3
import WordMachine.Digest.Crc32
import WordMachine.Archive.Bits
import WordMachine.Archive.PrefixCode
import WordMachine.Archive.Deflate
import WordMachine.Archive.Zip.Record
import WordMachine.Archive.Zip.ExtraField
import WordMachine.Archive.Zip.Directory
import WordMachine.Archive.Zip
import WordMachine.Snapshot.Archive
import WordMachine.Json.Token
import WordMachine.Json.Skip
import WordMachine.Json.Value
import WordMachine.RunConfig.Reader
import WordMachine.Inspector.Style
import WordMachine.Inspector.FileTree
import WordMachine.Inspector.Arguments
import WordMachine.Inspector.Report
import WordMachine.Registry
import WordMachine.Main
import WordMachine.Proofs.Operation
import WordMachine.Proofs.Snapshot.Future
import WordMachine.Proofs.Effect.Meaning
import WordMachine.Proofs.Step.Outcome
import WordMachine.Proofs.Archive.Single
import WordMachine.Proofs.Snapshot.RoundTrip
import WordMachine.Proofs.Snapshot.Restore
import WordMachine.Proofs.Effect.Kind
import WordMachine.Proofs.Memory.Cells
import WordMachine.Proofs.Step.Advance
import WordMachine.Proofs.Step.Failure
import WordMachine.Proofs.Run.Ending
import WordMachine.Proofs.Step.Feeding
import WordMachine.Proofs.Run.Feeding
import WordMachine.Proofs.Run.Checkpoint
import WordMachine.Proofs.Run.Watched
import WordMachine.Proofs.Effect.Watching
import WordMachine.Proofs.Run.Secrecy
import WordMachine.Proofs.Snapshot.Grammar
import WordMachine.Proofs.Memory.Fetch
import WordMachine.Proofs.Snapshot.Address
import WordMachine.Proofs.Run.Limit
import WordMachine.Proofs.Run.Scripted
import WordMachine.Proofs.Snapshot.Truncation
import WordMachine.Proofs.Run.Suspension
import WordMachine.Proofs.Effect.Guarded
import WordMachine.Proofs.Step.Bounds
import WordMachine.Proofs.Memory.Sweep
import WordMachine.Proofs.Inspector.Save
import WordMachine.Proofs.Run.Chronicle
import WordMachine.Proofs.Run.Input
import WordMachine.Proofs.Run.Output
import WordMachine.Proofs.Inspector.Line
import WordMachine.Proofs.Step.Footprint
import WordMachine.Proofs.Run.Bracket
import WordMachine.Proofs.Image.Grammar
import WordMachine.Proofs.Image.Formats
import WordMachine.Proofs.Listing.Wording
import WordMachine.Proofs.Inspector.Printed
import WordMachine.Proofs.Inspector.Styled
import WordMachine.Proofs.Inspector.Dump
import WordMachine.Proofs.Inspector.Exit
import WordMachine.Proofs.LineHistory
import WordMachine.Proofs.Step.Range
import WordMachine.Proofs.Step.Conditional
import WordMachine.Proofs.Run.Patching
import WordMachine.Proofs.Run.Inversion
import WordMachine.Proofs.Memory.Overrun
import WordMachine.Proofs.Effect.Noting
import WordMachine.Proofs.Run.LastHit

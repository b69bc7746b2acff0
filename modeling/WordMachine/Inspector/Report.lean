import WordMachine.Inspector.Arguments
import WordMachine.Inspector.FileTree
import WordMachine.Inspector.Style
import WordMachine.Snapshot.Archive

/-!
What the inspector prints for a command, over files that are looked up by their path.
-/

namespace WordMachine.Inspector

inductive Failure where
  | unreadable (path : String) (fault : FileFault)
  | notText (path : String) (fault : Text.Utf8.Fault)
  | badImage (path : String) (error : ImageError)
  | badSave (path : String) (error : SnapshotError)
  | undecodable (addr : Word) (fault : Fault)
  | noAddress (error : EncodingError)
deriving DecidableEq

namespace Failure

def causesOfSnapshotError : SnapshotError → List String
  | error@(.archive cause) => [error.message, cause.message]
  | .encoding error => [error.message]

/-- What went wrong and why, each cause before its own. -/
def causes : Failure → List String
  | unreadable path fault => ["read " ++ path, fault.message]
  | notText path fault => [path ++ " is not utf-8 text", fault.message]
  | badImage path error => ["parse " ++ path, error.message]
  | badSave path error => ("parse " ++ path) :: causesOfSnapshotError error
  | undecodable addr fault => ["decode at " ++ addr.toNat.repr, fault.message]
  | noAddress error => [error.message]

def message (f : Failure) : String := "error: " ++ ": ".intercalate f.causes

/-- Two for a fault of the input, one for any other. -/
def exitCode : Failure → Nat
  | noAddress _ => 1
  | _ => 2

end Failure

/-- The paths that a command may look up. -/
def Command.paths : Command → List String
  | dump image _ _ => [image]
  | decode image _ => [image]
  | save archive image _ => archive :: image.toList

def readFile (files : Files) (path : String) : Except Failure (List UInt8) :=
  (files path).mapError (Failure.unreadable path)

def loadMachine (files : Files) (text : Bool) (path : String) : Except Failure Machine := do
  let bytes ← readFile files path
  if text then
    let text ← (Text.Utf8.decode bytes).mapError (Failure.notText path)
    (Machine.ofText text).mapError (Failure.badImage path)
  else (Machine.ofBytes bytes).mapError (Failure.badImage path)

def lines (ls : List String) : String := ls.foldl (fun out line => out ++ line ++ "\n") ""

def listingText (style : Style) (json : Bool) (entries : List Listing) : String :=
  if json then (Json.array (entries.map Listing.json)).pretty ++ "\n"
  else lines (entries.map (Listing.line style))

def entryText (style : Style) (json : Bool) (entry : Listing) : String :=
  (if json then entry.json.compact else entry.line style) ++ "\n"

/-- Numbers in brackets, with commas between them. -/
def numbers (ws : List Word) : String :=
  "[" ++ ", ".intercalate (ws.map fun w => w.toNat.repr) ++ "]"

def saveJson (s : Snapshot) (address : String) (entries : List Listing) : Json :=
  .object [
    ("changed", .natural s.changed.size),
    ("cid", .string address),
    ("echo", .string s.echo),
    ("input", .string s.input),
    ("listing", .array (entries.map Listing.json)),
    ("output", .string s.output),
    ("pc", .natural s.pc.toNat),
    ("registers", .array (s.registers.toList.map fun w => .natural w.toNat)),
    ("stack", .array (s.stack.toList.map fun w => .natural w.toNat))]

def saveLines (style : Style) (s : Snapshot) (address : String) (entries : List Listing) :
    List String :=
  [style.bold "cid:" ++ " " ++ address,
    style.bold "pc:" ++ " " ++ s.pc.toNat.repr,
    style.bold "registers:" ++ " " ++ numbers s.registers.toList,
    style.bold "stack:" ++ " " ++ numbers s.stack.toList,
    style.bold "changed:" ++ " " ++ s.changed.size.repr ++ " cells",
    style.bold "pending input:" ++ " " ++ Text.Quoted.string s.input,
    style.bold "output buffer:" ++ " " ++ Text.Quoted.string s.output] ++
    entries.map (Listing.line style)

/-- The entries from the saved program counter on, in the memory that the save restores. -/
def saveListing (files : Files) (text : Bool) (s : Snapshot) (window : Nat) :
    Option String → Except Failure (List Listing)
  | none => return []
  | some path => do
    let m ← loadMachine files text path
    return (m.restore s).memory.listing s.pc (some window)

/-- What a command prints. -/
def report (files : Files) (color : Bool) (invocation : Invocation) : Except Failure String := do
  let style := Style.ofColor color
  match invocation.command with
  | .dump image start count =>
    let m ← loadMachine files invocation.text image
    return listingText style invocation.json (m.memory.listing start count)
  | .decode image addr =>
    let m ← loadMachine files invocation.text image
    let i ← (m.memory.instructionAt addr).mapError (Failure.undecodable addr)
    return entryText style invocation.json (.instruction i)
  | .save archive image window =>
    let bytes ← readFile files archive
    let s ← (Snapshot.ofArchive bytes).mapError (Failure.badSave archive)
    let address ← s.contentAddress.mapError Failure.noAddress
    let entries ← saveListing files invocation.text s window image
    if invocation.json then return (saveJson s address entries).pretty ++ "\n"
    else return lines (saveLines style s address entries)

/-- The code with which the inspector ends: zero if there was something to print. -/
def exitCode : Except Failure String → Nat
  | .ok _ => 0
  | .error failure => failure.exitCode

end WordMachine.Inspector

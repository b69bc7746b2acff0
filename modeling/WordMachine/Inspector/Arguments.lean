import WordMachine.Text.Numeral
import WordMachine.Word

/-!
The inspector's command line. Flags for all commands may stand before or behind the command's name;
each command has options with one value and positional arguments; `--` makes the rest positional.
A value is checked when the argument after it begins or the line ends, and the environment is
consulted after the whole line is read, before missing arguments are noticed.
-/

namespace WordMachine.Inspector

/-- Why a command line is not carried out. -/
inductive Usage where
  | help
  | version
  | nothingGiven
  | missingCommand
  | unknownCommand
  | unknownArgument
  | missingArgument
  | repeatedArgument
  /-- A value behind a flag that takes none. -/
  | unneededValue
  /-- An option without its value, or an environment switch that is neither true nor false. -/
  | invalidValue
  /-- A value that is not a number of the allowed range. -/
  | outOfRange
deriving DecidableEq

namespace Usage

def exitCode : Usage → Nat
  | help | version => 0
  | _ => 2

def message : Usage → String
  | help | nothingGiven =>
    "usage: [--text] [--json] dump IMAGE [--from ADDR] [--count N]\n" ++
    "       [--text] [--json] decode IMAGE ADDR\n" ++
    "       [--text] [--json] save SAVE [--image IMAGE] [--window N]"
  | version => "0.1.0"
  | missingCommand => "error: a command is needed"
  | unknownCommand => "error: no such command"
  | unknownArgument => "error: unexpected argument"
  | missingArgument => "error: an argument is missing"
  | repeatedArgument => "error: an argument is given twice"
  | unneededValue => "error: a flag takes no value"
  | invalidValue => "error: an option lacks its value, or a switch is neither true nor false"
  | outOfRange => "error: not a number of the allowed range"

end Usage

structure Environment where
  /-- The image to use where none is given. -/
  image : Option String := none
  /-- `true` if images are text. -/
  textImage : Option String := none

inductive Command where
  | dump (image : String) (start : Word) (count : Option Nat)
  | decode (image : String) (addr : Word)
  | save (archive : String) (image : Option String) (window : Nat)
deriving DecidableEq

structure Invocation where
  text : Bool
  json : Bool
  command : Command
deriving DecidableEq

/-- The kinds of values that arguments take. -/
inductive ValueKind where
  | path
  | address
  | count
deriving DecidableEq

namespace ValueKind

/-- An address may also be written as minus zero. -/
def address? (text : String) : Option Word :=
  let cs := text.toList
  let cs := if cs.head? = some '-' ∧ cs.tail.all (· == '0') then cs.tail else cs
  (Text.Numeral.read? 65535 cs).map UInt16.ofNat

def count? (text : String) : Option Nat := Text.Numeral.read? (UInt64.size - 1) text.toList

def accepts (kind : ValueKind) (text : String) : Bool :=
  match kind with
  | path => true
  | address => (address? text).isSome
  | count => (count? text).isSome

end ValueKind

inductive Name where
  | image | start | count | addr | archive | window
deriving DecidableEq

namespace Name

def kind : Name → ValueKind
  | image | archive => .path
  | start | addr => .address
  | count | window => .count

end Name

inductive Flag where
  | text
  | json
deriving DecidableEq

/-- What a command's own arguments are. -/
inductive CommandName where
  | dump
  | decode
  | save
deriving DecidableEq

namespace CommandName

def ofText? : String → Option CommandName
  | "dump" => some dump
  | "decode" => some decode
  | "save" => some save
  | _ => none

def positionals : CommandName → List Name
  | dump => [.image]
  | decode => [.image, .addr]
  | save => [.archive]

def option? : CommandName → String → Option Name
  | dump, "from" => some .start
  | dump, "count" => some .count
  | save, "image" => some .image
  | save, "window" => some .window
  | _, _ => none

end CommandName

def flag? : String → Option Flag
  | "text" => some .text
  | "json" => some .json
  | _ => none

/-- The part of a line that is read: flags, values, and an argument whose value is still to come or
to be checked. -/
structure Reading where
  flags : List Flag := []
  values : List (Name × String) := []
  pending : Option (Name × Option String) := none
  positionals : List Name
  /-- `--` has been read. -/
  escaped : Bool := false

namespace Reading

/-- Takes over a value. -/
def store (r : Reading) (name : Name) (value : String) : Except Usage Reading :=
  if (r.values.lookup name).isSome then .error .repeatedArgument
  else if name.kind.accepts value then .ok { r with values := r.values ++ [(name, value)] }
  else .error .outOfRange

/-- Checks the argument that waits. -/
def settle (r : Reading) : Except Usage Reading :=
  match r.pending with
  | none => .ok r
  | some (_, none) => .error .invalidValue
  | some (name, some value) => { r with pending := none }.store name value

def raise (r : Reading) (flag : Flag) : Except Usage Reading := do
  let r ← r.settle
  if flag ∈ r.flags then .error .repeatedArgument else .ok { r with flags := flag :: r.flags }

def help (r : Reading) : Except Usage Reading := do
  let _ ← r.settle
  .error .help

/-- Reads `--name` or `--name=value`. -/
def long (r : Reading) (command : CommandName) (name : String) (value : Option String) :
    Except Usage Reading :=
  if name = "help" then if value.isSome then .error .unneededValue else r.help
  else match flag? name, command.option? name, value with
    | some _, _, some _ => .error .unneededValue
    | some flag, _, none => r.raise flag
    | none, some name, some value => do (← r.settle).store name value
    | none, some name, none => do
      let r ← r.settle
      .ok { r with pending := some (name, none) }
    | none, none, _ => .error .unknownArgument

def positional (r : Reading) (word : String) : Except Usage Reading :=
  match r.positionals with
  | [] => .error .unknownArgument
  | name :: rest => do
    let r ← r.settle
    .ok { r with pending := some (name, some word), positionals := rest }

/-- Cuts the name of a long option from the value behind the equals sign. -/
def cutLong (cs : List Char) : String × Option String :=
  (String.ofList (cs.takeWhile (· != '=')),
    (cs.dropWhile (· != '=')).tail?.map String.ofList)

/-- Reads one word of the line. -/
def next (command : CommandName) (r : Reading) (word : String) : Except Usage Reading :=
  if r.escaped then r.positional word
  else match word.toList, r.pending with
    | ['-', '-'], _ => .ok { r with escaped := true }
    | '-' :: '-' :: name, _ =>
      let (name, value) := cutLong name
      r.long command name value
    | '-' :: 'h' :: _, _ => r.help
    | '-' :: _ :: _, _ => .error .unknownArgument
    | _, some (name, none) => .ok { r with pending := some (name, some word) }
    | _, _ => r.positional word

end Reading

namespace Environment

/-- The switch for text images, unless the line sets it. -/
def textSwitch (env : Environment) (given : Bool) : Except Usage Bool :=
  if given then .ok true
  else match env.textImage with
    | none => .ok false
    | some "true" => .ok true
    | some "false" => .ok false
    | some _ => .error .invalidValue

end Environment

/-- The command that a read line names, if no argument is missing. -/
def command? (name : CommandName) (env : Environment) (values : List (Name × String)) :
    Option Command :=
  let value := fun name => values.lookup name
  let image := value .image <|> env.image
  match name with
  | .dump => do
    return .dump (← image) ((value .start >>= ValueKind.address?).getD 0)
      (value .count >>= ValueKind.count?)
  | .decode => do return .decode (← image) (← value .addr >>= ValueKind.address?)
  | .save => do
    return .save (← value .archive) image ((value .window >>= ValueKind.count?).getD 8)

/-- Reads the words behind a command's name. `flags` are those that stand before it. -/
def readCommand (env : Environment) (flags : List Flag) (name : CommandName) (words : List String) :
    Except Usage Invocation := do
  let r ← words.foldlM (Reading.next name) { positionals := name.positionals }
  let r ← r.settle
  let text ← env.textSwitch (.text ∈ r.flags)
  match command? name env r.values with
  | none => .error .missingArgument
  | some command =>
    let textBefore ← env.textSwitch (.text ∈ flags)
    return { text := text || textBefore, json := .json ∈ r.flags || .json ∈ flags, command }

/-- Help is shown for the names of commands only. -/
def readHelp : List String → Usage
  | [] | ["help"] => .help
  | [name] => if (CommandName.ofText? name).isSome then .help else .unknownCommand
  | _ => .unknownCommand

/-- Reads the flags before a command's name. -/
def readLong (flags : List Flag) (name : String) (value : Option String) :
    Except Usage (List Flag) :=
  if name = "help" ∨ name = "version" then
    .error (if value.isSome then .unneededValue else if name = "help" then .help else .version)
  else match flag? name, value with
    | none, _ => .error .unknownArgument
    | some _, some _ => .error .unneededValue
    | some flag, none => if flag ∈ flags then .error .repeatedArgument else .ok (flag :: flags)

/-- The end of a line without a command. -/
def withoutCommand (env : Environment) (flags : List Flag) : Except Usage Invocation := do
  let _ ← env.textSwitch (.text ∈ flags)
  .error (if flags.isEmpty && env.textImage.isNone then .nothingGiven else .missingCommand)

/-- Reads a line from the given flags on. -/
def readFrom (env : Environment) (flags : List Flag) : List String → Except Usage Invocation
  | [] => withoutCommand env flags
  | word :: words =>
    match CommandName.ofText? word with
    | some name => readCommand env flags name words
    | none =>
      if word = "help" then .error (readHelp words)
      else match word.toList with
        | ['-', '-'] =>
          match words with
          | [] => withoutCommand env flags
          | word :: _ =>
            .error (if word = "help" || (CommandName.ofText? word).isSome then .unknownArgument
              else .unknownCommand)
        | '-' :: '-' :: name => do
          let (name, value) := Reading.cutLong name
          readFrom env (← readLong flags name value) words
        | '-' :: 'h' :: _ => .error .help
        | '-' :: 'V' :: _ => .error .version
        | '-' :: _ :: _ => .error .unknownArgument
        | _ => .error .unknownCommand

def read (env : Environment) (words : List String) : Except Usage Invocation :=
  readFrom env [] words

end WordMachine.Inspector

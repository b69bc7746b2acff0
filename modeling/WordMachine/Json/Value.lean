/-!
JSON values of the kinds that the listings use, and their text: on one line, or with a line for each
item and two blanks for each level. The fields of an object are written in the order given.
-/

namespace WordMachine

inductive Json where
  | natural (value : Nat)
  | string (text : String)
  | array (items : List Json)
  | object (fields : List (String × Json))

namespace Json

def hexDigits4 (n : Nat) : String :=
  String.ofList ((Nat.toDigits 16 n).leftpad 4 '0')

def escape (c : Char) : String :=
  match c with
  | '"' => "\\\""
  | '\\' => "\\\\"
  | '\x08' => "\\b"
  | '\x0c' => "\\f"
  | '\n' => "\\n"
  | '\r' => "\\r"
  | '\t' => "\\t"
  | c => if c.toNat < 0x20 then "\\u" ++ hexDigits4 c.toNat else c.toString

def quote (text : String) : String :=
  "\"" ++ text.foldl (fun out c => out ++ escape c) "" ++ "\""

/-- How the parts of an array or object are set apart. -/
structure Layout where
  /-- Before an item, at the given level. -/
  line : Nat → String
  /-- Between a name and its value. -/
  colon : String

namespace Layout

def compact : Layout := ⟨fun _ => "", ":"⟩

def pretty : Layout := ⟨fun level => "\n".pushn ' ' (2 * level), ": "⟩

end Layout

mutual

/-- Writes a value behind the text so far. -/
def write (layout : Layout) (level : Nat) (out : String) : Json → String
  | natural value => out ++ value.repr
  | string text => out ++ quote text
  | array [] => out ++ "[]"
  | array (item :: items) =>
    let out := write layout (level + 1) (out ++ "[" ++ layout.line (level + 1)) item
    writeItems layout (level + 1) out items ++ layout.line level ++ "]"
  | object [] => out ++ "\x7b\x7d"
  | object ((name, value) :: fields) =>
    let out := out ++ "\x7b" ++ layout.line (level + 1) ++ quote name ++ layout.colon
    let out := write layout (level + 1) out value
    writeFields layout (level + 1) out fields ++ layout.line level ++ "\x7d"

def writeItems (layout : Layout) (level : Nat) (out : String) : List Json → String
  | [] => out
  | item :: items =>
    writeItems layout level (write layout level (out ++ "," ++ layout.line level) item) items

def writeFields (layout : Layout) (level : Nat) (out : String) : List (String × Json) → String
  | [] => out
  | (name, value) :: fields =>
    let out := out ++ "," ++ layout.line level ++ quote name ++ layout.colon
    writeFields layout level (write layout level out value) fields

end

def compact (value : Json) : String := write .compact 0 "" value

def pretty (value : Json) : String := write .pretty 0 "" value

end Json

end WordMachine

import WordMachine.Json.Value
import WordMachine.Listing
import WordMachine.Text.Blank
import WordMachine.Text.Cut

/-!
Listing entries as the inspector prints them: as lines, plain or with terminal styles, and as JSON.
-/

namespace WordMachine

/-- What is put around the parts of a line. -/
structure Style where
  dim : String → String
  bold : String → String
  yellow : String → String

namespace Style

def plain : Style := ⟨id, id, id⟩

/-- Switches a terminal style on before a text and all styles off behind it. -/
def sequence (code : String) (text : String) : String :=
  "\x1b[" ++ code ++ "m" ++ text ++ "\x1b[0m"

def terminal : Style := ⟨sequence "2", sequence "1", sequence "33"⟩

def ofColor (color : Bool) : Style := if color then terminal else plain

end Style

namespace Listing

/-- The entry's text with its address dimmed, its mnemonic bold, and a data word yellow. The parts
of an instruction are found in its text by what stands between them, and no line ends with a
blank. -/
def line (style : Style) : Listing → String
  | instruction i =>
    match Text.cut? [':', ' '] i.text.toList with
    | some (address, rest) =>
      let (mnemonic, tail) := (Text.cut? [' '] rest).getD (rest, [])
      let parts := style.dim (String.ofList address) ++ ": " ++
        style.bold (String.ofList mnemonic) ++ " " ++ String.ofList tail
      String.ofList (Text.trimEnd parts.toList)
    | none => i.text
  | data addr word =>
    style.dim (Text.Numeral.flushRight 5 addr.toNat) ++ ": " ++
      style.yellow (".word " ++ word.toNat.repr)

def operandJson (w : Word) : Json :=
  match Operand.ofWord? w with
  | some (.literal value) => .object [("literal", .natural value.toNat)]
  | some (.register r) => .object [("register", .natural r.val)]
  | none => .object [("invalid", .natural w.toNat)]

def json : Listing → Json
  | instruction i =>
    .object [("addr", .natural i.addr.toNat), ("op", .string i.opcode.mnemonic),
      ("operands", .array (i.operands.toList.map operandJson))]
  | data addr word => .object [("addr", .natural addr.toNat), ("word", .natural word.toNat)]

end Listing

end WordMachine

import WordMachine.Text.Printable
import WordMachine.Text.Extender
import WordMachine.Text.Ignorable

/-!
Quoted text as messages show it. The quote itself and the backslash are escaped, five control
characters have short names, and what a reader could not see or tell apart is written as its number.
Of the visible ASCII characters none is (`escape_of_visible`).
-/

namespace WordMachine.Text.Quoted

/-- Written by number: what is not printable, what shows as nothing, and what would join the quote
before it. -/
def needsNumber (c : Char) : Bool := isExtender c || isIgnorable c || !isPrintable c

/-- The number of a character in lower-case hexadecimal. -/
def byNumber (c : Char) : String :=
  "\\u\x7b" ++ String.ofList (Nat.toDigits 16 c.toNat) ++ "\x7d"

def escape (quote c : Char) : String :=
  match c with
  | '\x00' => "\\0"
  | '\t' => "\\t"
  | '\r' => "\\r"
  | '\n' => "\\n"
  | '\\' => "\\\\"
  | c => if c = quote then "\\" ++ c.toString else if needsNumber c then byNumber c else c.toString

def char (c : Char) : String := "'" ++ escape '\'' c ++ "'"

def string (s : String) : String :=
  "\"" ++ s.foldl (fun text c => text ++ escape '"' c) "" ++ "\""

theorem any_eq_false_of_visible {table : Array (Nat × Nat)} {n : Nat} (above : 0x20 ≤ n)
    (below : n < 0x7f) (apart : table.toList.all fun range => range.2 < 0x20 || 0x7f ≤ range.1) :
    (table.any fun range => range.1 ≤ n && n ≤ range.2) = false := by
  rw [← Array.any_toList, List.any_eq_false]
  intro range among
  have outside : range.2 < 0x20 ∨ 0x7f ≤ range.1 := by
    simpa using List.all_eq_true.1 apart range among
  simp
  omega

variable {quote c : Char}

theorem needsNumber_of_visible (above : 0x20 ≤ c.toNat) (below : c.toNat < 0x7f) :
    needsNumber c = false := by
  have extender : isExtender c = false := any_eq_false_of_visible above below (by decide +kernel)
  have ignorable : isIgnorable c = false := any_eq_false_of_visible above below (by decide +kernel)
  have printable : isPrintable c = true := by
    rw [isPrintable, any_eq_false_of_visible above below (by decide +kernel), Bool.not_false]
  rw [needsNumber, extender, ignorable, printable]
  rfl

theorem escape_of_visible (above : 0x20 ≤ c.toNat) (below : c.toNat < 0x7f) :
    escape quote c = if c = '\\' ∨ c = quote then "\\" ++ c.toString else c.toString := by
  unfold escape
  split
  case h_5 => rfl
  case h_6 unlike =>
    have other : c ≠ '\\' := unlike
    simp only [needsNumber_of_visible above below, other, false_or]
    rfl
  all_goals exact absurd above (by decide)

end WordMachine.Text.Quoted

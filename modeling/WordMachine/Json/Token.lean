/-!
The tokens of JSON text. A string is kept as its text, or as no text where its escapes name half a
surrogate pair; a number is kept as its value if it is written as a natural number.
-/

namespace WordMachine.Json

inductive Token where
  | openBrace | closeBrace | openBracket | closeBracket | colon | comma
  | null
  | bool (value : Bool)
  | number (natural : Option Nat)
  | string (text : Option String)
deriving DecidableEq

namespace Token

def isSpace (c : Char) : Bool := c == ' ' || c == '\n' || c == '\t' || c == '\r'

def isDigit (c : Char) : Bool := '0' ≤ c && c ≤ '9'

def hexValue? (c : Char) : Option Nat :=
  if isDigit c then some (c.toNat - '0'.toNat)
  else if 'a' ≤ c ∧ c ≤ 'f' then some (c.toNat - 'a'.toNat + 10)
  else if 'A' ≤ c ∧ c ≤ 'F' then some (c.toNat - 'A'.toNat + 10)
  else none

def unit? (a b c d : Char) : Option Nat := do
  return ((16 * (← hexValue? a) + (← hexValue? b)) * 16 + (← hexValue? c)) * 16 + (← hexValue? d)

/-- The character of a one-letter escape. -/
def escaped? : Char → Option Char
  | '"' => some '"'
  | '\\' => some '\\'
  | '/' => some '/'
  | 'b' => some '\x08'
  | 'f' => some '\x0c'
  | 'n' => some '\n'
  | 'r' => some '\r'
  | 't' => some '\t'
  | _ => none

/-- The characters of a string so far, last one first, and the leading half of a surrogate pair that
waits for the other. -/
structure Reading where
  text : Option (List Char) := some []
  lead : Option Nat := none

namespace Reading

/-- A lead that is not followed by its other half spoils the text. -/
def settle (r : Reading) : Reading := if r.lead.isSome then { text := none } else r

def char (r : Reading) (c : Char) : Reading :=
  let r := r.settle
  { r with text := r.text.map (c :: ·) }

/-- A numbered escape: a character, or half of a pair. -/
def unit (r : Reading) (n : Nat) : Reading :=
  if 0xdc00 ≤ n ∧ n < 0xe000 then
    match r.lead with
    | some lead =>
      let c := Char.ofNat (0x10000 + (lead - 0xd800) * 0x400 + (n - 0xdc00))
      { text := r.text.map (c :: ·) }
    | none => { text := none }
  else
    let r := r.settle
    if 0xd800 ≤ n ∧ n < 0xdc00 then { r with lead := some n } else r.char (Char.ofNat n)

def finish (r : Reading) : Option String := r.settle.text.map fun cs => String.ofList cs.reverse

end Reading

/-- Reads the rest of a string and what follows it. -/
def string? (r : Reading) : List Char → Option (Option String × List Char)
  | '"' :: rest => some (r.finish, rest)
  | '\\' :: 'u' :: a :: b :: c :: d :: rest =>
    match unit? a b c d with
    | some n => string? (r.unit n) rest
    | none => none
  | '\\' :: e :: rest =>
    match escaped? e with
    | some c => string? (r.char c) rest
    | none => none
  | c :: rest => if c = '\\' ∨ c.toNat < 0x20 then none else string? (r.char c) rest
  | [] => none

/-- Splits off at least one digit. -/
def digits? (cs : List Char) : Option (List Char × List Char) :=
  if (cs.takeWhile isDigit).isEmpty then none
  else some (cs.takeWhile isDigit, cs.dropWhile isDigit)

/-- Drops a fraction, if there is one, and says whether there was. -/
def fraction? : List Char → Option (Bool × List Char)
  | '.' :: rest => (digits? rest).map fun (_, rest) => (true, rest)
  | rest => some (false, rest)

def isSign (c : Char) : Bool := c == '+' || c == '-'

/-- Drops an exponent, if there is one, and says whether there was. -/
def exponent? : List Char → Option (Bool × List Char)
  | c :: rest =>
    if c = 'e' ∨ c = 'E' then
      let unsigned := if (rest.take 1).any isSign then rest.drop 1 else rest
      (digits? unsigned).map fun (_, rest) => (true, rest)
    else some (false, c :: rest)
  | [] => some (false, [])

def naturalOf (digits : List Char) : Nat :=
  digits.foldl (fun n c => 10 * n + (c.toNat - '0'.toNat)) 0

/-- Reads a number without its sign. A leading zero stands alone. -/
def number? (cs : List Char) : Option (Option Nat × List Char) := do
  let (digits, rest) ← digits? cs
  guard (digits.head? ≠ some '0' ∨ digits.length = 1)
  let (fraction, rest) ← fraction? rest
  let (exponent, rest) ← exponent? rest
  return (if fraction || exponent then none else some (naturalOf digits), rest)

/-- Reads a token that starts with the given character. -/
def next? (c : Char) (rest : List Char) : Option (Token × List Char) :=
  match c with
  | '\x7b' => some (openBrace, rest)
  | '\x7d' => some (closeBrace, rest)
  | '[' => some (openBracket, rest)
  | ']' => some (closeBracket, rest)
  | ':' => some (colon, rest)
  | ',' => some (comma, rest)
  | '"' => (string? {} rest).map fun (text, rest) => (string text, rest)
  | '-' => (number? rest).map fun (_, rest) => (number none, rest)
  | c =>
    if isDigit c then (number? (c :: rest)).map fun (natural, rest) => (number natural, rest)
    else if "null".toList.isPrefixOf (c :: rest) then some (null, rest.drop 3)
    else if "true".toList.isPrefixOf (c :: rest) then some (bool true, rest.drop 3)
    else if "false".toList.isPrefixOf (c :: rest) then some (bool false, rest.drop 4)
    else none

/-- Reads all tokens, at most one for each unit of the budget, behind those already read. -/
def allOnto (read : List Token) : (budget : Nat) → List Char → Option (List Token)
  | 0, cs => if cs.isEmpty then some read.reverse else none
  | budget + 1, cs =>
    match cs.dropWhile isSpace with
    | [] => some read.reverse
    | c :: rest =>
      match next? c rest with
      | some (token, rest) => allOnto (token :: read) budget rest
      | none => none

/-- A token takes at least one character. -/
def all? (text : String) : Option (List Token) := allOnto [] text.length text.toList

end Token

end WordMachine.Json

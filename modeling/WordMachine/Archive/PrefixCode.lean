import WordMachine.Archive.Bits

/-!
Canonical prefix codes, given by the code length of each symbol. Codes of one length are consecutive
numbers in the order of their symbols, and come after all shorter codes.
-/

namespace WordMachine.Deflate

structure Code where
  /-- How many codes there are of length 1, 2 and so on. -/
  counts : List Nat
  /-- The symbols in the order of their codes. -/
  symbols : Array Nat

namespace Code

def maxLength : Nat := 15

/-- The number of codes left free after all lengths, or `none` if there are more codes than room. -/
def room (counts : List Nat) : Option Nat :=
  counts.foldlM (fun free count => if count ≤ 2 * free then some (2 * free - count) else none) 1

/-- Whether the codes use up all room. -/
def isComplete (code : Code) : Bool := room code.counts == some 0

/-- A set of codes must be complete, unless it has no code at all or a single one of length one. -/
def ofLengths? (lengths : List Nat) : Option Code :=
  let sizes := (List.range maxLength).map (· + 1)
  let counts := sizes.map fun n => lengths.count n
  let symbols := sizes.flatMap fun n => (lengths.zipIdx.filter (·.1 = n)).map Prod.snd
  let code : Code := ⟨counts, symbols.toArray⟩
  let single := symbols.length == 1 && lengths.contains 1
  if code.isComplete || symbols.isEmpty || single then some code else none

/-- Reads a code bit by bit. `value` is what is read so far, `first` the first code of that length,
and `index` the place of its symbol. -/
def symbolFrom (symbols : Array Nat) : (counts : List Nat) → (value first index : Nat) → Inflate Nat
  | [], _, _, _ => throw .corrupt
  | count :: counts, value, first, index => do
    let value := 2 * value + (← bit)
    if value < first + count then
      match symbols[index + (value - first)]? with
      | some symbol => return symbol
      | none => throw .corrupt
    else symbolFrom symbols counts value (2 * (first + count)) (index + count)

def symbol (code : Code) : Inflate Nat := symbolFrom code.symbols code.counts 0 0 0

end Code

end WordMachine.Deflate

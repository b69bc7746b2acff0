import WordMachine.Word

/-!
The instruction catalogue: number, mnemonic and operand count of each of the 22 opcodes.
`ofWord?_word` says that an opcode is found again under its number.
-/

namespace WordMachine

inductive Opcode where
  | halt | set | push | pop | eq | gt | jump | jumpIf | jumpUnless
  | add | mult | mod | and | or | not | load | store | call | ret | output | input | noop
deriving DecidableEq

namespace Opcode

/-- Every opcode, each at the position of its number. -/
def all : Array Opcode :=
  #[halt, set, push, pop, eq, gt, jump, jumpIf, jumpUnless, add, mult, mod, and, or, not,
    load, store, call, ret, output, input, noop]

def ofWord? (w : Word) : Option Opcode := all[w.toNat]?

def word : Opcode → Word
  | halt => 0
  | set => 1
  | push => 2
  | pop => 3
  | eq => 4
  | gt => 5
  | jump => 6
  | jumpIf => 7
  | jumpUnless => 8
  | add => 9
  | mult => 10
  | mod => 11
  | and => 12
  | or => 13
  | not => 14
  | load => 15
  | store => 16
  | call => 17
  | ret => 18
  | output => 19
  | input => 20
  | noop => 21

def mnemonic : Opcode → String
  | halt => "halt"
  | set => "set"
  | push => "push"
  | pop => "pop"
  | eq => "eq"
  | gt => "gt"
  | jump => "jmp"
  | jumpIf => "jt"
  | jumpUnless => "jf"
  | add => "add"
  | mult => "mult"
  | mod => "mod"
  | and => "and"
  | or => "or"
  | not => "not"
  | load => "rmem"
  | store => "wmem"
  | call => "call"
  | ret => "ret"
  | output => "out"
  | input => "in"
  | noop => "noop"

/-- The mnemonic with a capital, as messages give it. -/
def name (op : Opcode) : String := op.mnemonic.capitalize

def operandCount : Opcode → Nat
  | halt | ret | noop => 0
  | push | pop | jump | call | output | input => 1
  | set | jumpIf | jumpUnless | not | load | store => 2
  | eq | gt | add | mult | mod | and | or => 3

/-- Counts every word that the instruction occupies, the opcode included. -/
def arity (op : Opcode) : Nat := op.operandCount + 1

/-- Whether the instruction may go on elsewhere than at the next address. -/
def transfersControl : Opcode → Bool
  | jump | jumpIf | jumpUnless | call | ret => true
  | _ => false

@[simp]
theorem ofWord?_word (op : Opcode) : ofWord? op.word = some op := by
  cases op <;> rfl

theorem word_injective {op op' : Opcode} (h : op.word = op'.word) : op = op' := by
  have same : ofWord? op.word = ofWord? op'.word := by rw [h]
  simpa using same

theorem find?_mnemonic (op : Opcode) :
    all.toList.find? (fun other => other.mnemonic == op.mnemonic) = some op := by
  cases op <;> decide

theorem mnemonic_injective {op op' : Opcode} (h : op.mnemonic = op'.mnemonic) : op = op' := by
  have same := find?_mnemonic op
  rw [h, find?_mnemonic] at same
  exact (Option.some.inj same).symm

theorem operandCount_le (op : Opcode) : op.operandCount ≤ 3 := by
  cases op <;> decide

end Opcode

end WordMachine

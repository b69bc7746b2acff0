import WordMachine.Opcode
import WordMachine.Text.Quoted

/-!
The causes that end an execution without a halt, and their wording.
-/

namespace WordMachine

inductive Fault where
  | endOfProgram (pc : Word)
  | unknownOpcode (opcode pc : Word)
  | invalidOperand (op : Opcode) (word pc : Word)
  | invalidDestination (op : Opcode) (word pc : Word)
  | stackUnderflow (op : Opcode) (pc : Word)
  | divisionByZero (pc : Word)
  | invalidOutput (value pc : Word)
  | invalidInput (ch : Char) (pc : Word)
  | stopped (pc : Word)
  | stepLimit (limit : Nat)
deriving DecidableEq

namespace Fault

/-- The address of the faulting instruction. Running out of steps is no instruction's fault. -/
def pc? : Fault → Option Word
  | endOfProgram pc | unknownOpcode _ pc | invalidOperand _ _ pc | invalidDestination _ _ pc
  | stackUnderflow _ pc | divisionByZero pc | invalidOutput _ pc | invalidInput _ pc
  | stopped pc => some pc
  | stepLimit _ => none

def message : Fault → String
  | endOfProgram pc => s!"end of program at pc {pc.toNat}"
  | unknownOpcode opcode pc => s!"unknown opcode: {opcode.toNat} at pc {pc.toNat}"
  | invalidOperand op word pc =>
    s!"invalid operand word {word.toNat} for {op.name} at pc {pc.toNat}"
  | invalidDestination op word pc =>
    s!"invalid destination {word.toNat} for {op.name} at pc {pc.toNat}: not a register"
  | stackUnderflow op pc => s!"stack underflow for {op.name} at pc {pc.toNat}"
  | divisionByZero pc => s!"division by zero at pc {pc.toNat}"
  | invalidOutput value pc => s!"invalid output character {value.toNat} at pc {pc.toNat}"
  | invalidInput ch pc =>
    s!"input character {Text.Quoted.char ch} does not fit a machine word at pc {pc.toNat}"
  | stopped pc => s!"stopped by caller at pc {pc.toNat}"
  | stepLimit limit => s!"step limit of {limit} exhausted"

end Fault

end WordMachine

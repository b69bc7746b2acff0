import WordMachine.Fault
import WordMachine.Memory
import WordMachine.Text.Numeral

/-!
Instructions as they stand in memory: an opcode and its raw operand words. Decoding fails past the
extent of memory, on a word that is no opcode, and on an instruction cut off by the extent, in this
order.
-/

namespace WordMachine

structure Instruction where
  addr : Word
  opcode : Opcode
  operands : Vector Word opcode.operandCount
deriving DecidableEq

namespace Instruction

/-- The address after the last operand. An instruction at the very end has one past the memory. -/
def next (i : Instruction) : Nat := i.addr.toNat + i.opcode.arity

/-- The words of the instruction as memory holds them. -/
def words (i : Instruction) : List Word := i.opcode.word :: i.operands.toList

def operandText (w : Word) : String :=
  match Operand.ofWord? w with
  | some operand => operand.text
  | none => "<" ++ w.toNat.repr ++ ">"

/-- The character that an `output` with a plain literal prints. -/
def note? (i : Instruction) : Option Char :=
  match i.opcode, i.operands.toList with
  | .output, [w] => if w.isPlain then some (Char.ofNat w.toNat) else none
  | _, _ => none

/-- What follows the mnemonic: the operands, each after a blank, and the note. -/
def tailText (i : Instruction) : String :=
  let operands := i.operands.foldl (fun text w => text ++ " " ++ operandText w) ""
  match i.note? with
  | some ch => operands ++ "  ; " ++ Text.Quoted.char ch
  | none => operands

def text (i : Instruction) : String :=
  Text.Numeral.flushRight 5 i.addr.toNat ++ ": " ++ i.opcode.mnemonic ++ i.tailText

end Instruction

namespace Memory

def instructionAt (m : Memory) (addr : Word) : Except Fault Instruction :=
  if m.extent ≤ addr.toNat then .error (.endOfProgram addr)
  else match Opcode.ofWord? (m.read addr) with
    | none => .error (.unknownOpcode (m.read addr) addr)
    | some opcode =>
      if m.extent < addr.toNat + opcode.arity then .error (.endOfProgram addr)
      else .ok ⟨addr, opcode, Vector.ofFn fun i => m.read (addr + 1 + UInt16.ofNat i.val)⟩

end Memory

end WordMachine

/-!
Words, registers and operands. Every memory cell, register and stack slot holds a 16-bit word. In
operand position a word below 32768 is its own value, the next eight words name the registers, and
the rest name nothing. `word_of_ofWord?`, `ofWord?_literal` and `ofWord?_register` say that a valid
operand and its word determine each other; `get_set` is the law of a bank of registers.
-/

namespace WordMachine

abbrev Word := UInt16

namespace Word

/-- Arithmetic is modulo this number, the first word that is not a literal. -/
def modulus : Nat := 32768

def wrap (n : Nat) : Word := UInt16.ofNat (n % modulus)

/-- Flips the fifteen bits of the literal range and clears the bit above them. -/
def complement (w : Word) : Word := ~~~w &&& 0x7fff

/-- A newline or printable ASCII, seen as a character. -/
def isPlain (w : Word) : Bool := w == 10 || (32 ≤ w && w ≤ 126)

theorem toNat_wrap (n : Nat) : (wrap n).toNat = n % modulus := by
  have : n % modulus < modulus := Nat.mod_lt _ (by decide)
  simp only [wrap, modulus] at *
  exact UInt16.toNat_ofNat_of_lt' (by simp only [UInt16.size]; omega)

end Word

abbrev Reg := Fin 8

namespace Reg

def ofIndex? (index : Nat) : Option Reg :=
  if h : index < 8 then some ⟨index, h⟩ else none

/-- The word that names the register in operand position. -/
def word (r : Reg) : Word := UInt16.ofNat (Word.modulus + r.val)

def text (r : Reg) : String := "[" ++ r.val.repr ++ "]"

theorem toNat_word (r : Reg) : r.word.toNat = Word.modulus + r.val := by
  have := r.isLt
  simp only [word, Word.modulus]
  exact UInt16.toNat_ofNat_of_lt' (by simp only [UInt16.size]; omega)

end Reg

/-- One value for each register. -/
abbrev Bank (α : Type) := Vector α 8

namespace Bank

def fill (value : α) : Bank α := Vector.replicate 8 value

def get (b : Bank α) (r : Reg) : α := b[r]

def set (b : Bank α) (r : Reg) (value : α) : Bank α := Vector.set b r value

@[simp]
theorem get_fill (value : α) (r : Reg) : (fill value).get r = value := by
  simp [fill, get]

theorem get_set (b : Bank α) (r s : Reg) (value : α) :
    (b.set r value).get s = if r = s then value else b.get s := by
  simp only [get, set, Fin.getElem_fin, Vector.getElem_set, Fin.val_inj]

end Bank

abbrev Registers := Bank Word

inductive Operand where
  | literal (value : Word)
  | register (reg : Reg)
deriving DecidableEq

namespace Operand

def ofWord? (w : Word) : Option Operand :=
  if w.toNat < Word.modulus then some (literal w)
  else (Reg.ofIndex? (w.toNat - Word.modulus)).map register

def word : Operand → Word
  | literal value => value
  | register reg => reg.word

def resolve (registers : Registers) : Operand → Word
  | literal value => value
  | register reg => registers.get reg

def text : Operand → String
  | literal value => value.toNat.repr
  | register reg => reg.text

theorem word_of_ofWord? {w : Word} {o : Operand} (h : ofWord? w = some o) : o.word = w := by
  unfold ofWord? at h
  split at h
  · cases h
    rfl
  · rename_i hw
    simp only [Reg.ofIndex?] at h
    split at h
    · cases h
      apply UInt16.toNat_inj.1
      rw [word, Reg.toNat_word]
      simp only
      omega
    · simp at h

theorem ofWord?_register (r : Reg) : ofWord? r.word = some (register r) := by
  have := r.isLt
  simp [ofWord?, Reg.ofIndex?, Reg.toNat_word]

theorem ofWord?_literal {w : Word} (h : w.toNat < Word.modulus) :
    ofWord? w = some (literal w) := by
  simp [ofWord?, h]

end Operand

end WordMachine

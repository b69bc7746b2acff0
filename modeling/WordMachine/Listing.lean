import WordMachine.Instruction

/-!
Listings: memory shown as a sequence of instructions and data words. A sweep steps over each
instruction it can decode and shows any other word by itself.
-/

namespace WordMachine

inductive Listing where
  | instruction (i : Instruction)
  | data (addr word : Word)
deriving DecidableEq

namespace Listing

def addr : Listing → Word
  | instruction i => i.addr
  | data addr _ => addr

def isData : Listing → Bool
  | instruction _ => false
  | data _ _ => true

def text : Listing → String
  | instruction i => i.text
  | data addr word =>
    Text.Numeral.flushRight 5 addr.toNat ++ ": .word " ++ word.toNat.repr

end Listing

/-- A position in memory from which entries are taken. The position is not bounded by the address
space; its low 16 bits are the address shown. -/
structure Sweep where
  memory : Memory
  cursor : Nat

namespace Sweep

def next? (s : Sweep) : Option (Listing × Sweep) :=
  if s.memory.extent ≤ s.cursor then none
  else
    let addr := UInt16.ofNat s.cursor
    match s.memory.instructionAt addr with
    | .ok i => some (.instruction i, { s with cursor := i.next })
    | .error _ => some (.data addr (s.memory.read addr), { s with cursor := s.cursor + 1 })

/-- Adds the next entries, at most so many, to those already taken. -/
def takeOnto (taken : Array Listing) : Nat → Sweep → Array Listing
  | 0, _ => taken
  | n + 1, s =>
    match s.next? with
    | some (entry, s) => takeOnto (taken.push entry) n s
    | none => taken

def take (s : Sweep) (n : Nat) : List Listing := (takeOnto #[] n s).toList

/-- All entries of a sweep that ends. Its cursor takes each value below the extent at most once, so
there are no more entries than the extent. -/
def toList (s : Sweep) : List Listing := s.take s.memory.extent

end Sweep

namespace Memory

def sweep (m : Memory) (start : Word) : Sweep := ⟨m, start.toNat⟩

/-- The entries from an address on; with a count, at most so many. -/
def listing (m : Memory) (start : Word) (count : Option Nat) : List Listing :=
  match count with
  | some n => (m.sweep start).take n
  | none => (m.sweep start).toList

end Memory

end WordMachine

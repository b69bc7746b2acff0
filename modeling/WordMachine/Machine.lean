import WordMachine.Console
import WordMachine.Image
import WordMachine.Listing
import WordMachine.LineCursor
import WordMachine.Snapshot

/-!
The state of a machine, and what a caller may do to it between steps. `snapshot_restore` says that a
machine shows the snapshot it was restored to, less the changes that are no changes to its image.
-/

namespace WordMachine

/-- The latest conditional jump: its address, where it went, and where it would have gone. -/
structure Branch where
  addr : Word
  taken : Word
  other : Word
deriving DecidableEq

structure Machine where
  memory : Memory := Memory.empty
  registers : Registers := Bank.fill 0
  stack : Array Word := #[]
  pc : Word := 0
  console : Console := {}
  /-- The state after the latest input instruction that emptied the input queue. -/
  checkpoint : Option Snapshot := none
  branch : Option Branch := none

namespace Machine

instance : Inhabited Machine := ⟨{}⟩

/-- A machine at rest before an image that fits the address space. -/
def ofImage (words : List Word) : Except ImageError Machine :=
  (Image.checkSize words).map fun words => { memory := Memory.ofImage words }

def ofText (text : String) : Except ImageError Machine := Image.ofText text >>= ofImage

def ofBytes (bytes : List UInt8) : Except ImageError Machine := Image.ofBytes bytes >>= ofImage

def feed (m : Machine) (text : String) : Machine := { m with console := m.console.feed text }

def setPc (m : Machine) (pc : Word) : Machine := { m with pc }

def setRegister (m : Machine) (r : Reg) (value : Word) : Machine :=
  { m with registers := m.registers.set r value }

def write (m : Machine) (addr value : Word) : Machine :=
  { m with memory := m.memory.write addr value }

/-- A copy to try something on: the line history, the checkpoint and the branch stay behind. -/
def fork (m : Machine) : Machine :=
  { m with console := m.console.fork, checkpoint := none, branch := none }

def snapshot (m : Machine) : Snapshot where
  pc := m.pc
  registers := m.registers
  stack := m.stack
  changed := m.memory.changed
  input := m.console.input
  echo := m.console.echo
  output := m.console.output

/-- Goes to the snapshot's state over the image held now, and forgets all history. -/
def restore (m : Machine) (s : Snapshot) : Machine where
  memory := m.memory.replaceChanged s.changed
  registers := s.registers
  stack := s.stack
  pc := s.pc
  console := { pending := s.input.toList, echo := s.echo, output := s.output }

/-- Goes down the other arm of the latest conditional jump. What ran since keeps its effects. -/
def invertBranch? (m : Machine) : Option Machine :=
  m.branch.map fun b =>
    { m with pc := b.other, branch := some { b with taken := b.other, other := b.taken } }

def patchNoops (m : Machine) (addrs : List Word) : Machine :=
  addrs.foldl (fun m addr => m.write addr Opcode.noop.word) m

def linesFrom (m : Machine) (index : Nat) : List String :=
  ((⟨index⟩ : LineCursor).read m.console.lines).1

theorem snapshot_restore (m : Machine) (s : Snapshot) :
    (m.restore s).snapshot =
      { s with changed := (m.memory.replaceChanged s.changed).changed } := by
  simp [snapshot, restore, Console.input]

@[simp]
theorem feed_empty (m : Machine) : m.feed "" = m := by simp [feed]

theorem feed_eq (m : Machine) (text : String) :
    m.feed text =
      { m with console := { m.console with pending := m.console.pending ++ text.toList } } := by
  rw [feed, Console.feed_eq]

theorem feed_feed (m : Machine) (text more : String) :
    (m.feed text).feed more = m.feed (text ++ more) := by
  simp [feed_eq]

end Machine

end WordMachine

/-!
Reading bits from bytes, low bit first, while output gathers. Two things end a reading early: the
bits run out, or they make no sense.
-/

namespace WordMachine.Deflate

inductive Stop where
  | cut
  | corrupt
deriving DecidableEq

structure Stream where
  rest : List UInt8
  /-- How many bits of the first byte are used up. -/
  used : Nat := 0
  out : Array UInt8 := #[]

abbrev Inflate := EStateM Stop Stream

def bit : Inflate Nat := fun s =>
  match s.rest with
  | [] => .error .cut s
  | b :: rest =>
    let value := (b.toNat >>> s.used) % 2
    if s.used = 7 then .ok value { s with rest, used := 0 }
    else .ok value { s with used := s.used + 1 }

/-- A number of so many bits. -/
def bits : Nat → Inflate Nat
  | 0 => return 0
  | n + 1 => do
    let low ← bit
    return low + 2 * (← bits n)

/-- Goes on to the next whole byte. -/
def align : Inflate Unit := fun s =>
  .ok () (if s.used = 0 then s else { s with rest := s.rest.drop 1, used := 0 })

def byte : Inflate UInt8 := fun s =>
  match s.rest with
  | [] => .error .cut s
  | b :: rest => .ok b { s with rest }

def emit (b : UInt8) : Inflate Unit := modify fun s => { s with out := s.out.push b }

/-- Repeats output from the given distance back, byte by byte, so that a run may overlap itself. The
output counts as preceded by zeros. -/
def repeatBack (distance : Nat) : Nat → Inflate Unit
  | 0 => return
  | n + 1 => do
    let s ← get
    emit (if distance ≤ s.out.size then s.out[s.out.size - distance]?.getD 0 else 0)
    repeatBack distance n

end WordMachine.Deflate

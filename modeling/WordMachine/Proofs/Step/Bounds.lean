import WordMachine.Proofs.Effect.Guarded
import WordMachine.Proofs.Effect.Kind
import WordMachine.Proofs.Step.Advance

/-!
No step reads out of range, and no number in it outgrows its type. Fetching, executing and listing
are told once more with every index and every number checked: addresses in 16 bits, sizes and
cursors in 64. A machine that is reached from a load extends no further than the address space, and
then every check holds (`execution_in_bounds`).
-/

namespace WordMachine

namespace Memory

variable {m : Memory}

def extent? (m : Memory) : Option Nat := do
  match m.changed.maxKey? with
  | some addr => return max m.size (← fits? 64 (addr.toNat + 1))
  | none => return m.size

theorem extent?_eq (m : Memory) : m.extent? = some m.extent := by
  unfold extent? extent
  cases m.changed.maxKey? with
  | none => rfl
  | some addr =>
    have := addr.toNat_lt
    simp only [fits?_eq (show addr.toNat + 1 < 2 ^ 64 by omega)]
    rfl

/-- The word that is operand `k` of an instruction at the address. -/
def operandAt? (m : Memory) (addr : Word) (k : Nat) : Option Word := do
  let first ← fits? 16 (addr.toNat + 1)
  let place ← fits? 16 (first + k)
  return m.read (UInt16.ofNat place)

theorem operandAt?_eq {addr : Word} {k : Nat} (inside : addr.toNat + 1 + k < 2 ^ 16) :
    m.operandAt? addr k = some (m.read (addr + 1 + UInt16.ofNat k)) := by
  have place : UInt16.ofNat (addr.toNat + 1 + k) = addr + 1 + UInt16.ofNat k := by
    simp [UInt16.ofNat_add]
  simp only [operandAt?, fits?_eq (show addr.toNat + 1 < 2 ^ 16 by omega), fits?_eq inside, place,
    Option.pure_def, Option.bind_eq_bind, Option.bind_some]

def instructionAt? (m : Memory) (addr : Word) : Option (Except Fault Instruction) := do
  if (← m.extent?) ≤ addr.toNat then return .error (.endOfProgram addr)
  else match Opcode.ofWord? (m.read addr) with
    | none => return .error (.unknownOpcode (m.read addr) addr)
    | some opcode =>
      let past ← fits? 64 (addr.toNat + opcode.arity)
      if (← m.extent?) < past then return .error (.endOfProgram addr)
      else
        let operands ← Vector.ofFnM fun k : Fin opcode.operandCount => m.operandAt? addr k.val
        return .ok ⟨addr, opcode, operands⟩

theorem instructionAt?_eq (bounded : m.extent ≤ 65536) (addr : Word) :
    m.instructionAt? addr = some (m.instructionAt addr) := by
  have place := addr.toNat_lt
  simp only [instructionAt?, instructionAt, extent?_eq, Option.bind_eq_bind, Option.bind_some]
  split
  · rfl
  · cases Opcode.ofWord? (m.read addr) with
    | none => rfl
    | some opcode =>
      have few := opcode.operandCount_le
      have arity : opcode.arity = opcode.operandCount + 1 := rfl
      simp only [fits?_eq (show addr.toNat + opcode.arity < 2 ^ 64 by omega), Option.bind_some]
      split
      · rfl
      · rename_i whole
        have operands (k : Fin opcode.operandCount) : m.operandAt? addr k.val =
            pure (m.read (addr + 1 + UInt16.ofNat k.val)) :=
          operandAt?_eq (by have := k.isLt; omega)
        simp only [operands, Vector.ofFnM_pure]
        rfl

end Memory

namespace Instruction

/-- The three places for operands, where those that the instruction lacks hold zero. -/
def slots (i : Instruction) : Vector Word 3 := Vector.ofFn fun k => i.operands.toArray.getD k.val 0

/-- The operands, as so many of the three places as the opcode calls for. -/
def operands? (i : Instruction) : Option (Array Word) := do
  let count ← minus? i.opcode.arity 1
  if count ≤ i.slots.size then return i.slots.toArray.take count else none

theorem take_slots (i : Instruction) :
    i.slots.toArray.take i.opcode.operandCount = i.operands.toArray := by
  have few := i.opcode.operandCount_le
  apply Array.ext
  · simp [few]
  · intro k taken inside
    have operand : k < i.opcode.operandCount := by simpa using inside
    simp [slots, operand]

theorem operands?_eq (i : Instruction) : i.operands? = some i.operands.toArray := by
  have count : minus? i.opcode.arity 1 = some i.opcode.operandCount := minus?_eq (Nat.succ_pos _)
  simp only [operands?, count, Option.bind_eq_bind, Option.bind_some, take_slots]
  exact if_pos i.opcode.operandCount_le

end Instruction

namespace Machine

variable {m : Machine}

/-- Carries out an effect, if the register that it writes exists. -/
def carryOut? (m : Machine) (next : Word) (effect : Effect) : Option Machine :=
  match effect.write? with
  | some (r, _) => m.registers.toArray[r.val]?.map fun _ => m.apply next effect
  | none => some (m.apply next effect)

theorem carryOut?_eq (m : Machine) (next : Word) (effect : Effect) :
    m.carryOut? next effect = some (m.apply next effect) := by
  unfold carryOut?
  split <;> simp

def awaitsInput? (m : Machine) : Option Bool := do
  let extent ← m.memory.extent?
  return m.pc.toNat < extent && m.memory.read m.pc == Opcode.input.word && !m.console.hasInput

theorem awaitsInput?_eq (m : Machine) : m.awaitsInput? = some m.awaitsInput := by
  simp only [awaitsInput?, Memory.extent?_eq]
  rfl

def execute? (m : Machine) (config : RunConfig) (observer : Observer σ) (s : σ)
    (i : Instruction) : Option (Step σ) := do
  let next := UInt16.ofNat (← fits? 64 (i.addr.toNat + i.opcode.arity))
  match ← Guarded.resolve config observer m i.opcode (← i.operands?) ⟨s, ""⟩ with
  | (.ok effect, d) =>
    let m := m.feed d.supplied
    let s := observer.notify m effect d.observer
    return ⟨.ok effect.progress, ← m.carryOut? next effect, s⟩
  | (.error (.stopped pc), d) => return ⟨.error (.stopped pc), m, d.observer⟩
  | (.error fault, d) => return ⟨.error fault, (m.feed d.supplied).setPc next, d.observer⟩

theorem execute?_eq (m : Machine) (config : RunConfig) (observer : Observer σ) (s : σ)
    {i : Instruction} (small : i.next < 2 ^ 64) :
    m.execute? config observer s i = some (m.execute config observer s i) := by
  have next : fits? 64 (i.addr.toNat + i.opcode.arity) = some i.next := fits?_eq small
  have resolved :
      Guarded.resolve config observer m i.opcode i.operands.toArray ⟨s, ""⟩ = some _ :=
    Guarded.completes_resolve i.operands _
  simp only [execute?, execute, next, i.operands?_eq, resolved, Option.bind_eq_bind,
    Option.bind_some]
  generalize (Effect.resolve config observer m i.opcode i.operands).run ⟨s, ""⟩ = r
  obtain ⟨outcome, d⟩ := r
  cases outcome with
  | ok effect =>
    simp only [carryOut?_eq]
    rfl
  | error fault => cases fault <;> rfl

def step? (m : Machine) (config : RunConfig) (observer : Observer σ) (s : σ) :
    Option (Step σ) := do
  if config.suspendOnInput && (← m.awaitsInput?) then return ⟨.ok .suspended, m, s⟩
  else match ← m.memory.instructionAt? m.pc with
    | .error fault => return ⟨.error fault, m, s⟩
    | .ok i => m.execute? config observer s i

theorem step?_eq (bounded : m.memory.extent ≤ 65536) (config : RunConfig) (observer : Observer σ)
    (s : σ) : m.step? config observer s = some (m.step config observer s) := by
  simp only [step?, step, awaitsInput?_eq, Memory.instructionAt?_eq bounded, Option.bind_eq_bind,
    Option.bind_some]
  split
  · rfl
  · cases decoded : m.memory.instructionAt m.pc with
    | error fault => rfl
    | ok i =>
      have inside := (Memory.decodes_of_instructionAt decoded).inside
      exact execute?_eq m config observer s (by omega)

end Machine

namespace Sweep

variable {s : Sweep}

def advance? (s : Sweep) : Option (Option (Listing × Sweep)) := do
  if (← s.memory.extent?) ≤ s.cursor then return none
  else
    let addr := UInt16.ofNat s.cursor
    match ← s.memory.instructionAt? addr with
    | .ok i =>
      let next ← fits? 64 (i.addr.toNat + i.opcode.arity)
      return some (.instruction i, { s with cursor := next })
    | .error _ =>
      let next ← fits? 64 (s.cursor + 1)
      return some (.data addr (s.memory.read addr), { s with cursor := next })

theorem advance?_eq (bounded : s.memory.extent ≤ 65536) : s.advance? = some s.next? := by
  simp only [advance?, next?, Memory.extent?_eq, Memory.instructionAt?_eq bounded,
    Option.bind_eq_bind, Option.bind_some]
  split
  · rfl
  · rename_i inside
    cases decoded : s.memory.instructionAt (UInt16.ofNat s.cursor) with
    | ok i =>
      have whole := (Memory.decodes_of_instructionAt decoded).inside
      have next : fits? 64 (i.addr.toNat + i.opcode.arity) = some i.next :=
        fits?_eq (show i.next < 2 ^ 64 by omega)
      simp only [next, Option.bind_some]
      rfl
    | error fault =>
      simp only [fits?_eq (show s.cursor + 1 < 2 ^ 64 by omega), Option.bind_some]
      rfl

def takeOnto? (taken : Array Listing) : Nat → Sweep → Option (Array Listing)
  | 0, _ => return taken
  | n + 1, s => do
    match ← s.advance? with
    | some (entry, s) => takeOnto? (taken.push entry) n s
    | none => return taken

def take? (s : Sweep) (n : Nat) : Option (List Listing) := return (← takeOnto? #[] n s).toList

theorem memory_of_next? {entry : Listing} {t : Sweep} (h : s.next? = some (entry, t)) :
    t.memory = s.memory := by
  unfold next? at h
  split at h
  · cases h
  · dsimp only at h
    split at h <;> cases h <;> rfl

theorem takeOnto?_eq (bounded : s.memory.extent ≤ 65536) (taken : Array Listing) (n : Nat) :
    takeOnto? taken n s = some (takeOnto taken n s) := by
  induction n generalizing s taken with
  | zero => rfl
  | succ n ih =>
    simp only [takeOnto?, takeOnto, advance?_eq bounded, Option.bind_eq_bind, Option.bind_some]
    cases next : s.next? with
    | none => rfl
    | some found =>
      obtain ⟨entry, t⟩ := found
      exact ih (by rwa [memory_of_next? next]) _

theorem take?_eq (bounded : s.memory.extent ≤ 65536) (n : Nat) : s.take? n = some (s.take n) := by
  simp only [take?, takeOnto?_eq bounded]
  rfl

end Sweep

namespace Machine

/-- Nothing that reads the machine or steps it fails a check: fetching at any address, listing from
any address, and a step with any configuration and any observer. In particular the address of an
operand is a word, every opcode makes do with as many operands as it has, there are eight registers,
and a sum or a product of two words fits 32 bits. -/
structure InBounds (m : Machine) : Prop where
  fetches (addr : Word) : m.memory.instructionAt? addr = some (m.memory.instructionAt addr)
  lists (start : Word) (count : Nat) :
    (m.memory.sweep start).take? count = some ((m.memory.sweep start).take count)
  steps (σ : Type) (config : RunConfig) (observer : Observer σ) (s : σ) :
    m.step? config observer s = some (m.step config observer s)
  operandAddress (addr : Word) (i : Instruction) (decoded : m.memory.instructionAt addr = .ok i)
    (k : Nat) (operand : k < i.opcode.operandCount) : addr.toNat + 1 + k < 2 ^ 16
  operands (σ : Type) (config : RunConfig) (observer : Observer σ) (op : Opcode)
    (w : Vector Word op.operandCount) :
    (Guarded.resolve config observer m op w.toArray).Completes
      (Effect.resolve config observer m op w)
  register (w : Word) (r : Reg) (names : Operand.ofWord? w = some (.register r)) :
    w.toNat - Word.modulus < 8
  sum (b c : Word) : b.toNat + c.toNat < 2 ^ 32
  product (b c : Word) : b.toNat * c.toNat < 2 ^ 32

theorem execution_in_bounds {m : Machine} (reached : m.Reachable) : m.InBounds where
  fetches := Memory.instructionAt?_eq reached.extent_le
  lists _ := Sweep.take?_eq reached.extent_le
  steps _ := step?_eq reached.extent_le
  operandAddress addr i decoded k operand := by
    have reads := Memory.decodes_of_instructionAt decoded
    have next : i.next = addr.toNat + i.opcode.arity := by rw [Instruction.next, reads.place]
    have arity : i.opcode.arity = i.opcode.operandCount + 1 := rfl
    have inside := reads.inside
    have := reached.extent_le
    omega
  operands _ _ _ _ := Guarded.completes_resolve
  register w r names := by
    rw [← Operand.word_of_ofWord? names, Operand.word, Reg.toNat_word, Nat.add_sub_cancel_left]
    exact r.isLt
  sum := Word.add_fits
  product := Word.mul_fits

/-- An `add` in the last cell has its first operand past the address space, so the address of that
operand is no word; but the instruction is past the extent before it is asked for. -/
theorem execution_in_bounds_last_cell :
    let m := (({ memory := Memory.ofImage [0] } : Machine).write 65535 9).setPc 65535
    Reachable m ∧ m.memory.extent = 65536 ∧ m.memory.operandAt? 65535 0 = none ∧
      m.step? {} .silent () = some ⟨.error (.endOfProgram 65535), m, ()⟩ := by
  intro m
  have reached : Reachable m :=
    .perform (.move (.setPc 65535)) (.perform (.move (.write 65535 9)) (@Reachable.load [0] _ rfl))
  have extent : m.memory.extent = 65536 := by
    have differs : m.memory.read 65535 ≠ m.memory.loaded 65535 := by decide
    have above : 65536 ≤ m.memory.extent := m.memory.isGreatest_extent.2 (.inr ⟨_, differs, rfl⟩)
    have below := reached.extent_le
    omega
  have cut : m.memory.instructionAt m.pc = .error (.endOfProgram 65535) := by
    unfold Memory.instructionAt
    rw [extent]
    rfl
  have awake : m.awaitsInput = false := by
    have other : (m.memory.read m.pc == Opcode.input.word) = false := by decide
    simp [awaitsInput, other]
  refine ⟨reached, extent, rfl, ?_⟩
  rw [(execution_in_bounds reached).steps]
  simp only [step, awake, cut, Bool.and_false, Bool.false_eq_true, if_false]

end Machine

end WordMachine

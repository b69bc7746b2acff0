import WordMachine.Proofs.Effect.Kind
import WordMachine.Proofs.Memory.Overlay
import WordMachine.Proofs.Step.Outcome

/-!
A conditional jump and its opposite, which jumps just when the other one does not. Both read the
same operands in the same order, so under one observer they come to one target with opposite
decisions (`resolve_opposite`). Taking the latest branch back and going down its other arm is
therefore what the opposite jump would have done (`step_conditional`, `invertBranch?_takeBranch`).
-/

namespace WordMachine

namespace Opcode

def isConditional : Opcode → Bool
  | jumpIf | jumpUnless => true
  | _ => false

/-- The conditional jump that decides the other way. -/
def opposite : Opcode → Opcode
  | jumpIf => jumpUnless
  | jumpUnless => jumpIf
  | op => op

@[simp]
theorem operandCount_opposite (op : Opcode) : op.opposite.operandCount = op.operandCount := by
  cases op <;> rfl

@[simp]
theorem isConditional_opposite (op : Opcode) : op.opposite.isConditional = op.isConditional := by
  cases op <;> rfl

theorem arity_of_isConditional {op : Opcode} (h : op.isConditional = true) : op.arity = 3 := by
  cases op <;> first | rfl | cases h

theorem ne_input_of_isConditional {op : Opcode} (h : op.isConditional = true) : op ≠ .input := by
  rintro rfl
  cases h

theorem isConditional_of_yields {op : Opcode} {taken : Bool} {target : Word}
    (yields : op.Yields (.branch taken target)) : op.isConditional = true := by
  cases op <;> first | rfl | exact yields.elim

end Opcode

/-- The same instruction with the opposite opcode. -/
def Instruction.opposite (i : Instruction) : Instruction :=
  ⟨i.addr, i.opcode.opposite, i.operands.cast i.opcode.operandCount_opposite.symm⟩

theorem Instruction.next_opposite (i : Instruction) : i.opposite.next = i.next := by
  simp only [next, opposite, Opcode.arity, Opcode.operandCount_opposite]

namespace Memory

variable {m : Memory} {addr value : Word} {i : Instruction}

/-- Turning the opcode around where a conditional jump stands gives the opposite jump. -/
theorem instructionAt_write_opposite (decoded : m.instructionAt addr = .ok i)
    (conditional : i.opcode.isConditional = true) :
    (m.write addr i.opcode.opposite.word).instructionAt addr = .ok i.opposite := by
  have reads := decodes_of_instructionAt decoded
  have arity := Opcode.arity_of_isConditional conditional
  have next : i.next = addr.toNat + 3 := by rw [Instruction.next, reads.place, arity]
  apply Decodes.instructionAt
  refine ⟨reads.place, ?_, ?_, ?_⟩
  · rw [read_write, if_pos rfl]
    rfl
  · rw [Instruction.next_opposite, le_extent_write (by omega)]
    exact reads.inside
  · intro k bound
    have within : k < i.opcode.operandCount := by simpa [Instruction.opposite] using bound
    have apart : addr + 1 + UInt16.ofNat k ≠ addr := by
      intro back
      have places := congrArg UInt16.toNat back
      simp only [Opcode.arity] at arity
      simp only [UInt16.toNat_add, UInt16.toNat_ofNat', UInt16.toNat_one] at places
      omega
    rw [read_write, if_neg apart, ← reads.operand k within]
    simp [Instruction.opposite]

end Memory

namespace Effect

variable {m : Machine} {op : Opcode} {config : RunConfig} {observer : Observer σ}
  {d d' : Dialogue σ}

/-- No operand is read from memory. -/
theorem read_write (m : Machine) (addr value w : Word) :
    read observer (m.write addr value) op w = read observer m op w := rfl

/-- An operand that is read by one instruction is read alike by another one. -/
theorem read_ok_of_opcode {w value : Word} (h : (read observer m op w).run d = (.ok value, d'))
    (other : Opcode) : (read observer m other w).run d = (.ok value, d') := by
  unfold read at h ⊢
  split at h
  · exact h
  · exact h
  · cases h

/-- Opposite jumps ask their observer the same and come to one target, which one of them takes. -/
theorem resolve_opposite (conditional : op.isConditional = true)
    {w : Vector Word op.operandCount} {effect : Effect}
    (resolved : (resolve config observer m op w).run d = (.ok effect, d')) (addr value : Word) :
    ∃ taken target, effect = .branch taken target ∧
      (resolve config observer (m.write addr value) op.opposite
        (w.cast op.operandCount_opposite.symm)).run d = (.ok (.branch (!taken) target), d') := by
  cases op with
  | jumpIf | jumpUnless =>
    simp only [resolve, Resolve.run_bind_ok, Resolve.run_pure_ok] at resolved
    obtain ⟨condition, between, first, target, _, second, rfl, rfl⟩ := resolved
    refine ⟨_, target, rfl, ?_⟩
    simp only [Opcode.opposite, resolve, read_write, Resolve.run_bind_ok, Resolve.run_pure_ok]
    refine ⟨condition, between, read_ok_of_opcode first _, target, _, read_ok_of_opcode second _,
      ?_, rfl⟩
    simp [bne]
  | _ => cases conditional

theorem read_silent {w value : Word} (h : value? m w = some value) (u : Dialogue Unit) :
    (read Observer.silent m op w).run u = (.ok value, u) := by
  obtain ⟨operand, named, rfl⟩ := Option.map_eq_some_iff.1 h
  unfold read
  rw [named]
  cases operand <;> rfl

/-- A conditional jump that resolves under some observer does so under none. -/
theorem resolve_silent (config : RunConfig) (conditional : op.isConditional = true)
    {w : Vector Word op.operandCount} {effect : Effect} (means : meaning? m op w = some effect)
    (u : Dialogue Unit) :
    (resolve config .silent m op w).run u = (.ok effect, u) := by
  cases op with
  | jumpIf | jumpUnless =>
    obtain ⟨condition, target, first, second, rfl⟩ := branchMeaning?_eq_some_iff.1 means
    simp only [resolve, Resolve.run_bind_ok, Resolve.run_pure_ok]
    exact ⟨condition, u, read_silent first u, target, u, read_silent second u, rfl, rfl⟩
  | _ => cases conditional

end Effect

namespace Machine

variable {m : Machine} {i : Instruction} {config : RunConfig} {observer : Observer σ} {s t : σ}

/-- The machine with the opposite opcode at its program counter, if an opcode is there. -/
def opposed (m : Machine) : Machine :=
  match Opcode.ofWord? (m.memory.read m.pc) with
  | some op => m.write m.pc op.opposite.word
  | none => m

theorem opposed_eq (decoded : m.memory.instructionAt m.pc = .ok i) :
    m.opposed = m.write m.pc i.opcode.opposite.word := by
  have reads := Memory.decodes_of_instructionAt decoded
  rw [opposed, ← reads.opcode, Opcode.ofWord?_word]

/-- Going back on a branch is deciding it the other way. -/
theorem invertBranch?_takeBranch (m : Machine) (next : Word) (taken : Bool) (target : Word) :
    (m.takeBranch next taken target).invertBranch? = some (m.takeBranch next (!taken) target) := by
  cases taken <;> rfl

theorem takeBranch_write (m : Machine) (addr value next : Word) (taken : Bool) (target : Word) :
    (m.write addr value).takeBranch next taken target =
      (m.takeBranch next taken target).write addr value := by
  cases taken <;> rfl

theorem step_of_isConditional (decoded : m.memory.instructionAt m.pc = .ok i)
    (conditional : i.opcode.isConditional = true) :
    m.step config observer s = m.execute config observer s i := by
  have awake : m.awaitsInput = false :=
    awaitsInput_of_other decoded (Opcode.ne_input_of_isConditional conditional)
  simp only [step, awake, Bool.and_false, Bool.false_eq_true, if_false, decoded]

theorem step_of_resolve {taken : Bool} {target : Word}
    (decoded : m.memory.instructionAt m.pc = .ok i) (conditional : i.opcode.isConditional = true)
    (resolved : (Effect.resolve config observer m i.opcode i.operands).run ⟨s, ""⟩ =
      (.ok (.branch taken target), ⟨t, ""⟩)) :
    m.step config observer s =
      ⟨.ok .continued, m.takeBranch (UInt16.ofNat i.next) taken target, t⟩ := by
  rw [step_of_isConditional decoded conditional]
  simp only [execute, resolved, feed_empty]
  rfl

/-- A conditional jump that completes was resolved, and nothing was supplied to it. -/
theorem resolve_of_completed (decoded : m.memory.instructionAt m.pc = .ok i)
    (conditional : i.opcode.isConditional = true)
    (completed : (m.step config observer s).result = .ok .continued) :
    ∃ effect t, (Effect.resolve config observer m i.opcode i.operands).run ⟨s, ""⟩ =
      (.ok effect, ⟨t, ""⟩) := by
  rw [step_of_isConditional decoded conditional] at completed
  simp only [execute] at completed
  generalize resolved : (Effect.resolve config observer m i.opcode i.operands).run ⟨s, ""⟩ = r
    at completed
  obtain ⟨fault | effect, t, text⟩ := r
  · cases fault <;> cases completed
  · obtain ⟨-, nothing⟩ := Effect.meaning?_of_resolve_of_ne_input
      (Opcode.ne_input_of_isConditional conditional) resolved
    obtain rfl : text = "" := nothing
    exact ⟨effect, t, rfl⟩

/-- A conditional jump that completes, and the opposite one in its place: both leave the observer
alike, and their branches differ in the decision. -/
theorem step_conditional (decoded : m.memory.instructionAt m.pc = .ok i)
    (conditional : i.opcode.isConditional = true)
    (completed : (m.step config observer s).result = .ok .continued) :
    ∃ taken target t,
      let other :=
        (m.takeBranch (UInt16.ofNat i.next) (!taken) target).write m.pc i.opcode.opposite.word
      m.step config observer s =
          ⟨.ok .continued, m.takeBranch (UInt16.ofNat i.next) taken target, t⟩ ∧
        m.opposed.step config observer s = ⟨.ok .continued, other, t⟩ ∧
        m.opposed.step {} .silent () = ⟨.ok .continued, other, ()⟩ := by
  obtain ⟨effect, t, resolved⟩ := resolve_of_completed decoded conditional completed
  obtain ⟨taken, target, rfl, opposite⟩ :=
    Effect.resolve_opposite conditional resolved m.pc i.opcode.opposite.word
  have decoded' : m.opposed.memory.instructionAt m.opposed.pc = .ok i.opposite := by
    rw [opposed_eq decoded]
    exact Memory.instructionAt_write_opposite decoded conditional
  have conditional' : i.opposite.opcode.isConditional = true := by
    rwa [Instruction.opposite, Opcode.isConditional_opposite]
  rw [← opposed_eq decoded] at opposite
  obtain ⟨means, -⟩ := Effect.meaning?_of_resolve_of_ne_input
    (Opcode.ne_input_of_isConditional conditional') opposite
  have alone := Effect.resolve_silent {} conditional' means ⟨(), ""⟩
  have other : m.opposed.takeBranch (UInt16.ofNat i.opposite.next) (!taken) target =
      (m.takeBranch (UInt16.ofNat i.next) (!taken) target).write m.pc i.opcode.opposite.word := by
    rw [Instruction.next_opposite, opposed_eq decoded, takeBranch_write]
  refine ⟨taken, target, t, step_of_resolve decoded conditional resolved, ?_, ?_⟩
  · rw [step_of_resolve decoded' conditional' opposite, other]
  · rw [step_of_resolve decoded' conditional' alone, other]

end Machine

end WordMachine

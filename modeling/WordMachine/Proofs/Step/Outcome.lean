import WordMachine.Proofs.Effect.Meaning
import WordMachine.Step

/-!
Everything a step can do. `step_outcome` sorts the steps of a machine into five kinds, so that a law
of all steps is a law of each kind.
-/

namespace WordMachine

theorem Opcode.word_of_ofWord? {w : Word} {op : Opcode} (h : ofWord? w = some op) :
    op.word = w := by
  have numbered : ∀ k : Fin 22, (all[k]).word = UInt16.ofNat k.val := by decide
  obtain ⟨inside, rfl⟩ := Array.getElem?_eq_some_iff.1 h
  have word := numbered ⟨w.toNat, inside⟩
  simpa using word

/-- What a decoded instruction is read from. -/
structure Memory.Decodes (m : Memory) (addr : Word) (i : Instruction) : Prop where
  place : i.addr = addr
  opcode : i.opcode.word = m.read addr
  inside : i.next ≤ m.extent
  operand : ∀ (k : Nat) (h : k < i.opcode.operandCount),
    i.operands[k] = m.read (addr + 1 + UInt16.ofNat k)

theorem Memory.decodes_of_instructionAt {m : Memory} {addr : Word} {i : Instruction}
    (h : m.instructionAt addr = .ok i) : m.Decodes addr i := by
  unfold instructionAt at h
  split at h
  · cases h
  · split at h
    · cases h
    · rename_i opcode known
      split at h
      · cases h
      · rename_i whole
        cases h
        refine ⟨rfl, Opcode.word_of_ofWord? known, Nat.not_lt.1 whole, ?_⟩
        intro k hk
        simp

theorem Memory.Decodes.instructionAt {m : Memory} {addr : Word} {i : Instruction}
    (h : m.Decodes addr i) : m.instructionAt addr = .ok i := by
  obtain ⟨place, op, w⟩ := i
  obtain ⟨here, opcode, inside, operand⟩ := h
  obtain rfl : place = addr := here
  have known : Opcode.ofWord? (m.read place) = some op := by rw [← opcode, Opcode.ofWord?_word]
  have operands : (Vector.ofFn fun k => m.read (place + 1 + UInt16.ofNat k.val)) = w := by
    apply Vector.ext
    intro k bound
    rw [Vector.getElem_ofFn, operand k bound]
  simp only [Instruction.next, Opcode.arity] at inside
  rw [Memory.instructionAt, if_neg (by omega), known]
  simp only [operands, Opcode.arity]
  rw [if_neg (by omega)]

namespace Machine

variable {config : RunConfig} {observer : Observer σ}

/-- Text that an observer may supply to an instruction: some to an `input` that finds none pending,
to any other nothing. -/
def MaySupply (m : Machine) (i : Instruction) (text : String) : Prop :=
  text = "" ∨ i.opcode = .input ∧ m.console.pending = []

/-- The ways a step can end, with the machine that it leaves. -/
inductive Outcome (m : Machine) (config : RunConfig) : Except Fault Progress → Machine → Prop where
  | asleep (suspends : config.suspendOnInput = true) (awaits : m.awaitsInput = true) :
    Outcome m config (.ok .suspended) m
  | undecoded {fault : Fault} (h : m.memory.instructionAt m.pc = .error fault) :
    Outcome m config (.error fault) m
  | stopped {i : Instruction} (pc : Word) (decoded : m.memory.instructionAt m.pc = .ok i) :
    Outcome m config (.error (.stopped pc)) m
  | faulted {i : Instruction} {fault : Fault} (text : String)
    (decoded : m.memory.instructionAt m.pc = .ok i) (other : ∀ pc, fault ≠ .stopped pc) :
    Outcome m config (.error fault) ((m.feed text).setPc (UInt16.ofNat i.next))
  | completed {i : Instruction} {effect : Effect} (text : String)
    (decoded : m.memory.instructionAt m.pc = .ok i) (supplied : m.MaySupply i text)
    (means : Effect.meaning? (m.feed text) i.opcode i.operands = some effect) :
    Outcome m config (.ok effect.progress) ((m.feed text).apply (UInt16.ofNat i.next) effect)

theorem awaitsInput_of_awake {m : Machine} {s : σ} (suspends : config.suspendOnInput = true)
    (awake : (m.step config observer s).result ≠ .ok .suspended) : m.awaitsInput = false :=
  Bool.eq_false_iff.2 fun awaits => awake (by simp [step, suspends, awaits])

theorem awaitsInput_iff {m : Machine} :
    m.awaitsInput = true ↔ m.pc.toNat < m.memory.extent ∧
      m.memory.read m.pc = Opcode.input.word ∧ m.console.pending = [] := by
  simp [awaitsInput, Console.hasInput, and_assoc]

theorem awaitsInput_of_empty {m : Machine} {i : Instruction}
    (decoded : m.memory.instructionAt m.pc = .ok i) (asks : i.opcode = .input)
    (empty : m.console.pending = []) : m.awaitsInput = true := by
  have reads := Memory.decodes_of_instructionAt decoded
  have word : m.memory.read m.pc = Opcode.input.word := by rw [← reads.opcode, asks]
  have inside : m.pc.toNat < m.memory.extent := by
    have next := reads.inside
    rw [Instruction.next, reads.place, Opcode.arity] at next
    omega
  exact awaitsInput_iff.2 ⟨inside, word, empty⟩

theorem awaitsInput_of_other {m : Machine} {i : Instruction}
    (decoded : m.memory.instructionAt m.pc = .ok i) (other : i.opcode ≠ .input) :
    m.awaitsInput = false := by
  apply Bool.eq_false_iff.2
  intro awaits
  obtain ⟨-, word, -⟩ := awaitsInput_iff.1 awaits
  have reads := Memory.decodes_of_instructionAt decoded
  exact other (Opcode.word_injective (reads.opcode.trans word))

/-- An `input` that is not waiting finds a character. -/
theorem pending_of_awake {m : Machine} {i : Instruction} (awake : m.awaitsInput = false)
    (decoded : m.memory.instructionAt m.pc = .ok i) (asks : i.opcode = .input) :
    m.console.pending ≠ [] := by
  intro empty
  rw [awaitsInput_of_empty decoded asks empty] at awake
  cases awake

theorem execute_outcome {m : Machine} {i : Instruction} (s : σ)
    (decoded : m.memory.instructionAt m.pc = .ok i) :
    Outcome m config (m.execute config observer s i).result
      (m.execute config observer s i).machine := by
  simp only [execute]
  split
  · rename_i effect d resolved
    obtain ⟨means, supplied⟩ := Effect.meaning?_of_resolve resolved
    exact .completed d.supplied decoded supplied means
  · exact .stopped _ decoded
  · rename_i fault d other _
    exact .faulted d.supplied decoded fun pc h => other pc h

theorem step_outcome (m : Machine) (config : RunConfig) (observer : Observer σ) (s : σ) :
    Outcome m config (m.step config observer s).result (m.step config observer s).machine := by
  simp only [step]
  split
  · rename_i waits
    obtain ⟨suspends, awaits⟩ := Bool.and_eq_true_iff.1 waits
    exact .asleep suspends awaits
  · split
    · rename_i fault h
      exact .undecoded h
    · rename_i i decoded
      exact execute_outcome s decoded

/-- A step that goes on or halts carries an instruction out. -/
theorem completed_of_step {m : Machine} {s : σ} {progress : Progress}
    (completed : (m.step config observer s).result = .ok progress)
    (awake : progress ≠ .suspended) :
    ∃ i effect text, m.memory.instructionAt m.pc = .ok i ∧ m.MaySupply i text ∧
      Effect.meaning? (m.feed text) i.opcode i.operands = some effect ∧
      effect.progress = progress ∧
      (m.step config observer s).machine = (m.feed text).apply (UInt16.ofNat i.next) effect := by
  have outcome := step_outcome m config observer s
  rw [completed] at outcome
  generalize (m.step config observer s).machine = n at outcome
  generalize result : Except.ok progress = r at outcome
  cases outcome with
  | asleep =>
    cases result
    exact absurd rfl awake
  | @completed i effect text decoded supplied means =>
    cases result
    exact ⟨i, effect, text, decoded, supplied, means, rfl, rfl⟩
  | _ => cases result

end Machine

end WordMachine

import WordMachine.Proofs.Effect.Meaning
import WordMachine.Step

/-!
Which effects an opcode can have, and what each effect leaves alone. A law about one field of the
machine needs only the opcodes that yield an effect on it.
-/

namespace WordMachine

/-- The kinds of effect that an instruction can have. -/
def Opcode.Yields : Opcode → Effect → Prop
  | .halt, .halt | .noop, .proceed | .push, .push _ | .pop, .pop _ _ | .jump, .jump _
  | .jumpIf, .branch _ _ | .jumpUnless, .branch _ _ | .store, .store _ _ | .call, .call _
  | .ret, .ret _ | .output, .emit _ | .input, .wait | .input, .consume _ _ => True
  | .set, .assign _ _ | .not, .assign _ _ | .load, .assign _ _ | .eq, .assign _ _
  | .gt, .assign _ _ | .add, .assign _ _ | .mult, .assign _ _ | .mod, .assign _ _
  | .and, .assign _ _ | .or, .assign _ _ => True
  | _, _ => False

/-- The register that the instruction writes when it completes. -/
def Instruction.destination? : Instruction → Option Reg
  | ⟨_, .set, w⟩ | ⟨_, .not, w⟩ | ⟨_, .load, w⟩ | ⟨_, .eq, w⟩ | ⟨_, .gt, w⟩ | ⟨_, .add, w⟩
  | ⟨_, .mult, w⟩ | ⟨_, .mod, w⟩ | ⟨_, .and, w⟩ | ⟨_, .or, w⟩ | ⟨_, .pop, w⟩
  | ⟨_, .input, w⟩ => Effect.register? (Effect.first w)
  | _ => none

namespace Effect

/-- The register that the effect writes, with its new value. -/
def write? : Effect → Option (Reg × Word)
  | assign r value | pop r value => some (r, value)
  | consume r ch => some (r, UInt16.ofNat ch.toNat)
  | _ => none

variable {m : Machine} {op : Opcode}

theorem yields_of_meaning? {w : Vector Word op.operandCount} {effect : Effect}
    (h : meaning? m op w = some effect) : op.Yields effect := by
  cases op with
  | halt | noop =>
    cases h
    trivial
  | set | not | load =>
    obtain ⟨_, _, _, _, rfl⟩ := unaryMeaning?_eq_some_iff.1 h
    trivial
  | eq | gt | add | mult | and | or =>
    obtain ⟨_, _, _, _, _, _, rfl⟩ := binaryMeaning?_eq_some_iff.1 h
    trivial
  | mod =>
    obtain ⟨_, _, _, _, _, _, _, rfl⟩ := remainderMeaning?_eq_some_iff.1 h
    trivial
  | push | jump | call | ret | output =>
    simp only [meaning?, Option.bind_eq_bind, Option.bind_eq_some_iff, Option.pure_def,
      Option.some.injEq] at h
    obtain ⟨_, _, rfl⟩ := h
    trivial
  | pop | store =>
    simp only [meaning?, Option.bind_eq_bind, Option.bind_eq_some_iff, Option.pure_def,
      Option.some.injEq] at h
    obtain ⟨_, _, _, _, rfl⟩ := h
    trivial
  | jumpIf | jumpUnless =>
    obtain ⟨_, _, _, _, rfl⟩ := branchMeaning?_eq_some_iff.1 h
    trivial
  | input =>
    obtain ⟨_, _, ⟨_, rfl⟩ | ⟨_, _, _, _, rfl⟩⟩ := inputMeaning?_eq_some_iff.1 h <;> trivial

theorem destination?_of_meaning? {i : Instruction} {effect : Effect}
    (means : meaning? m i.opcode i.operands = some effect) (acts : effect ≠ .wait) :
    i.destination? = effect.write?.map Prod.fst := by
  obtain ⟨addr, op, w⟩ := i
  have yields := yields_of_meaning? means
  cases op with
  | set | not | load =>
    obtain ⟨r, _, named, _, rfl⟩ := unaryMeaning?_eq_some_iff.1 means
    exact named
  | eq | gt | add | mult | and | or =>
    obtain ⟨r, _, _, named, _, _, rfl⟩ := binaryMeaning?_eq_some_iff.1 means
    exact named
  | mod =>
    obtain ⟨r, _, _, named, _, _, _, rfl⟩ := remainderMeaning?_eq_some_iff.1 means
    exact named
  | pop =>
    simp only [meaning?, Option.bind_eq_bind, Option.bind_eq_some_iff, Option.pure_def,
      Option.some.injEq] at means
    obtain ⟨r, named, _, _, rfl⟩ := means
    exact named
  | input =>
    obtain ⟨r, named, ⟨_, rfl⟩ | ⟨_, _, _, _, rfl⟩⟩ := inputMeaning?_eq_some_iff.1 means
    · exact absurd rfl acts
    · exact named
  | _ => cases effect <;> first | exact yields.elim | rfl

theorem eq_store_of_yields {addr value : Word} (h : op.Yields (.store addr value)) :
    op = .store := by
  cases op <;> first | rfl | exact h.elim

theorem eq_input_of_yields {r : Reg} {ch : Char} (h : op.Yields (.consume r ch)) :
    op = .input := by
  cases op <;> first | rfl | exact h.elim

/-- An `input` waits or takes a character. -/
theorem wait_or_consume_of_yields {effect : Effect} (h : Opcode.input.Yields effect) :
    effect = .wait ∨ ∃ r ch, effect = .consume r ch := by
  cases effect with
  | wait => exact .inl rfl
  | consume r ch => exact .inr ⟨r, ch, rfl⟩
  | _ => exact h.elim

/-- The character taken is the first of the queue, and it fits a word. -/
theorem pending_of_meaning?_consume {w : Vector Word op.operandCount} {r : Reg} {ch : Char}
    (h : meaning? m op w = some (.consume r ch)) :
    (∃ rest, m.console.pending = ch :: rest) ∧ ch.toNat < Word.modulus := by
  have yields := yields_of_meaning? h
  cases op with
  | input =>
    obtain ⟨_, _, ⟨_, waits⟩ | ⟨_, rest, pending, fits, takes⟩⟩ := inputMeaning?_eq_some_iff.1 h
    · cases waits
    · cases takes
      exact ⟨⟨rest, pending⟩, fits⟩
  | _ => exact yields.elim

/-- An instruction that waits is an `input` that names a register. -/
theorem names_of_meaning?_wait {i : Instruction} (h : meaning? m i.opcode i.operands = some .wait) :
    ∃ addr w r, i = ⟨addr, .input, w⟩ ∧ register? (first w) = some r := by
  obtain ⟨addr, op, w⟩ := i
  have yields := yields_of_meaning? h
  cases op with
  | input =>
    obtain ⟨r, named, -⟩ := inputMeaning?_eq_some_iff.1 h
    exact ⟨addr, w, r, rfl, named⟩
  | _ => exact yields.elim

/-- An instruction waits only if there is no input. -/
theorem pending_of_meaning?_wait {w : Vector Word op.operandCount}
    (h : meaning? m op w = some .wait) : m.console.pending = [] := by
  have yields := yields_of_meaning? h
  cases op with
  | input =>
    obtain ⟨_, _, ⟨empty, _⟩ | ⟨_, _, _, _, takes⟩⟩ := inputMeaning?_eq_some_iff.1 h
    · exact empty
    · cases takes
  | _ => exact yields.elim

theorem meaning?_store {w : Vector Word Opcode.store.operandCount} {effect : Effect}
    (h : meaning? m .store w = some effect) :
    ∃ addr value, value? m (first w) = some addr ∧ value? m (second w) = some value ∧
      effect = .store addr value := by
  simp only [meaning?, Option.bind_eq_bind, Option.bind_eq_some_iff, Option.pure_def,
    Option.some.injEq] at h
  obtain ⟨addr, first, value, second, rfl⟩ := h
  exact ⟨addr, value, first, second, rfl⟩

/-- What the effect does to the console. -/
def onConsole : Effect → Console → Console
  | emit ch, c => c.emit ch
  | consume _ _, c => c.drain
  | _, c => c

/-- What the effect does to the stack, with the address of the next instruction. -/
def onStack (next : Word) : Effect → Array Word → Array Word
  | push value, stack => stack.push value
  | call _, stack => stack.push next
  | pop _ _, stack | ret _, stack => stack.pop
  | _, stack => stack

end Effect

namespace Machine

theorem memory_takeCheckpoint (m : Machine) : m.takeCheckpoint.memory = m.memory := by
  unfold takeCheckpoint
  split <;> rfl

theorem pc_takeCheckpoint (m : Machine) : m.takeCheckpoint.pc = m.pc := by
  unfold takeCheckpoint
  split <;> rfl

theorem registers_takeCheckpoint (m : Machine) : m.takeCheckpoint.registers = m.registers := by
  unfold takeCheckpoint
  split <;> rfl

theorem console_takeCheckpoint (m : Machine) : m.takeCheckpoint.console = m.console := by
  unfold takeCheckpoint
  split <;> rfl

theorem stack_takeCheckpoint (m : Machine) : m.takeCheckpoint.stack = m.stack := by
  unfold takeCheckpoint
  split <;> rfl

theorem branch_takeCheckpoint (m : Machine) : m.takeCheckpoint.branch = m.branch := by
  unfold takeCheckpoint
  split <;> rfl

theorem checkpoint_takeCheckpoint {m : Machine}
    (empty : m.takeCheckpoint.console.pending = []) :
    m.takeCheckpoint.checkpoint = some m.takeCheckpoint.snapshot := by
  unfold takeCheckpoint at empty ⊢
  split
  · rename_i hasInput
    simp only [hasInput, if_true] at empty
    simp [Console.hasInput, empty] at hasInput
  · rfl

theorem checkpoint_takeCheckpoint_of_pending {m : Machine}
    (left : m.takeCheckpoint.console.pending ≠ []) :
    m.takeCheckpoint.checkpoint = m.checkpoint := by
  rw [console_takeCheckpoint] at left
  have hasInput : m.console.hasInput = true := by simpa [Console.hasInput] using left
  rw [takeCheckpoint, if_pos hasInput]

theorem console_apply (m : Machine) (next : Word) (effect : Effect) :
    (m.apply next effect).console = effect.onConsole m.console := by
  cases effect with
  | consume r ch => exact console_takeCheckpoint _
  | _ => rfl

theorem registers_apply (m : Machine) (next : Word) (effect : Effect) :
    (m.apply next effect).registers =
      (effect.write?.elim m.registers fun write => m.registers.set write.1 write.2) := by
  cases effect with
  | consume r ch => exact registers_takeCheckpoint _
  | _ => rfl

theorem get_registers_apply (m : Machine) (next : Word) {effect : Effect} {r : Reg}
    (unwritten : effect.write?.map Prod.fst ≠ some r) :
    (m.apply next effect).registers.get r = m.registers.get r := by
  rw [registers_apply]
  cases write : effect.write? with
  | none => rfl
  | some written =>
    have other : written.1 ≠ r := by simpa [write] using unwritten
    exact (Bank.get_set _ _ _ _).trans (if_neg other)

theorem memory_apply (m : Machine) (next : Word) {effect : Effect}
    (other : ∀ addr value, effect ≠ .store addr value) :
    (m.apply next effect).memory = m.memory := by
  cases effect with
  | store addr value => exact absurd rfl (other addr value)
  | consume r ch => exact memory_takeCheckpoint _
  | _ => rfl

theorem image_apply (m : Machine) (next : Word) (effect : Effect) :
    (m.apply next effect).memory.image = m.memory.image := by
  cases effect with
  | store addr value => exact Memory.image_write _ _ _
  | consume r ch => rw [memory_apply m next (by simp)]
  | _ => rfl

theorem keeps_apply (m : Machine) (next : Word) {effect : Effect}
    (other : ∀ r ch, effect ≠ .consume r ch) :
    (m.apply next effect).console.pending = m.console.pending ∧
      (m.apply next effect).checkpoint = m.checkpoint := by
  cases effect with
  | branch taken target => cases taken <;> exact ⟨rfl, rfl⟩
  | emit ch =>
    refine ⟨?_, rfl⟩
    simp only [apply, Console.emit]
    split <;> rfl
  | consume r ch => exact absurd rfl (other r ch)
  | _ => exact ⟨rfl, rfl⟩

theorem branch_apply (m : Machine) (next : Word) {effect : Effect}
    (other : ∀ taken target, effect ≠ .branch taken target) :
    (m.apply next effect).branch = m.branch := by
  cases effect with
  | branch taken target => exact absurd rfl (other taken target)
  | consume r ch => exact branch_takeCheckpoint _
  | _ => rfl

theorem stack_apply (m : Machine) (next : Word) (effect : Effect) :
    (m.apply next effect).stack = effect.onStack next m.stack := by
  cases effect with
  | consume r ch => exact stack_takeCheckpoint _
  | _ => rfl

end Machine

end WordMachine

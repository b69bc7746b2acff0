import WordMachine.Proofs.Step.Outcome
import WordMachine.Proofs.Step.Transcript

/-!
The footprint of a step. An instruction that is carried out can change the program counter, and
besides it only what is its own: the register or the cell that it names, the top of the stack, its
side of the console, the branch or the checkpoint (`Footprint`). `step_footprint` says so of all
instructions and all fields at once.
-/

namespace WordMachine

/-- The address that the instruction writes to when it completes. -/
def Instruction.storeAddress? (m : Machine) : Instruction → Option Word
  | ⟨_, .store, w⟩ => Effect.value? m (Effect.first w)
  | _ => none

/-- What an instruction can do to the stack. -/
inductive Opcode.MovesStack (op : Opcode) (before after : Array Word) : Prop where
  | keeps (same : after = before)
  | adds (grows : op = .push ∨ op = .call) (value : Word) (added : after = before.push value)
  | removes (shrinks : op = .pop ∨ op = .ret) (value : Word) (removed : before = after.push value)

namespace Effect

variable {m : Machine} {op : Opcode} {w : Vector Word op.operandCount} {effect : Effect}

/-- The value that the effect takes off the stack. -/
def popped? : Effect → Option Word
  | pop _ value | ret value => some value
  | _ => none

theorem back?_of_meaning? (means : meaning? m op w = some effect) {value : Word}
    (pops : effect.popped? = some value) :
    (op = .pop ∨ op = .ret) ∧ m.stack.back? = some value := by
  have yields := yields_of_meaning? means
  cases op with
  | pop =>
    simp only [meaning?, Option.bind_eq_bind, Option.bind_eq_some_iff, Option.pure_def,
      Option.some.injEq] at means
    obtain ⟨r, _, top, back, rfl⟩ := means
    cases pops
    exact ⟨.inl rfl, back⟩
  | ret =>
    simp only [meaning?, Option.bind_eq_bind, Option.bind_eq_some_iff, Option.pure_def,
      Option.some.injEq] at means
    obtain ⟨top, back, rfl⟩ := means
    cases pops
    exact ⟨.inr rfl, back⟩
  | _ => cases effect <;> first | exact yields.elim | cases pops

theorem movesStack_onStack (means : meaning? m op w = some effect) (next : Word) :
    op.MovesStack m.stack (effect.onStack next m.stack) := by
  have yields := yields_of_meaning? means
  have removes {value : Word} (pops : effect.popped? = some value) :
      op.MovesStack m.stack m.stack.pop := by
    obtain ⟨shrinks, back⟩ := back?_of_meaning? means pops
    obtain ⟨below, stack⟩ := Array.back?_eq_some_iff.1 back
    refine .removes shrinks value ?_
    rw [stack, Array.pop_push]
  cases effect with
  | push value =>
    have grows : op = .push := by cases op <;> first | rfl | exact yields.elim
    exact .adds (.inl grows) value rfl
  | call target =>
    have grows : op = .call := by cases op <;> first | rfl | exact yields.elim
    exact .adds (.inr grows) next rfl
  | pop r value => exact removes rfl
  | ret target => exact removes rfl
  | _ => exact .keeps rfl

theorem jumps_of_yields {taken : Bool} {target : Word} (h : op.Yields (.branch taken target)) :
    op = .jumpIf ∨ op = .jumpUnless := by
  cases op <;> first | exact h.elim | simp

end Effect

namespace Machine

/-- All that the instruction can have changed, besides the program counter, when it was carried
out. -/
structure Footprint (m : Machine) (i : Instruction) (n : Machine) : Prop where
  registers : ∀ r, i.destination? ≠ some r → n.registers.get r = m.registers.get r
  image : n.memory.image = m.memory.image
  cells : ∀ addr, i.storeAddress? m ≠ some addr → n.memory.read addr = m.memory.read addr
  stack : i.opcode.MovesStack m.stack n.stack
  input : i.opcode ≠ .input →
    n.console.pending = m.console.pending ∧ n.console.echo = m.console.echo
  output : i.opcode ≠ .output →
    n.console.output = m.console.output ∧ n.console.lines = m.console.lines
  branch : i.opcode ≠ .jumpIf → i.opcode ≠ .jumpUnless → n.branch = m.branch
  checkpoint : ¬ (i.opcode = .input ∧ n.console.pending = []) → n.checkpoint = m.checkpoint
  drained : i.opcode = .input → n.console.pending = [] → n.checkpoint = some n.snapshot

variable {m n : Machine} {i : Instruction} {effect : Effect}

theorem read_memory_apply (means : Effect.meaning? m i.opcode i.operands = some effect)
    (next : Word) {addr : Word} (elsewhere : i.storeAddress? m ≠ some addr) :
    (m.apply next effect).memory.read addr = m.memory.read addr := by
  by_cases stores : i.opcode = .store
  · obtain ⟨_, op, w⟩ := i
    cases stores
    obtain ⟨target, value, resolved, -, rfl⟩ := Effect.meaning?_store means
    have apart : addr ≠ target := by
      rintro rfl
      exact elsewhere resolved
    exact (Memory.read_write _ _ _ _).trans (if_neg apart)
  · have other : ∀ target value, effect ≠ .store target value := by
      rintro target value rfl
      exact stores (Effect.eq_store_of_yields (Effect.yields_of_meaning? means))
    rw [memory_apply m next other]

theorem footprint_apply (means : Effect.meaning? m i.opcode i.operands = some effect)
    (acts : effect ≠ .wait) (next : Word) : m.Footprint i (m.apply next effect) := by
  have yields := Effect.yields_of_meaning? means
  have consumes (asks : i.opcode = .input) : ∃ r ch, effect = .consume r ch :=
    (Effect.wait_or_consume_of_yields (asks ▸ yields)).resolve_left acts
  constructor
  case registers =>
    intro r unwritten
    rw [Effect.destination?_of_meaning? means acts] at unwritten
    exact get_registers_apply m next unwritten
  case image => exact image_apply m next effect
  case cells => exact fun addr elsewhere => read_memory_apply means next elsewhere
  case stack =>
    rw [stack_apply]
    exact Effect.movesStack_onStack means next
  case input =>
    intro other
    rw [console_apply]
    exact Effect.input_onConsole (Effect.consumed?_of_yields yields other) m.console
  case output =>
    intro other
    rw [console_apply]
    exact Effect.output_onConsole (Effect.printed?_of_yields yields other) m.console
  case branch =>
    intro notIf notUnless
    apply branch_apply
    rintro taken target rfl
    obtain jumps | jumps := Effect.jumps_of_yields yields
    · exact notIf jumps
    · exact notUnless jumps
  case checkpoint =>
    intro undrained
    by_cases asks : i.opcode = .input
    · obtain ⟨r, ch, rfl⟩ := consumes asks
      exact checkpoint_takeCheckpoint_of_pending fun empty => undrained ⟨asks, empty⟩
    · refine (keeps_apply m next ?_).2
      rintro r ch rfl
      exact asks (Effect.eq_input_of_yields yields)
  case drained =>
    intro asks empty
    obtain ⟨r, ch, rfl⟩ := consumes asks
    exact checkpoint_takeCheckpoint empty

/-- Text that is supplied goes to an `input`, and to the queue alone. -/
theorem Footprint.of_feed {text : String} (supplied : m.MaySupply i text)
    (h : (m.feed text).Footprint i n) : m.Footprint i n := by
  rw [feed_eq] at h
  refine { h with input := fun other => ?_ }
  obtain rfl | ⟨asks, -⟩ := supplied
  · simpa using h.input other
  · exact absurd asks other

/-- A step that carries out an instruction changes nothing outside the footprint of the
instruction, whoever watches. -/
theorem step_footprint (m : Machine) (config : RunConfig) (observer : Observer σ) (s : σ)
    (completed : (m.step config observer s).result = .ok .continued ∨
      (m.step config observer s).result = .ok .halted) :
    ∃ i, m.memory.instructionAt m.pc = .ok i ∧
      m.Footprint i (m.step config observer s).machine := by
  obtain ⟨progress, result, awake⟩ :
      ∃ progress, (m.step config observer s).result = .ok progress ∧ progress ≠ .suspended := by
    obtain continued | halted := completed
    · exact ⟨_, continued, by simp⟩
    · exact ⟨_, halted, by simp⟩
  obtain ⟨i, effect, text, decoded, supplied, means, goes, after⟩ := completed_of_step result awake
  have acts : effect ≠ .wait := by
    rintro rfl
    exact awake goes.symm
  rw [after]
  exact ⟨i, decoded, (footprint_apply means acts _).of_feed supplied⟩

/-- An observer supplies an `input` with its only character. -/
theorem step_footprint_supplied :
    let config : RunConfig := { suspendOnInput := false }
    let observer : Observer Unit := { supply := fun _ => (some "a", ()) }
    let m : Machine := { memory := Memory.ofImage [20, 32769], stack := #[7] }
    let i : Instruction := ⟨0, .input, #v[32769]⟩
    let n := (m.step config observer ()).machine
    (m.step config observer ()).result = .ok .continued ∧ m.Footprint i n ∧
      n.registers.get 1 = 97 ∧ n.registers.get 0 = m.registers.get 0 ∧
      n.checkpoint = some n.snapshot := by
  intro config observer m i n
  have completed : (m.step config observer ()).result = .ok .continued := by
    unfold m config observer
    simp only [step, awaitsInput, Memory.instructionAt, Memory.extent_eq]
    rfl
  have decoded : m.memory.instructionAt m.pc = .ok i := by
    unfold m
    simp only [Memory.instructionAt, Memory.extent_eq]
    rfl
  have written : n.registers.get 1 = 97 := by
    unfold n m config observer
    simp only [step, awaitsInput, Memory.instructionAt, Memory.extent_eq]
    rfl
  have drained : n.console.pending = [] := by
    unfold n m config observer
    simp only [step, awaitsInput, Memory.instructionAt, Memory.extent_eq]
    rfl
  obtain ⟨j, same, footprint⟩ := step_footprint m config observer () (.inl completed)
  rw [decoded] at same
  cases same
  have apart : i.destination? ≠ some 0 := by decide
  exact ⟨completed, footprint, written, footprint.registers 0 apart, footprint.drained rfl drained⟩

end Machine

end WordMachine

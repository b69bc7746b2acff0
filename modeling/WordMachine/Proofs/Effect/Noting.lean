import WordMachine.Debugger
import WordMachine.Proofs.Effect.Meaning
import WordMachine.Proofs.Effect.Script

/-!
What a debugger notes of an instruction. An instruction asks whether it may read a register that an
operand names, its destination apart, and an `output` whether it may print its operand's character
(`Instruction.Asks`). A debugger that stops an instruction does so at one of these which it minds,
and takes a note of it; of an instruction that it lets pass it takes none (`noting_resolve`).
-/

namespace WordMachine

/-- The address at which an observer said stop, if that is the fault. -/
def Fault.stop? : Fault → Option Word
  | stopped pc => some pc
  | _ => none

/-- The first operand is the register to be written. -/
def Opcode.hasDestination : Opcode → Bool
  | set | pop | eq | gt | add | mult | mod | and | or | not | load | input => true
  | _ => false

namespace Instruction

/-- The operands of which the instruction takes the values. -/
def sources (i : Instruction) : List Word :=
  i.operands.toList.drop (if i.opcode.hasDestination then 1 else 0)

theorem getElem_mem_sources (i : Instruction) {k : Nat} (inside : k < i.opcode.operandCount)
    (source : (if i.opcode.hasDestination then 1 else 0) ≤ k) : i.operands[k] ∈ i.sources := by
  rw [sources, List.mem_drop_iff_getElem]
  refine ⟨k - (if i.opcode.hasDestination then 1 else 0), ?_, ?_⟩
  · rw [Vector.length_toList]
    omega
  · simp only [Nat.add_sub_cancel' source, Vector.getElem_toList]

/-- What the instruction may come to ask on this machine. -/
def Asks (i : Instruction) (m : Machine) : Question → Prop
  | .read r => ∃ w ∈ i.sources, Operand.ofWord? w = some (.register r)
  | .output ch =>
    i.opcode = .output ∧ ∃ w ∈ i.sources, (Effect.value? m w).map Effect.character = some ch

end Instruction

def Question.hitAt (pc : Word) : Question → Hit
  | .read r => .registerRead pc r
  | .output ch => .output pc ch

def Debugger.minds (d : Debugger) : Question → Bool
  | .read r => d.watched.get r
  | .output _ => d.breakOnOutput

theorem Debugger.answer_observer (pc : Word) (q : Question) (d : Debugger) :
    observer.answer pc q d = d.stopIf (d.minds q) (q.hitAt pc) := by
  cases q <;> rfl

namespace Effect

/-- The address at which a computation was stopped. -/
def stop? : Except Fault α → Option Word
  | .error f => f.stop?
  | .ok _ => none

/-- The debugger lets the questions pass, with script handed out at most; or it stops the machine at
one of them, which it minds, and notes that one. -/
inductive Notes (pc : Word) (asks : Question → Prop) (d : Debugger) :
    Option Word → Debugger → Prop where
  | passed (script : List String) : Notes pc asks d none { d with script }
  | stopped {q : Question} (script : List String) (asked : asks q) (minds : d.minds q = true) :
    Notes pc asks d (some pc) { d with script, lastHit := some (q.hitAt pc) }

section Notes

variable {pc pc' : Word} {asks asks' : Question → Prop} {d d' : Debugger}

/-- What was handed out before does not matter. -/
theorem Notes.of_script {script : List String} {stop : Option Word}
    (notes : Notes pc asks { d with script } stop d') : Notes pc asks d stop d' := by
  cases notes with
  | passed rest => exact .passed rest
  | stopped rest asked minds => exact .stopped rest asked minds

theorem Notes.imp {stop : Option Word} (notes : Notes pc asks d stop d')
    (asked : ∀ q, asks q → asks' q) : Notes pc asks' d stop d' := by
  cases notes with
  | passed script => exact .passed script
  | stopped script asks minds => exact .stopped script (asked _ asks) minds

theorem Notes.elsewhere (notes : Notes pc asks d none d') : Notes pc' asks' d none d' := by
  cases notes with
  | passed script => exact .passed script

end Notes

def Noting (m : Machine) (asks : Question → Prop) (x : Resolve Debugger α) : Prop :=
  ∀ t : Dialogue Debugger, Notes m.pc asks t.observer (stop? (x.run t).1) (x.run t).2.observer

namespace Noting

variable {m : Machine} {asks : Question → Prop}

theorem pure (a : α) : Noting m asks (Pure.pure a) := fun t => .passed t.observer.script

theorem fault {f : Fault} (other : f.stop? = none) :
    Noting m asks (.fault f : Resolve Debugger α) := by
  intro t
  simp only [Resolve.run_fault, stop?, other]
  exact .passed t.observer.script

theorem ask {q : Question} (asked : asks q) :
    Noting m asks (consult m (Debugger.observer.answer m.pc q)) := by
  intro t
  simp only [consult, Resolve.run, Debugger.answer_observer, Debugger.stopIf]
  cases minds : t.observer.minds q with
  | true => exact .stopped t.observer.script asked minds
  | false => exact .passed t.observer.script

/-- The rest matters only for what the first computation can return. -/
theorem bind {x : Resolve Debugger α} {f : α → Resolve Debugger β} (first : Noting m asks x)
    (rest : ∀ a t t', x.run t = (.ok a, t') → Noting m asks (f a)) :
    Noting m asks (x >>= f) := by
  intro t
  have before := first t
  rw [Resolve.run_bind]
  generalize returned : x.run t = r at before
  obtain ⟨fault | a, between⟩ := r
  · exact before
  · have before : Notes m.pc asks t.observer none between.observer := before
    obtain ⟨d, text⟩ := between
    cases before with
    | passed script => exact (rest a t _ returned ⟨_, text⟩).of_script

end Noting

variable {m : Machine} {asks : Question → Prop} {config : RunConfig} {op : Opcode}

/-- If the word names a register, its read is among the questions. -/
def Reads (asks : Question → Prop) (w : Word) : Prop :=
  ∀ r, Operand.ofWord? w = some (.register r) → asks (.read r)

theorem noting_read {w : Word} (reads : Reads asks w) :
    Noting m asks (read Debugger.observer m op w) := by
  unfold read
  split
  · exact .pure _
  · rename_i r operand
    exact (Noting.ask (reads r operand)).bind fun _ _ _ _ => .pure _
  · exact .fault rfl

theorem noting_destination (w : Word) : Noting m asks (destination m op w) := by
  unfold destination
  split
  · exact .pure _
  · exact .fault rfl
  · exact .fault rfl

theorem noting_top : Noting m asks (top m op) := by
  unfold top
  split
  · exact .pure _
  · exact .fault rfl

theorem noting_unary (f : Word → Word) (a : Word) {b : Word} (reads : Reads asks b) :
    Noting m asks (unary Debugger.observer m op f a b) :=
  (noting_destination a).bind fun _ _ _ _ => (noting_read reads).bind fun _ _ _ _ => .pure _

theorem noting_binary (f : Word → Word → Word) (a : Word) {b c : Word} (reads : Reads asks b)
    (reads' : Reads asks c) : Noting m asks (binary Debugger.observer m op f a b c) :=
  (noting_destination a).bind fun _ _ _ _ => (noting_read reads).bind fun _ _ _ _ =>
    (noting_read reads').bind fun _ _ _ _ => .pure _

theorem noting_remainder (a : Word) {b c : Word} (reads : Reads asks b) (reads' : Reads asks c) :
    Noting m asks (remainder Debugger.observer m op a b c) := by
  refine (noting_destination a).bind fun _ _ _ _ => (noting_read reads).bind fun _ _ _ _ =>
    (noting_read reads').bind fun _ _ _ _ => ?_
  split
  · exact .fault rfl
  · exact .pure _

/-- An effect that takes the values of two operands. -/
theorem noting_takingTwo {a b : Word} (f : Word → Word → Effect) (reads : Reads asks a)
    (reads' : Reads asks b) :
    Noting m asks (do let x ← read Debugger.observer m op a
                      return f x (← read Debugger.observer m op b)) :=
  (noting_read reads).bind fun _ _ _ _ => (noting_read reads').bind fun _ _ _ _ => .pure _

theorem noting_output {a : Word} (reads : Reads asks a)
    (prints : ∀ value, value? m a = some value → asks (.output (character value))) :
    Noting m asks (output config Debugger.observer m op a) := by
  refine (noting_read reads).bind fun value _ _ returned => ?_
  obtain ⟨operand, -⟩ := read_ok returned
  split
  · exact .fault rfl
  · exact (Noting.ask (prints value operand)).bind fun _ _ _ _ => .pure _

theorem noting_firstInput : Noting m asks (firstInput Debugger.observer m) := by
  intro t
  obtain ⟨d, text⟩ := t
  simp only [firstInput, Resolve.run, Debugger.observer, Debugger.nextLine]
  cases m.console.pending with
  | cons ch rest => exact .passed d.script
  | nil =>
    cases d.script with
    | nil => exact .passed d.script
    | cons line rest => exact .passed rest

theorem noting_input (a : Word) : Noting m asks (input Debugger.observer m op a) := by
  refine (noting_destination a).bind fun _ _ _ _ => noting_firstInput.bind fun first _ _ _ => ?_
  cases first with
  | none => exact .pure _
  | some ch =>
    dsimp only
    split
    · exact .pure _
    · exact .fault rfl

theorem noting_resolve (m : Machine) (config : RunConfig) (i : Instruction) :
    Noting m (i.Asks m) (resolve config Debugger.observer m i.opcode i.operands) := by
  obtain ⟨addr, op, w⟩ := i
  have source (k : Nat) (inside : k < op.operandCount)
      (behind : (if op.hasDestination then 1 else 0) ≤ k) :
      w[k] ∈ Instruction.sources ⟨addr, op, w⟩ :=
    Instruction.getElem_mem_sources ⟨addr, op, w⟩ inside behind
  have reads (k : Nat) (inside : k < op.operandCount)
      (behind : (if op.hasDestination then 1 else 0) ≤ k) :
      Reads (Instruction.Asks ⟨addr, op, w⟩ m) w[k] :=
    fun r named => ⟨_, source k inside behind, named⟩
  cases op with
  | halt | noop => exact .pure _
  | set | not | load => exact noting_unary _ _ (reads 1 (by decide) (by decide))
  | eq | gt | add | mult | and | or =>
    exact noting_binary _ _ (reads 1 (by decide) (by decide)) (reads 2 (by decide) (by decide))
  | mod =>
    exact noting_remainder _ (reads 1 (by decide) (by decide)) (reads 2 (by decide) (by decide))
  | push | jump | call =>
    exact (noting_read (reads 0 (by decide) (by decide))).bind fun _ _ _ _ => .pure _
  | pop => exact (noting_destination _).bind fun _ _ _ _ => noting_top.bind fun _ _ _ _ => .pure _
  | jumpIf | jumpUnless | store =>
    exact noting_takingTwo _ (reads 0 (by decide) (by decide)) (reads 1 (by decide) (by decide))
  | ret => exact noting_top.bind fun _ _ _ _ => .pure _
  | output =>
    refine noting_output (reads 0 (by decide) (by decide)) fun value operand => ?_
    exact ⟨rfl, _, source 0 (by decide) (by decide), by rw [operand, Option.map_some]⟩
  | input => exact noting_input _

end Effect

end WordMachine

import WordMachine.Proofs.Effect.Closing
import WordMachine.Proofs.Effect.Kind
import WordMachine.Proofs.Step.Failure

/-!
What is said in a step. An observer may keep a transcript of what it is told and of what it
supplies, and the step is the same without one (`step_recorded`). The transcript of a turn shows
that an instruction which is not completed tells nothing and leaves the console with what was
supplied; one that is completed tells of its effect, and of nothing else (`happens_turn`).
-/

namespace WordMachine

/-- What an execution tells its observer and what it is supplied with, each in order. -/
structure Transcript where
  /-- The characters consumed, each with the address of the instruction. -/
  inputs : List (Word × Char) := []
  /-- The lines completed. -/
  lines : List String := []
  /-- The texts supplied. -/
  texts : List String := []

/-- The same observer, which keeps a transcript beside its own state. -/
def Observer.recorded (o : Observer σ) : Observer (σ × Transcript) where
  beforeRead pc r s := ((o.beforeRead pc r s.1).1, (o.beforeRead pc r s.1).2, s.2)
  beforeOutput pc ch s := ((o.beforeOutput pc ch s.1).1, (o.beforeOutput pc ch s.1).2, s.2)
  onInput pc ch s := (o.onInput pc ch s.1, { s.2 with inputs := s.2.inputs ++ [(pc, ch)] })
  onLine line s := (o.onLine line s.1, { s.2 with lines := s.2.lines ++ [line] })
  supply s :=
    match o.supply s.1 with
    | (some text, rest) => (some text, rest, { s.2 with texts := s.2.texts ++ [text] })
    | (none, rest) => (none, rest, s.2)

namespace Effect

/-- The character that the effect takes from the queue. -/
def consumed? : Effect → Option Char
  | consume _ ch => some ch
  | _ => none

/-- The character that the effect prints. -/
def printed? : Effect → Option Char
  | emit ch => some ch
  | _ => none

/-- The line that the effect completes, if so much of it was there. -/
def completed? (output : String) (effect : Effect) : Option String :=
  if effect.printed? = some '\n' then some output else none

variable {effect : Effect}

theorem consumed?_of_yields {op : Opcode} (yields : op.Yields effect) (other : op ≠ .input) :
    effect.consumed? = none := by
  cases effect with
  | consume r ch => exact absurd (eq_input_of_yields yields) other
  | _ => rfl

theorem input_onConsole (takesNone : effect.consumed? = none) (c : Console) :
    (effect.onConsole c).pending = c.pending ∧ (effect.onConsole c).echo = c.echo := by
  cases effect with
  | consume r ch => cases takesNone
  | emit ch => by_cases newline : ch = '\n' <;> simp [onConsole, Console.emit, newline]
  | _ => exact ⟨rfl, rfl⟩

theorem printed?_of_yields {op : Opcode} (yields : op.Yields effect) (other : op ≠ .output) :
    effect.printed? = none := by
  cases effect with
  | emit ch => cases op <;> first | exact absurd rfl other | exact yields.elim
  | _ => rfl

theorem output_onConsole (printsNone : effect.printed? = none) (c : Console) :
    (effect.onConsole c).output = c.output ∧ (effect.onConsole c).lines = c.lines := by
  cases effect with
  | emit ch => cases printsNone
  | consume r ch =>
    simp only [onConsole, Console.drain]
    split <;> exact ⟨rfl, rfl⟩
  | _ => exact ⟨rfl, rfl⟩

end Effect

namespace Transcript

/-- The transcript with texts supplied after it. -/
def supply (t : Transcript) (texts : List String) : Transcript :=
  { t with texts := t.texts ++ texts }

/-- The transcript with what the effect on the machine tells after it. -/
def note (t : Transcript) (m : Machine) (effect : Effect) : Transcript :=
  { t with
    inputs := t.inputs ++ effect.consumed?.toList.map (m.pc, ·)
    lines := t.lines ++ (effect.completed? m.console.output).toList }

end Transcript

/-- The dialogue as an observer with a transcript has it. -/
def Dialogue.recorded (d : Dialogue σ) (t : Transcript) : Dialogue (σ × Transcript) :=
  ⟨(d.observer, t), d.supplied⟩

namespace Effect

variable {m : Machine} {op : Opcode} {config : RunConfig} {o : Observer σ}

/-- Nothing goes into the transcript unless it is told or supplied. -/
theorem Uniform.run_recorded {x : ∀ σ, Observer σ → Resolve σ α} (h : Uniform m x)
    (d : Dialogue σ) (t : Transcript) :
    (x _ o.recorded).run (d.recorded t) =
      (((x σ o).run d).1, ((x σ o).run d).2.recorded t) := by
  induction h generalizing d with
  | pure a => rfl
  | fault => rfl
  | ask q =>
    have answers : o.recorded.answer m.pc q (d.observer, t) =
        ((o.answer m.pc q d.observer).1, (o.answer m.pc q d.observer).2, t) := by
      cases q <;> rfl
    simp only [consult, Resolve.run, Dialogue.recorded, answers]
    rcases o.answer m.pc q d.observer with ⟨_ | _, s⟩ <;> rfl
  | @bind α β x f _ _ first rest =>
    rw [Resolve.run_bind, Resolve.run_bind, first]
    generalize (x σ o).run d = r
    obtain ⟨_ | a, between⟩ := r
    · rfl
    · exact rest a between

theorem firstInput_recorded (o : Observer σ) (m : Machine) (s : σ) (t : Transcript) :
    let r := (firstInput o m).run ⟨s, ""⟩
    ∃ texts, String.join texts = r.2.supplied ∧
      (firstInput o.recorded m).run ⟨(s, t), ""⟩ = (r.1, r.2.recorded (t.supply texts)) := by
  have silent : t.supply [] = t := by simp [Transcript.supply]
  simp only [firstInput, Resolve.run]
  cases m.console.pending with
  | cons ch rest => exact ⟨[], rfl, by rw [silent]; rfl⟩
  | nil =>
    simp only [Observer.recorded]
    rcases o.supply s with ⟨_ | text, rest⟩
    · exact ⟨[], rfl, by rw [silent]; rfl⟩
    · exact ⟨[text], by simp, rfl⟩

/-- Resolving an instruction comes to the same with a transcript, and only what was supplied goes
into it. -/
theorem resolve_recorded (config : RunConfig) (o : Observer σ) (m : Machine)
    (w : Vector Word op.operandCount) (s : σ) (t : Transcript) :
    let r := (resolve config o m op w).run ⟨s, ""⟩
    ∃ texts, String.join texts = r.2.supplied ∧
      (resolve config o.recorded m op w).run ⟨(s, t), ""⟩ =
        (r.1, r.2.recorded (t.supply texts)) := by
  have silent : t.supply [] = t := by simp [Transcript.supply]
  have uniform {x : ∀ σ, Observer σ → Resolve σ Effect} (h : Uniform m x) :
      ∃ texts, String.join texts = ((x σ o).run ⟨s, ""⟩).2.supplied ∧
        (x _ o.recorded).run ⟨(s, t), ""⟩ =
          (((x σ o).run ⟨s, ""⟩).1, ((x σ o).run ⟨s, ""⟩).2.recorded (t.supply texts)) := by
    have nothing := (h.sameScript o).supplied ⟨s, ""⟩
    refine ⟨[], nothing.symm, ?_⟩
    rw [silent]
    exact h.run_recorded ⟨s, ""⟩ t
  by_cases asks : op = .input
  · subst asks
    by_cases names : ∃ reg, Operand.ofWord? w[0] = some (.register reg)
    · obtain ⟨reg, operand⟩ := names
      obtain ⟨first, d, asked, -⟩ := firstInput_supplies o m s
      obtain ⟨texts, joined, told⟩ := firstInput_recorded o m s t
      rw [asked] at joined told
      refine ⟨texts, ?_, ?_⟩
      · simp only [resolve, run_input operand asked]
        exact joined
      · simp only [resolve, run_input operand asked, run_input operand told]
    · exact uniform (uniform_input_of_unnamed (not_exists.1 names))
  · exact uniform (uniform_resolve w fun same => absurd same asks)

end Effect

theorem Observer.notify_recorded (o : Observer σ) (m : Machine) (effect : Effect) (s : σ)
    (t : Transcript) :
    o.recorded.notify m effect (s, t) = (o.notify m effect s, t.note m effect) := by
  have silent : ({ t with inputs := t.inputs ++ [], lines := t.lines ++ [] } : Transcript) = t := by
    simp
  cases effect with
  | emit ch =>
    by_cases line : ch = '\n' <;>
      simp [notify, line, recorded, Transcript.note, Effect.consumed?, Effect.completed?,
        Effect.printed?]
  | consume r ch =>
    simp [notify, recorded, Transcript.note, Effect.consumed?, Effect.completed?, Effect.printed?]
  | _ => exact congrArg (Prod.mk s) silent.symm

namespace Machine

/-- Keeping a transcript changes nothing. -/
theorem step_recorded (m : Machine) (config : RunConfig) (o : Observer σ) (s : σ)
    (t : Transcript) :
    let r := m.step config o s
    let kept := m.step config o.recorded (s, t)
    kept.result = r.result ∧ kept.machine = r.machine ∧ kept.observer.1 = r.observer := by
  simp only [step]
  split
  · exact ⟨rfl, rfl, rfl⟩
  · split
    · exact ⟨rfl, rfl, rfl⟩
    · rename_i i _
      obtain ⟨texts, -, told⟩ := Effect.resolve_recorded config o m i.operands s t
      simp only [execute, told]
      generalize (Effect.resolve config o m i.opcode i.operands).run ⟨s, ""⟩ = r
      obtain ⟨outcome, d⟩ := r
      cases outcome with
      | ok effect => exact ⟨rfl, rfl, by simp only [Dialogue.recorded, o.notify_recorded]⟩
      | error fault => cases fault <;> exact ⟨rfl, rfl, rfl⟩

end Machine

/-- A step as it went: the machines before and after it, its result, and what was said in it. -/
structure Turn where
  before : Machine
  result : Except Fault Progress
  after : Machine
  transcript : Transcript

namespace Turn

/-- The text that an observer supplied in the turn. -/
def supplied (t : Turn) : String := String.join t.transcript.texts

/-- The instruction that was carried out, with execution going on behind it. -/
def completed? (t : Turn) : Option Instruction :=
  match t.result with
  | .ok .continued => (t.before.memory.instructionAt t.before.pc).toOption
  | _ => none

/-- What becomes of the console, and what an observer is told of it. -/
inductive Happens (t : Turn) : Prop where
  | incomplete (unfinished : t.completed? = none)
    (console : t.after.console = t.before.console.feed t.supplied)
    (inputs : t.transcript.inputs = []) (lines : t.transcript.lines = [])
  | completed {i : Instruction} {effect : Effect} (completes : t.completed? = some i)
    (means : Effect.meaning? (t.before.feed t.supplied) i.opcode i.operands = some effect)
    (goes : effect.progress = .continued)
    (after : t.after = (t.before.feed t.supplied).apply (UInt16.ofNat i.next) effect)
    (inputs : t.transcript.inputs = effect.consumed?.toList.map (t.before.pc, ·))
    (lines : t.transcript.lines = (effect.completed? t.before.console.output).toList)

end Turn

namespace Machine

/-- The next step, with a transcript of it. -/
def turn (m : Machine) (config : RunConfig) (o : Observer σ) (s : σ) : Turn :=
  let r := m.step config o.recorded (s, {})
  ⟨m, r.result, r.machine, r.observer.2⟩

variable {m : Machine} {config : RunConfig} {o : Observer σ} {s : σ}

theorem turn_after : (m.turn config o s).after = (m.step config o s).machine :=
  (m.step_recorded config o s {}).2.1

theorem happens_of_execute {i : Instruction}
    (decoded : m.memory.instructionAt m.pc = .ok i) :
    let r := m.execute config o.recorded (s, {}) i
    Turn.Happens ⟨m, r.result, r.machine, r.observer.2⟩ := by
  obtain ⟨texts, joined, told⟩ := Effect.resolve_recorded config o m i.operands s {}
  have closes := Effect.closes_resolve config o m i.operands s
  simp only [execute, told]
  generalize resolved : (Effect.resolve config o m i.opcode i.operands).run ⟨s, ""⟩ = r at *
  obtain ⟨fault | effect, rest, text⟩ := r
  all_goals obtain rfl : String.join texts = text := joined
  · cases fault with
    | stopped pc =>
      -- Only a character that is too large leaves a text behind.
      obtain nothing | ⟨ch, same⟩ := closes.character _ rfl
      · have nothing : String.join texts = "" := nothing
        refine .incomplete rfl ?_ rfl rfl
        exact (nothing ▸ Console.feed_empty m.console).symm
      · cases same
    | _ => exact .incomplete rfl rfl rfl rfl
  · obtain ⟨means, -⟩ := Effect.meaning?_of_resolve resolved
    simp only [Dialogue.recorded, o.notify_recorded]
    cases goes : effect.progress with
    | continued =>
      refine .completed (i := i) ?_ means goes rfl rfl ?_
      · simp [Turn.completed?, decoded, Except.toOption]
      · have kept : (m.feed (String.join texts)).console.output = m.console.output := by
          rw [feed_eq]
        rw [← kept]
        rfl
    | halted | suspended =>
      cases effect <;> cases goes
      exact .incomplete rfl rfl rfl rfl

theorem happens_turn (m : Machine) (config : RunConfig) (o : Observer σ) (s : σ) :
    (m.turn config o s).Happens := by
  unfold turn
  obtain asleep | ⟨fault, fails, undecoded⟩ | ⟨i, decoded, executes⟩ :=
    step_cases m config o.recorded (s, {})
  · rw [asleep]
    exact .incomplete rfl (Console.feed_empty _).symm rfl rfl
  · rw [undecoded]
    exact .incomplete rfl (Console.feed_empty _).symm rfl rfl
  · rw [executes]
    exact happens_of_execute decoded

end Machine

end WordMachine

import WordMachine.Proofs.Effect.Closing
import WordMachine.Proofs.Effect.Kind
import WordMachine.Proofs.Step.Outcome

/-!
How a step depends on the input queue and on the checkpoint. No step looks at the checkpoint
(`step_of_unmarked`); and a step that is not waiting for input does the same with more input queued
behind (`step_feed`), but for the checkpoint, which is taken when the queue runs empty.
-/

namespace WordMachine

/-- The step, with text fed to the machine that it leaves. -/
def Step.feed (r : Step σ) (text : String) : Step σ :=
  { r with machine := r.machine.feed text }

namespace Machine

/-- The machine without its checkpoint. -/
def unmarked (m : Machine) : Machine := { m with checkpoint := none }

variable {m n : Machine} {config : RunConfig} {observer : Observer σ} {s : σ}

theorem eq_of_unmarked (h : m.unmarked = n.unmarked) :
    n = { m with checkpoint := n.checkpoint } := by
  cases m
  cases n
  cases h
  rfl

theorem unmarked_takeCheckpoint (m : Machine) : m.takeCheckpoint.unmarked = m.unmarked := by
  unfold takeCheckpoint
  split <;> rfl

theorem unmarked_apply (m : Machine) (next : Word) (effect : Effect) :
    (m.unmarked.apply next effect).unmarked = (m.apply next effect).unmarked := by
  cases effect with
  | branch taken target => cases taken <;> rfl
  | consume r ch =>
    simp only [apply, unmarked_takeCheckpoint]
    rfl
  | _ => rfl

theorem resolve_unmarked (config : RunConfig) (observer : Observer σ) (m : Machine) (op : Opcode)
    (w : Vector Word op.operandCount) :
    Effect.resolve config observer m.unmarked op w = Effect.resolve config observer m op w := by
  cases op <;> rfl

/-- The same outcome for the caller and the observer, on machines that differ in no more than the
checkpoint. -/
structure Matches (left right : Step σ) : Prop where
  result : left.result = right.result
  observer : left.observer = right.observer
  machine : left.machine.unmarked = right.machine.unmarked

theorem Matches.trans {left middle right : Step σ} (first : Matches left middle)
    (second : Matches middle right) : Matches left right :=
  ⟨first.result.trans second.result, first.observer.trans second.observer,
    first.machine.trans second.machine⟩

theorem execute_unmarked (m : Machine) (config : RunConfig) (observer : Observer σ) (s : σ)
    (i : Instruction) :
    Matches (m.unmarked.execute config observer s i) (m.execute config observer s i) := by
  simp only [execute, resolve_unmarked]
  obtain ⟨outcome, d⟩ := (Effect.resolve config observer m i.opcode i.operands).run ⟨s, ""⟩
  cases outcome with
  | ok effect =>
    refine ⟨rfl, ?_, unmarked_apply (m.feed d.supplied) _ effect⟩
    cases effect <;> rfl
  | error fault => cases fault <;> exact ⟨rfl, rfl, rfl⟩

theorem step_unmarked (m : Machine) (config : RunConfig) (observer : Observer σ) (s : σ) :
    Matches (m.unmarked.step config observer s) (m.step config observer s) := by
  have awaits : m.unmarked.awaitsInput = m.awaitsInput := rfl
  have decodes : m.unmarked.memory.instructionAt m.unmarked.pc = m.memory.instructionAt m.pc := rfl
  simp only [step, awaits, decodes]
  split
  · exact ⟨rfl, rfl, rfl⟩
  · split
    · exact ⟨rfl, rfl, rfl⟩
    · exact execute_unmarked m config observer s _

theorem step_of_unmarked (h : m.unmarked = n.unmarked) (config : RunConfig) (observer : Observer σ)
    (s : σ) : Matches (m.step config observer s) (n.step config observer s) := by
  have left := step_unmarked m config observer s
  have right := step_unmarked n config observer s
  rw [h] at left
  exact ⟨left.result.symm.trans right.result, left.observer.symm.trans right.observer,
    left.machine.symm.trans right.machine⟩

theorem drain_feed {c : Console} (ready : c.pending ≠ []) (text : String) :
    (c.feed text).drain = c.drain.feed text := by
  obtain ⟨_ | ⟨ch, rest⟩, echo, output, lines⟩ := c
  · exact absurd rfl ready
  · simp [Console.feed_eq, Console.drain]

theorem emit_feed (c : Console) (ch : Char) (text : String) :
    (c.feed text).emit ch = (c.emit ch).feed text := by
  simp only [Console.feed_eq, Console.emit]
  split <;> rfl

theorem unmarked_feed (m : Machine) (text : String) :
    (m.feed text).unmarked = m.unmarked.feed text := rfl

theorem apply_feed (m : Machine) (next : Word) {effect : Effect} (text : String)
    (ready : ∀ r ch, effect = .consume r ch → m.console.pending ≠ []) :
    ((m.feed text).apply next effect).unmarked = ((m.apply next effect).feed text).unmarked := by
  cases effect with
  | branch taken target => cases taken <;> rfl
  | emit ch => simp [apply, feed, unmarked, emit_feed]
  | consume r ch =>
    have drained := drain_feed (ready r ch rfl) text
    simp only [apply, unmarked_takeCheckpoint, unmarked_feed]
    simp only [feed, drained]
    rfl
  | _ => rfl

theorem resolve_feed (config : RunConfig) (observer : Observer σ) (m : Machine) {op : Opcode}
    (w : Vector Word op.operandCount) (text : String)
    (ready : op = .input → m.console.pending ≠ []) :
    Effect.resolve config observer (m.feed text) op w = Effect.resolve config observer m op w := by
  cases op with
  | input =>
    obtain ⟨ch, rest, pending⟩ := List.exists_cons_of_ne_nil (ready rfl)
    have first : Effect.firstInput observer (m.feed text) = Effect.firstInput observer m := by
      funext d
      simp [Effect.firstInput, feed_eq, pending]
    simp only [Effect.resolve, Effect.input, first]
    rfl
  | _ => rfl

/-- An instruction that does not find the queue empty is not supplied with text. -/
theorem resolve_of_ready (config : RunConfig) (observer : Observer σ) (s : σ) {op : Opcode}
    (w : Vector Word op.operandCount) (ready : op = .input → m.console.pending ≠ []) :
    ∃ outcome t, (Effect.resolve config observer m op w).run ⟨s, ""⟩ = (outcome, ⟨t, ""⟩) ∧
      ∀ effect, outcome = .ok effect → op.Yields effect := by
  have closes := Effect.closes_resolve config observer m w s
  generalize resolved : (Effect.resolve config observer m op w).run ⟨s, ""⟩ = r at closes
  obtain ⟨outcome, t, text⟩ := r
  have nothing : text = "" := by
    rcases closes.supplies with nothing | ⟨asks, empty, -⟩
    · exact nothing
    · exact absurd empty (ready asks)
  subst nothing
  refine ⟨outcome, t, rfl, ?_⟩
  rintro effect rfl
  exact Effect.yields_of_meaning? (Effect.meaning?_of_resolve resolved).1

theorem notify_feed (observer : Observer σ) (m : Machine) (text : String) (effect : Effect)
    (s : σ) : observer.notify (m.feed text) effect s = observer.notify m effect s := by
  cases effect with
  | emit ch => simp [Observer.notify, feed_eq]
  | _ => rfl

theorem execute_feed (m : Machine) (config : RunConfig) (observer : Observer σ) (s : σ)
    {i : Instruction} (text : String) (ready : i.opcode = .input → m.console.pending ≠ []) :
    Matches ((m.feed text).execute config observer s i)
      ((m.execute config observer s i).feed text) := by
  obtain ⟨outcome, t, resolved, yields⟩ := resolve_of_ready config observer s i.operands ready
  simp only [execute, resolve_feed config observer m i.operands text ready, resolved]
  cases outcome with
  | ok effect =>
    simp only [feed_empty]
    refine ⟨rfl, notify_feed observer m text effect _, ?_⟩
    apply apply_feed
    rintro r ch rfl
    exact ready (Effect.eq_input_of_yields (yields _ rfl))
  | error fault => cases fault <;> exact ⟨rfl, rfl, rfl⟩

theorem awaitsInput_feed (awake : m.awaitsInput = false) (text : String) :
    (m.feed text).awaitsInput = false := by
  simp only [awaitsInput, Bool.and_eq_false_imp, Bool.not_eq_false', Console.hasInput,
    Bool.not_eq_true'] at awake ⊢
  intro asks
  have pending : m.console.pending ≠ [] := by simpa using awake asks
  simp [feed_eq, pending]

theorem step_feed (suspends : config.suspendOnInput = true)
    (awake : (m.step config observer s).result ≠ .ok .suspended) (text : String) :
    Matches ((m.feed text).step config observer s) ((m.step config observer s).feed text) := by
  have stays := awaitsInput_of_awake suspends awake
  have stays' := awaitsInput_feed stays text
  have decodes : (m.feed text).memory.instructionAt (m.feed text).pc =
    m.memory.instructionAt m.pc := rfl
  simp only [step, stays, stays', decodes, Bool.and_false, Bool.false_eq_true, if_false]
  split
  · exact ⟨rfl, rfl, rfl⟩
  · rename_i i decoded
    exact execute_feed m config observer s text (pending_of_awake stays decoded)

end Machine

end WordMachine

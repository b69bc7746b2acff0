import WordMachine.Debugger
import WordMachine.Proofs.Run.Feeding

/-!
Input on demand. A run that is not to be suspended asks its observer where a suspended one comes
back to the caller; the observer's answer does what the caller's does, as long as the instruction is
whole and names a register, since the run that asks has decoded it by then. `scripted_as_fed` says
so of a debugger that hands out lines, for any number of them.
-/

namespace WordMachine

namespace RunConfig

/-- The same, but an `input` that lacks input asks the observer for it. -/
def asking (config : RunConfig) : RunConfig := { config with suspendOnInput := false }

theorem asking_unlimited {config : RunConfig} (unlimited : config.stepLimit = none) :
    config.asking.stepLimit = none := unlimited

end RunConfig

namespace Machine

variable {config : RunConfig} {observer : Observer σ} {m n p : Machine} {s t u : σ}
  {status : Status}

theorem notify_indifferent (indifferent : observer.Indifferent s) (m : Machine) (effect : Effect) :
    observer.notify m effect s = s := by
  cases effect with
  | emit ch =>
    simp only [Observer.notify, indifferent.onLine]
    exact ite_self s
  | consume r ch => exact indifferent.onInput m.pc ch
  | _ => rfl

/-- An instruction that does not lack input does under an indifferent observer what it does
unwatched. -/
theorem execute_indifferent (indifferent : observer.Indifferent s) {i : Instruction}
    (ready : i.opcode = .input → m.console.pending ≠ []) :
    m.execute config observer s i =
      ⟨(m.execute config .silent () i).result, (m.execute config .silent () i).machine, s⟩ := by
  have uniform : Effect.Uniform m fun _ o => Effect.resolve config o m i.opcode i.operands :=
    Effect.uniform_resolve i.operands ready
  obtain ⟨unheard, unstopped⟩ := uniform.run_indifferent (d := ⟨s, ""⟩) indifferent
  have follows := (uniform.sameScript observer).follows ⟨s, ""⟩ ⟨(), ""⟩
  have nothing := (uniform.sameScript .silent).supplied ⟨(), ""⟩
  simp only [execute]
  generalize (Effect.resolve config observer m i.opcode i.operands).run ⟨s, ""⟩ = r at *
  generalize (Effect.resolve config .silent m i.opcode i.operands).run ⟨(), ""⟩ = alone at *
  obtain ⟨outcome, d⟩ := r
  obtain ⟨outcome', _, text⟩ := alone
  obtain rfl : d = ⟨s, ""⟩ := unheard
  obtain rfl : text = "" := nothing
  obtain rfl : outcome = outcome' := follows.resolve_left (unstopped m.pc)
  cases outcome with
  | ok effect => simp only [notify_indifferent indifferent]
  | error fault => cases fault <;> rfl

theorem step_indifferent (suspends : config.suspendOnInput = true)
    (awake : (m.step config .silent ()).result ≠ .ok .suspended)
    (indifferent : observer.Indifferent s) :
    m.step config.asking observer s =
      ⟨(m.step config .silent ()).result, (m.step config .silent ()).machine, s⟩ := by
  have stays := awaitsInput_of_awake suspends awake
  simp only [step, stays, Bool.and_false, Bool.false_eq_true, if_false]
  cases decoded : m.memory.instructionAt m.pc with
  | error fault => rfl
  | ok i => exact execute_indifferent indifferent (pending_of_awake stays decoded)

/-- Along completed instructions the run that may ask has nothing to ask for. -/
theorem GoesTo.indifferent (suspends : config.suspendOnInput = true) {v w : Unit}
    (way : GoesTo config .silent m v n w) (indifferent : observer.Indifferent s) :
    GoesTo config.asking observer m s n s := by
  induction way with
  | here => exact .here
  | @next m m' n v v' w step _ ih =>
    have awake : (m.step config .silent v).result ≠ .ok .suspended := by
      rw [step]
      nofun
    have alongside := step_indifferent suspends awake indifferent
    have step : m.step config .silent () = ⟨.ok .continued, m', v'⟩ := step
    rw [step] at alongside
    exact .next alongside ih

/-- The instruction at the program counter is an `input` that is whole and names a register. -/
def AtInput (m : Machine) : Prop :=
  ∃ addr w r, m.memory.instructionAt m.pc = .ok ⟨addr, .input, w⟩ ∧
    Operand.ofWord? (Effect.first w) = some (.register r)

/-- Where the silent run is suspended, the one that may ask comes by. -/
theorem ends_iff_of_suspended (suspends : config.suspendOnInput = true)
    (unlimited : config.stepLimit = none) (indifferent : observer.Indifferent s)
    (suspended : m.EndsAlone config .suspended n) {last : Machine} :
    m.Ends config.asking observer s status last t ↔
      n.Ends config.asking observer s status last t := by
  obtain ⟨⟨_, way⟩, -⟩ := suspended.goesTo_of_suspended unlimited
  exact (way.indifferent suspends indifferent).ends_iff (RunConfig.asking_unlimited unlimited)

/-- A silent run that ends otherwise is the run that may ask. -/
theorem Ends.indifferent (suspends : config.suspendOnInput = true)
    (unlimited : config.stepLimit = none) (indifferent : observer.Indifferent s)
    (ended : m.EndsAlone config status n) (other : status ≠ .suspended) :
    m.Ends config.asking observer s status n s := by
  obtain ⟨p, _, way, last, rfl, -⟩ := ended.goesTo unlimited
  have awake : (p.step config .silent ()).result ≠ .ok .suspended := by
    intro suspended
    rw [suspended] at last
    cases last
    exact other rfl
  have alongside := step_indifferent suspends awake indifferent
  have comesBy := way.indifferent suspends indifferent
  have asking := RunConfig.asking_unlimited unlimited
  exact (comesBy.ends_iff asking).2 (ends_of_step asking alongside last)

/-- An `input` that lacks input does with text that its observer supplies what it does with text
that was fed before. -/
theorem step_supplied (config : RunConfig) (here : m.AtInput)
    (empty : m.console.pending = []) {text : String} (given : text ≠ "")
    (supplied : observer.supply s = (some text, t)) :
    m.step config.asking observer s = (m.feed text).step config.asking observer t := by
  obtain ⟨addr, w, r, decoded, names⟩ := here
  have operand : Operand.ofWord? w[0] = some (.register r) := names
  obtain ⟨ch, rest, chars⟩ : ∃ ch rest, text.toList = ch :: rest :=
    List.exists_cons_of_ne_nil (by simpa using given)
  have asked : (Effect.firstInput observer m).run ⟨s, ""⟩ = (.ok (some ch), ⟨t, text⟩) := by
    simp [Effect.firstInput, Resolve.run, empty, supplied, chars]
  have ready :
      (Effect.firstInput observer (m.feed text)).run ⟨t, ""⟩ = (.ok (some ch), ⟨t, ""⟩) := by
    simp [Effect.firstInput, Resolve.run, feed_eq, empty, chars]
  have decoded' : (m.feed text).memory.instructionAt (m.feed text).pc = .ok ⟨addr, .input, w⟩ :=
    decoded
  simp only [step, RunConfig.asking, Bool.false_and, Bool.false_eq_true, if_false, decoded,
    decoded', execute, Effect.resolve, Effect.run_input operand asked,
    Effect.run_input operand ready]
  by_cases fits : ch.toNat < Word.modulus
  · simp only [Effect.consumption, fits, if_true]
    rfl
  · simp only [Effect.consumption, fits, if_false]
    rfl

/-- Without an answer, or with an empty one, the step is suspended. -/
theorem step_unsupplied (config : RunConfig) (here : m.AtInput)
    (empty : m.console.pending = []) {answer : Option String}
    (supplied : observer.supply s = (answer, t)) (nothing : answer.getD "" = "") :
    m.step config.asking observer s = ⟨.ok .suspended, m, t⟩ := by
  obtain ⟨addr, w, r, decoded, names⟩ := here
  have operand : Operand.ofWord? w[0] = some (.register r) := names
  have asked : (Effect.firstInput observer m).run ⟨s, ""⟩ = (.ok none, ⟨t, ""⟩) := by
    cases answer with
    | none => simp [Effect.firstInput, Resolve.run, empty, supplied]
    | some text =>
      obtain rfl : text = "" := nothing
      simp [Effect.firstInput, Resolve.run, empty, supplied]
  simp only [step, RunConfig.asking, Bool.false_and, Bool.false_eq_true, if_false, decoded, execute,
    Effect.resolve, Effect.run_input operand asked, Effect.consumption, feed_empty]
  rfl

end Machine

namespace Debugger

/-- No breakpoint is set. -/
structure Unarmed (d : Debugger) : Prop where
  output : d.breakOnOutput = false
  registers : ∀ r, d.watched.get r = false

theorem Unarmed.indifferent {d : Debugger} (unarmed : d.Unarmed) : observer.Indifferent d where
  answers pc q := by
    cases q with
    | read r => simp [Observer.answer, observer, stopIf, unarmed.registers r]
    | output ch => simp [Observer.answer, observer, stopIf, unarmed.output]
  onInput _ _ := rfl
  onLine _ := rfl

theorem completeLine_ne_empty (line : String) : completeLine line ≠ "" := by
  unfold completeLine
  split
  · rintro rfl
    simp_all
  · intro h
    simpa using congrArg String.toList h

theorem foldl_scriptLine (d : Debugger) (lines : List String) :
    lines.foldl scriptLine d = { d with script := d.script ++ lines.map completeLine } := by
  induction lines generalizing d with
  | nil => simp
  | cons line lines ih => simp [ih, scriptLine]

end Debugger

namespace Machine

/-- A silent run is fed the next line whenever it is suspended, each time at a whole `input` that
names a register. In the end it ends otherwise, or it is suspended when no line is left; some lines
may be left over. -/
inductive FedOnDemand (config : RunConfig) :
    Machine → List String → Status → Machine → List String → Prop where
  | ended {m n : Machine} {status : Status} {lines : List String} :
    m.EndsAlone config status n → status ≠ .suspended → FedOnDemand config m lines status n lines
  | exhausted {m n : Machine} : m.EndsAlone config .suspended n → n.AtInput →
    FedOnDemand config m [] .suspended n []
  | fed {m n last : Machine} {line : String} {lines rest : List String} {status : Status} :
    m.EndsAlone config .suspended n → n.AtInput →
    FedOnDemand config (n.feed (Debugger.completeLine line)) lines status last rest →
    FedOnDemand config m (line :: lines) status last rest

theorem FedOnDemand.ends (suspends : config.suspendOnInput = true)
    (unlimited : config.stepLimit = none) {lines rest : List String}
    (fed : FedOnDemand config m lines status n rest) {d : Debugger} (unarmed : d.Unarmed)
    (queued : d.script = lines.map Debugger.completeLine) :
    m.Ends config.asking Debugger.observer d status n
      { d with script := rest.map Debugger.completeLine } := by
  -- The debugger holds the lines that are still to be fed, so each of them changes it.
  induction fed generalizing d with
  | ended ended other =>
    rw [← queued]
    exact ended.indifferent suspends unlimited unarmed.indifferent other
  | @exhausted m n ended here =>
    rw [ends_iff_of_suspended suspends unlimited unarmed.indifferent ended, ← queued]
    have asked : Debugger.observer.supply d = (none, d) := by
      simp [Debugger.observer, Debugger.nextLine, queued]
    have unanswered : n.step config.asking Debugger.observer d = ⟨.ok .suspended, n, d⟩ :=
      step_unsupplied config here (ended.goesTo_of_suspended unlimited).2 asked rfl
    exact ends_of_step (RunConfig.asking_unlimited unlimited) unanswered rfl
  | @fed m n last line lines rest status ended here _ ih =>
    rw [ends_iff_of_suspended suspends unlimited unarmed.indifferent ended]
    have asked : Debugger.observer.supply d =
        (some (Debugger.completeLine line),
          { d with script := lines.map Debugger.completeLine }) := by
      simp [Debugger.observer, Debugger.nextLine, queued]
    have answered := step_supplied config here
      (ended.goesTo_of_suspended unlimited).2 (Debugger.completeLine_ne_empty line) asked
    refine (ends_iff_of_step_eq (RunConfig.asking_unlimited unlimited) answered).2 ?_
    exact ih ⟨unarmed.output, unarmed.registers⟩ rfl

/-- Lines that are queued with a debugger without breakpoints do what feeding them one by one does:
however the run that is suspended and fed ends, the run that asks the debugger ends with the same
status, the same machine and the same lines left over. -/
theorem scripted_as_fed (suspends : config.suspendOnInput = true)
    (unlimited : config.stepLimit = none) {lines rest : List String}
    (fed : FedOnDemand config m lines status n rest) {d : Debugger} (unarmed : d.Unarmed)
    (empty : d.script = []) :
    m.Ends config.asking Debugger.observer (lines.foldl Debugger.scriptLine d) status n
      (rest.foldl Debugger.scriptLine d) := by
  rw [Debugger.foldl_scriptLine, Debugger.foldl_scriptLine, empty]
  have unarmed' :
      { d with script := [] ++ lines.map Debugger.completeLine }.Unarmed :=
    ⟨unarmed.output, unarmed.registers⟩
  exact fed.ends suspends unlimited unarmed' rfl

/-- The second `input` reads the line break of the first line, the third one asks again, and of
three lines one is left over. -/
theorem scripted_as_fed_twice :
    let m : Machine := { memory := Memory.ofImage [20, 32768, 20, 32769, 20, 32770, 0] }
    ∃ n, FedOnDemand {} m ["a", "b", "c"] .halted n ["c"] ∧
      m.Ends (RunConfig.asking {}) Debugger.observer (["a", "b", "c"].foldl Debugger.scriptLine {})
        .halted n (["c"].foldl Debugger.scriptLine {}) := by
  intro m
  let first := (m.run {} .silent () 1).machine
  let second := ((first.feed "a\n").run {} .silent () 3).machine
  have begun : (m.run {} .silent () 1).status = some .suspended := by
    unfold m
    simp only [run, runFrom, step, awaitsInput, Memory.instructionAt, Memory.extent_eq]
    rfl
  have halfway : ((first.feed "a\n").run {} .silent () 3).status = some .suspended := by
    unfold first m
    simp only [run, runFrom, step, awaitsInput, Memory.instructionAt, Memory.extent_eq]
    rfl
  have halted : ((second.feed "b\n").run {} .silent () 2).status = some .halted := by
    unfold second first m
    simp only [run, runFrom, step, awaitsInput, Memory.instructionAt, Memory.extent_eq]
    rfl
  have early : first.AtInput := by
    refine ⟨0, #v[32768], 0, ?_, by decide⟩
    unfold first m
    simp only [run, runFrom, step, awaitsInput, Memory.instructionAt, Memory.extent_eq]
    rfl
  have late : second.AtInput := by
    refine ⟨4, #v[32770], 2, ?_, by decide⟩
    unfold second first m
    simp only [run, runFrom, step, awaitsInput, Memory.instructionAt, Memory.extent_eq]
    rfl
  have fed : FedOnDemand {} m ["a", "b", "c"] .halted _ ["c"] :=
    .fed (ends_of_status begun) early
      (.fed (ends_of_status halfway) late (.ended (ends_of_status halted) (by decide)))
  have unarmed : ({} : Debugger).Unarmed := ⟨rfl, fun r => Bank.get_fill false r⟩
  exact ⟨_, fed, scripted_as_fed rfl rfl fed unarmed rfl⟩

end Machine

end WordMachine

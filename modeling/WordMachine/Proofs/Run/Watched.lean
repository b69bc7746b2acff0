import WordMachine.Debugger
import WordMachine.Proofs.Effect.Closing
import WordMachine.Proofs.Run.Ending
import WordMachine.Proofs.Step.Failure
import WordMachine.Proofs.Step.Outcome
import WordMachine.Recorder

/-!
Watching a run does not change how it ends. Step by step a watched run is where the unwatched one
is, until it ends as that one does or is stopped on the way; and what is stopped can be gone on
with, watched by the same observer, by another one or by nobody. `stops_change_nothing` says so for
any number of stops.
-/

namespace WordMachine

theorem Step.eq_mk {r : Step σ} {result : Except Fault Progress} {machine : Machine}
    (results : r.result = result) (machines : r.machine = machine) :
    r = ⟨result, machine, r.observer⟩ := by
  cases r
  cases results
  cases machines
  rfl

namespace Machine

variable {config : RunConfig} {observer : Observer σ} {m n p : Machine} {s t : σ}
  {status : Status}

theorem execute_watched {i : Instruction}
    (unsupplied : i.opcode = .input → m.console.pending = [] → (observer.supply s).1 = none) :
    let r := m.execute config observer s i
    let alone := m.execute config .silent () i
    r.result = .error (.stopped m.pc) ∧ r.machine = m ∨
      r.result = alone.result ∧ r.machine = alone.machine := by
  have follows := Effect.follows_resolve config i.operands unsupplied
  simp only [execute] at follows ⊢
  generalize (Effect.resolve config observer m i.opcode i.operands).run ⟨s, ""⟩ = r at follows
  generalize (Effect.resolve config .silent m i.opcode i.operands).run ⟨(), ""⟩ = alone at follows
  obtain ⟨outcome, _, text⟩ := r
  obtain ⟨outcome', _, text'⟩ := alone
  obtain stops | ⟨same, supplied⟩ := follows
  · obtain rfl : outcome = .error (.stopped m.pc) := stops
    exact .inl ⟨rfl, rfl⟩
  · obtain rfl : outcome = outcome' := same
    obtain rfl : text = text' := supplied
    right
    cases outcome with
    | ok effect => exact ⟨rfl, rfl⟩
    | error fault => cases fault <;> exact ⟨rfl, rfl⟩

/-- A watched step is stopped and changes nothing, or it is the unwatched step. -/
theorem step_watched (leaves : config.suspendOnInput = true ∨ (observer.supply s).1 = none) :
    let r := m.step config observer s
    let alone := m.step config .silent ()
    r.result = .error (.stopped m.pc) ∧ r.machine = m ∨
      r.result = alone.result ∧ r.machine = alone.machine := by
  simp only [step]
  split
  · exact .inr ⟨rfl, rfl⟩
  · rename_i awake
    split
    · exact .inr ⟨rfl, rfl⟩
    · rename_i i decoded
      apply execute_watched
      intro asks empty
      rcases leaves with suspends | nothing
      -- The machine would have been suspended before the observer could be asked.
      · have stays : m.awaitsInput = false := by simpa [suspends] using awake
        exact absurd empty (pending_of_awake stays decoded asks)
      · exact nothing

/-- The run gets no input from its observer: either it suspends without input, or the observer has
none at any step of it. -/
def LeavesInput (m : Machine) (config : RunConfig) (observer : Observer σ) (s : σ) : Prop :=
  config.suspendOnInput = true ∨
    ∀ p t, GoesTo config observer m s p t → (observer.supply t).1 = none

theorem LeavesInput.here (leaves : m.LeavesInput config observer s) :
    config.suspendOnInput = true ∨ (observer.supply s).1 = none :=
  leaves.imp_right fun nothing => nothing m s .here

theorem LeavesInput.next (leaves : m.LeavesInput config observer s)
    (step : m.step config observer s = ⟨.ok .continued, n, t⟩) : n.LeavesInput config observer t :=
  leaves.imp_right fun nothing p u way => nothing p u (.next step way)

theorem ends_of_stopped (unlimited : config.stepLimit = none)
    (stops : (m.step config observer s).result = .error (.stopped m.pc))
    (stays : (m.step config observer s).machine = m) :
    ∃ t, m.Ends config observer s (.errored (.stopped m.pc)) m t := by
  have ended : m.Ends config observer s (.errored (.stopped m.pc)) _ _ :=
    ends_of_ofResult? unlimited (by rw [stops]; rfl)
  rw [stays] at ended
  exact ⟨_, ended⟩

/-- A watched run ends as the unwatched one, or it is stopped where that one passes. -/
theorem ends_watched (unlimited : config.stepLimit = none) {m' : Machine} {u u' : Unit}
    (alone : m.Ends config .silent u status m' u') (leaves : m.LeavesInput config observer s) :
    (∃ t, m.Ends config observer s status m' t) ∨
      ∃ pc n t, m.Ends config observer s (.errored (.stopped pc)) n t ∧
        n.EndsAlone config status m' := by
  -- Along the unwatched way; the observers may know anything at each place of it.
  obtain ⟨p, v, way, last, rfl, -⟩ := alone.goesTo unlimited
  induction way generalizing s with
  | @here m u =>
    obtain ⟨stops, stays⟩ | ⟨result, machine⟩ := step_watched (m := m) leaves.here
    · obtain ⟨t, ended⟩ := ends_of_stopped unlimited stops stays
      exact .inr ⟨_, m, t, ended, alone⟩
    · rw [← machine]
      exact .inl ⟨_, ends_of_ofResult? unlimited (result ▸ last)⟩
  | @next m m' p u u' _ step _ ih =>
    have alone' := (ends_iff_of_step unlimited step).1 alone
    obtain ⟨stops, stays⟩ | ⟨result, machine⟩ := step_watched (m := m) leaves.here
    · obtain ⟨t, ended⟩ := ends_of_stopped unlimited stops stays
      exact .inr ⟨_, m, t, ended, alone⟩
    · have unwatched : m.step config .silent () = ⟨.ok .continued, m', u'⟩ := step
      rw [unwatched] at result machine
      have step' : m.step config observer s =
        ⟨.ok .continued, m', (m.step config observer s).observer⟩ := Step.eq_mk result machine
      exact (ih (leaves.next step') last alone').imp
        (fun ⟨t, ended⟩ => ⟨t, (ends_iff_of_step unlimited step').2 ended⟩)
        fun ⟨pc, n, t, ended, rest⟩ => ⟨pc, n, t, (ends_iff_of_step unlimited step').2 ended, rest⟩

/-- With nobody watching no run is stopped. -/
theorem Ends.ne_stopped (unlimited : config.stepLimit = none) {pc : Word}
    (alone : m.EndsAlone config status n) : status ≠ .errored (.stopped pc) := by
  rintro rfl
  obtain ⟨p, u, -, last, -⟩ := alone.goesTo unlimited
  have stops : (p.step config .silent ()).result = .error (.stopped pc) :=
    Status.ofResult?_injective last
  cases (failsTo_step stops).place
  rcases stops_of_step stops with ⟨_, _, said⟩ | ⟨_, _, said⟩ <;> cases said

/-- A machine is run under one observer after the other, which may be the same, and each time it is
stopped; so it comes to the last machine. -/
inductive StopsAlong (config : RunConfig) : Machine → Machine → Prop where
  | start {m : Machine} : StopsAlong config m m
  | round {σ : Type} {observer : Observer σ} {s t : σ} {pc : Word} {m n p : Machine} :
    StopsAlong config m n → n.LeavesInput config observer s →
    n.Ends config observer s (.errored (.stopped pc)) p t → StopsAlong config m p

theorem StopsAlong.endsAlone (unlimited : config.stepLimit = none) {m' : Machine}
    (stops : StopsAlong config m n) (alone : m.EndsAlone config status m') :
    n.EndsAlone config status m' := by
  induction stops with
  | start => exact alone
  | round _ leaves stopped ih =>
    have alone := ih alone
    obtain ⟨t, ended⟩ | ⟨pc, p, t, ended, rest⟩ := ends_watched unlimited alone leaves
    -- The round was stopped, and the unwatched run never is.
    · obtain ⟨same, -⟩ := stopped.unique ended
      exact absurd same.symm (alone.ne_stopped unlimited)
    · obtain ⟨-, rfl, -⟩ := stopped.unique ended
      exact rest

/-- However often a run is stopped and gone on with, the next run under any observer ends as the
unwatched run from the beginning does, or it is stopped at a machine from which the unwatched run
still ends so. -/
theorem stops_change_nothing (unlimited : config.stepLimit = none) {m' : Machine}
    (alone : m.EndsAlone config status m') (stops : StopsAlong config m n)
    (leaves : n.LeavesInput config observer s) :
    (∃ t, n.Ends config observer s status m' t) ∨
      ∃ pc p t, n.Ends config observer s (.errored (.stopped pc)) p t ∧
        p.EndsAlone config status m' :=
  ends_watched unlimited (stops.endsAlone unlimited alone) leaves

/-- A debugger stops at the register read of an `output`, and the next one at the output itself. -/
theorem stops_change_nothing_twice :
    let m : Machine := { memory := Memory.ofImage [19, 32768, 0], registers := Bank.fill 65 }
    let atRead : Debugger := { watched := Bank.fill true }
    let atOutput : Debugger := { breakOnOutput := true }
    let first := m.run {} Debugger.observer atRead 1
    let second := first.machine.run {} Debugger.observer atOutput 1
    first.status = some (.errored (.stopped 0)) ∧ second.status = some (.errored (.stopped 0)) ∧
      ∃ m' t, m.EndsAlone {} .halted m' ∧
        second.machine.Ends {} Recorder.observer {} .halted m' t := by
  intro m atRead atOutput first second
  have alone : (m.run {} .silent () 2).status = some .halted := by
    unfold m
    simp only [run, runFrom, step, awaitsInput, Memory.instructionAt, Memory.extent_eq]
    rfl
  have stopped : first.status = some (.errored (.stopped 0)) := by
    unfold first m atRead
    simp only [run, runFrom, step, awaitsInput, Memory.instructionAt, Memory.extent_eq]
    rfl
  have stopped' : second.status = some (.errored (.stopped 0)) := by
    unfold second first m atRead atOutput
    simp only [run, runFrom, step, awaitsInput, Memory.instructionAt, Memory.extent_eq]
    rfl
  have halted : (second.machine.run {} Recorder.observer {} 2).status = some .halted := by
    unfold second first m atRead atOutput
    simp only [run, runFrom, step, awaitsInput, Memory.instructionAt, Memory.extent_eq]
    rfl
  have stops : StopsAlong {} m second.machine :=
    .round (.round .start (.inl rfl) (ends_of_status stopped)) (.inl rfl) (ends_of_status stopped')
  have leaves : second.machine.LeavesInput {} Recorder.observer {} := .inl rfl
  refine ⟨stopped, stopped', (m.run {} .silent () 2).machine, ?_⟩
  obtain ⟨t, ended⟩ | ⟨pc, p, t, ended, -⟩ :=
    stops_change_nothing rfl (ends_of_status alone) stops leaves
  · exact ⟨t, ends_of_status alone, ended⟩
  · obtain ⟨impossible, -⟩ := ended.unique (ends_of_status halted)
    cases impossible

end Machine

end WordMachine

import WordMachine.Proofs.Run.Feeding
import WordMachine.Proofs.Snapshot.Future

/-!
Trying on from a checkpoint. A run that empties the input queue takes a checkpoint there, and from
there to its end it takes no input; so a machine that is restored to the checkpoint does what is
left of the run over again. `branch_from_checkpoint` says that it then ends as the run did, or, if
the run was suspended, that it answers further input as the suspended machine does.
-/

namespace WordMachine.Machine

variable {config : RunConfig} {observer : Observer σ} {m n p : Machine} {s u : σ}

/-- An instruction other than `input` leaves the queue and the checkpoint alone. -/
theorem keeps_execute {i : Instruction} (other : i.opcode ≠ .input) :
    (m.execute config observer s i).machine.console.pending = m.console.pending ∧
      (m.execute config observer s i).machine.checkpoint = m.checkpoint := by
  have ready : i.opcode = .input → m.console.pending ≠ [] := fun asks => absurd asks other
  obtain ⟨outcome, t, resolved, yields⟩ := resolve_of_ready config observer s i.operands ready
  simp only [execute, resolved]
  cases outcome with
  | ok effect =>
    simp only [feed_empty]
    apply keeps_apply
    rintro r ch rfl
    exact other (Effect.eq_input_of_yields (yields _ rfl))
  | error fault =>
    cases fault with
    | stopped pc => exact ⟨rfl, rfl⟩
    | _ =>
      simp only [feed_empty]
      exact ⟨rfl, rfl⟩

theorem keeps_step (suspends : config.suspendOnInput = true) (empty : m.console.pending = []) :
    (m.step config observer s).machine.console.pending = [] ∧
      (m.step config observer s).machine.checkpoint = m.checkpoint := by
  cases awake : m.awaitsInput with
  | true =>
    rw [step, suspends, awake]
    exact ⟨empty, rfl⟩
  | false =>
    simp only [step, awake, Bool.and_false, Bool.false_eq_true, if_false]
    split
    · exact ⟨empty, rfl⟩
    · rename_i i decoded
      have other : i.opcode ≠ .input := fun asks => pending_of_awake awake decoded asks empty
      rw [← empty]
      exact keeps_execute other

theorem image_step (m : Machine) (config : RunConfig) (observer : Observer σ) (s : σ) :
    (m.step config observer s).machine.memory.image = m.memory.image := by
  have outcome := step_outcome m config observer s
  generalize (m.step config observer s).result = result at outcome
  generalize (m.step config observer s).machine = n at outcome
  cases outcome with
  | completed text decoded supplied means => exact image_apply _ _ _
  | _ => rfl

/-- The step is an `input` that takes the last character of the queue. -/
structure Drains (m : Machine) (config : RunConfig) (observer : Observer σ) (s : σ) : Prop where
  asks : m.memory.read m.pc = Opcode.input.word
  completes : (m.step config observer s).result = .ok .continued
  empties : (m.step config observer s).machine.console.pending = []

theorem Drains.checkpoint (h : m.Drains config observer s) :
    (m.step config observer s).machine.checkpoint =
      some (m.step config observer s).machine.snapshot := by
  obtain ⟨asks, completes, empties⟩ := h
  obtain ⟨i, effect, text, decoded, -, means, goes, after⟩ :=
    completed_of_step completes (by simp)
  rw [after] at empties ⊢
  have reads := Memory.decodes_of_instructionAt decoded
  have opcode : i.opcode = .input := Opcode.word_injective (reads.opcode.trans asks)
  have yields := Effect.yields_of_meaning? means
  rw [opcode] at yields
  obtain rfl | ⟨r, ch, rfl⟩ := Effect.wait_or_consume_of_yields yields
  · cases goes
  · exact checkpoint_takeCheckpoint empties

/-- Machines over one image that show one snapshot have runs that end alike. -/
theorem Alike.endAlike (h : m.Alike n) (config : RunConfig) : EndAlike config snapshot m n := by
  refine .of_symmetric (R := Alike) (fun h => ⟨h.1.symm, h.2.symm⟩) ?_ h
  rintro m n h status m' ⟨budget, ended⟩
  obtain ⟨statuses, -, inStep⟩ := inStep_runFrom h config .silent budget 0 ()
  have left : runFrom config .silent budget 0 m () = ⟨some status, m', ()⟩ := ended
  rw [left] at statuses inStep
  exact ⟨_, ends_of_status statuses.symm, inStep.alike.2.symm⟩

theorem snapshot_of_unmarked (h : m.unmarked = n.unmarked) : m.snapshot = n.snapshot := by
  have shown : m.unmarked.snapshot = n.unmarked.snapshot := by rw [h]
  exact shown

/-- A run that drains the queue ends with the checkpoint taken there, which shows the machine that
the rest of the run starts from. -/
theorem Drains.ends (suspends : config.suspendOnInput = true) (unlimited : config.stepLimit = none)
    {status : Status} {m' : Machine} (ended : m.EndsAlone config status m')
    (way : GoesTo config .silent m () p ()) (drains : p.Drains config .silent ()) :
    ∃ q : Machine, m'.checkpoint = some q.snapshot ∧ q.memory.image = m.memory.image ∧
      q.EndsAlone config status m' := by
  let q := (p.step config .silent ()).machine
  have step : p.step config .silent () = ⟨.ok .continued, q, ()⟩ := by rw [← drains.completes]
  have way' : GoesTo config .silent m () q () := way.trans (.next step .here)
  have rest : q.EndsAlone config status m' := (way'.ends_iff unlimited).1 ended
  -- With the queue empty no `input` completes, so none takes another checkpoint.
  have kept : m'.console.pending = [] ∧ m'.checkpoint = q.checkpoint :=
    rest.invariant unlimited (P := fun n => n.console.pending = [] ∧ n.checkpoint = q.checkpoint)
      (fun n _ h => by
        obtain ⟨empty, same⟩ := keeps_step suspends h.1
        exact ⟨empty, same.trans h.2⟩)
      ⟨drains.empties, rfl⟩
  have image : q.memory.image = m.memory.image :=
    way'.invariant (P := fun n => n.memory.image = m.memory.image)
      (fun n s h => (image_step n config .silent s).trans h) rfl
  exact ⟨q, kept.2.trans drains.checkpoint, image, rest⟩

/-- After a run that drained the queue, a machine over the same image can be restored to the
checkpoint instead. If the run was suspended, both answer any further input alike; if not, the
restored machine ends as the run did. The default configuration is that of `runAlone true`. -/
theorem branch_from_checkpoint (suspends : config.suspendOnInput = true)
    (unlimited : config.stepLimit = none) {status : Status} {m' : Machine}
    (ended : m.EndsAlone config status m') (way : GoesTo config .silent m () p ())
    (drains : p.Drains config .silent ()) :
    ∃ checkpoint, m'.checkpoint = some checkpoint ∧
      ∀ n : Machine, n.memory.image = m.memory.image →
        (status = .suspended → ∀ text,
          EndAlike config snapshot ((n.restore checkpoint).feed text) (m'.feed text)) ∧
        (status ≠ .suspended →
          ∃ n', (n.restore checkpoint).EndsAlone config status n' ∧ n'.snapshot = m'.snapshot) := by
  obtain ⟨q, checkpoint, image, rest⟩ := drains.ends suspends unlimited ended way
  refine ⟨q.snapshot, checkpoint, ?_⟩
  intro n same
  -- What is restored is a fork of the machine at the checkpoint.
  rw [restore_snapshot (image.trans same.symm)]
  constructor
  · rintro rfl text
    have copies := (inStep_feed (alike_fork q) text).alike.endAlike config
    have resumed := endAlike_of_suspended suspends unlimited rest text
    exact copies.symm.trans (resumed.coarsen fun _ _ => snapshot_of_unmarked)
  · intro _
    obtain ⟨n', ended', same⟩ := ((alike_fork q).endAlike config).exists_ends rest
    exact ⟨n', ended', same⟩

/-- An `input` drains the queue, and a `noop` stands between it and the next one. -/
theorem branch_from_checkpoint_suspended :
    let memory := Memory.ofImage [20, 32768, 21, 20, 32769, 0]
    let m : Machine := { memory, console := { pending := ['a'] } }
    let n : Machine := { memory, pc := 3 }
    ∃ m' checkpoint, m.EndsAlone {} .suspended m' ∧ m.Drains {} .silent () ∧
      m'.checkpoint = some checkpoint ∧ checkpoint.pc = 2 ∧
      EndAlike {} snapshot ((n.restore checkpoint).feed "b") (m'.feed "b") := by
  intro memory m n
  let run := m.run {} .silent () 3
  have ended : m.EndsAlone {} .suspended run.machine := by
    apply ends_of_status
    unfold m memory
    simp only [Machine.run, runFrom, step, awaitsInput, Memory.instructionAt, Memory.extent_eq]
    rfl
  have drains : m.Drains {} .silent () := by
    unfold m memory
    constructor <;> simp only [step, awaitsInput, Memory.instructionAt, Memory.extent_eq] <;> rfl
  obtain ⟨checkpoint, taken, branches⟩ := branch_from_checkpoint rfl rfl ended .here drains
  have pc : run.machine.checkpoint.map (·.pc) = some 2 := by
    unfold run m memory
    simp only [Machine.run, runFrom, step, awaitsInput, Memory.instructionAt, Memory.extent_eq]
    rfl
  rw [taken] at pc
  have answers := (branches n rfl).1 rfl "b"
  exact ⟨run.machine, checkpoint, ended, drains, taken, by simpa using pc, answers⟩

end WordMachine.Machine

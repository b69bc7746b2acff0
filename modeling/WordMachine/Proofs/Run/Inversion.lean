import WordMachine.Proofs.Run.Chronicle
import WordMachine.Proofs.Run.Patching
import WordMachine.Proofs.Step.Conditional

/-!
Going back on the latest branch. The branch that a machine remembers is that of the last conditional
jump in its chronicle, whatever else was done since (`branch_play`), and the arm that is remembered
beside the one taken is where the opposite jump would have gone (`branch_step_of_jumps`).
-/

namespace WordMachine

namespace Turn

/-- The turn completes a conditional jump. -/
def jumps (t : Turn) : Bool := t.completed?.any (·.opcode.isConditional)

/-- Where the turn would have gone with the opposite opcode. -/
def otherArm (t : Turn) : Word := (t.before.opposed.step {} .silent ()).machine.pc

def branch (t : Turn) : Branch := ⟨t.before.pc, t.after.pc, t.otherArm⟩

end Turn

namespace Occurrence

def jump? : Occurrence → Option Turn
  | turn t => if t.jumps then some t else none
  | fed _ => none

/-- The last conditional jump among the occurrences. -/
def lastJump? (chronicle : List Occurrence) : Option Turn := (chronicle.filterMap jump?).getLast?

theorem lastJump?_append (first rest : List Occurrence) :
    lastJump? (first ++ rest) = (lastJump? rest).or (lastJump? first) := by
  simp only [lastJump?, List.filterMap_append, List.getLast?_append]

theorem lastJump?_turn (t : Turn) :
    lastJump? [.turn t] = if t.jumps then some t else none := by
  cases jumps : t.jumps <;> simp [lastJump?, jump?, jumps]

theorem lastJump?_cons (first : Occurrence) (rest : List Occurrence) :
    lastJump? (first :: rest) = (lastJump? rest).or (lastJump? [first]) :=
  lastJump?_append [first] rest

end Occurrence

open Occurrence

namespace Machine

variable {m : Machine} {i : Instruction} {config : RunConfig} {observer : Observer σ} {s : σ}

theorem jumps_turn_iff : (m.turn config observer s).jumps = true ↔
    (m.step config observer s).result = .ok .continued ∧
      ∃ i, m.memory.instructionAt m.pc = .ok i ∧ i.opcode.isConditional = true := by
  have same : (m.turn config observer s).result = (m.step config observer s).result :=
    (m.step_recorded config observer s {}).1
  have before : (m.turn config observer s).before = m := rfl
  rw [← same, Turn.jumps, Turn.completed?, before]
  rcases (m.turn config observer s).result with fault | progress
  · simp
  · cases progress with
    | continued => cases m.memory.instructionAt m.pc <;> simp [Except.toOption]
    | halted | suspended => simp

theorem branch_step_of_jumps (jumps : (m.turn config observer s).jumps = true) :
    (m.step config observer s).machine.branch = some (m.turn config observer s).branch := by
  obtain ⟨completed, i, decoded, conditional⟩ := jumps_turn_iff.1 jumps
  obtain ⟨taken, target, t, here, -, opposed⟩ := step_conditional decoded conditional completed
  have before : (m.turn config observer s).before = m := rfl
  rw [Turn.branch, Turn.otherArm, turn_after, before, opposed, here]
  cases taken <;> rfl

/-- Nothing but a conditional jump that completes changes the branch. -/
theorem branch_step_of_not_jumps (stays : (m.turn config observer s).jumps = false) :
    (m.step config observer s).machine.branch = m.branch := by
  have outcome := step_outcome m config observer s
  generalize result : (m.step config observer s).result = r at outcome
  generalize (m.step config observer s).machine = n at outcome
  cases outcome with
  | asleep | undecoded | stopped | faulted => rfl
  | @completed i effect text decoded _ means =>
    refine branch_apply (m.feed text) _ ?_
    rintro taken target rfl
    have conditional := Opcode.isConditional_of_yields (Effect.yields_of_meaning? means)
    have jumps : (m.turn config observer s).jumps = true :=
      jumps_turn_iff.2 ⟨result, i, decoded, conditional⟩
    rw [stays] at jumps
    cases jumps

theorem branch_step (m : Machine) (config : RunConfig) (observer : Observer σ) (s : σ) :
    (m.step config observer s).machine.branch =
      ((lastJump? [.turn (m.turn config observer s)]).map Turn.branch).or m.branch := by
  rw [lastJump?_turn]
  cases jumps : (m.turn config observer s).jumps with
  | true => exact branch_step_of_jumps jumps
  | false => exact branch_step_of_not_jumps jumps

theorem branch_runFrom (config : RunConfig) (observer : Observer σ) (budget steps : Nat)
    (m : Machine) (s : σ) :
    (runFrom config observer budget steps m s).machine.branch =
      ((lastJump? ((turnsFrom config observer budget steps m s).map .turn)).map Turn.branch).or
        m.branch := by
  induction budget generalizing steps m s with
  | zero => rfl
  | succ budget ih =>
    simp only [turnsFrom, runFrom]
    cases limitReached config steps with
    | some limit => rfl
    | none =>
      have first := branch_step m config observer s
      generalize m.step config observer s = r at first
      obtain ⟨result, n, after⟩ := r
      rcases result with fault | progress
      · exact first
      · cases progress with
        | continued =>
          have first : n.branch = _ := first
          have rest := lastJump?_cons (.turn (m.turn config observer s))
            ((turnsFrom config observer budget (steps + 1) n after).map .turn)
          rw [ih, first, List.map_cons, rest, Option.map_or, Option.or_assoc]
        | halted | suspended => exact first

theorem branch_make (m : Machine) (move : Move) :
    (move.make m).2.branch = ((lastJump? (move.occurrences m)).map Turn.branch).or m.branch := by
  cases move with
  | step config observer s => exact branch_step m config observer s
  | run config observer s budget => exact branch_runFrom config observer budget 0 m s
  | patchNoops addrs =>
    rw [Move.make, patchNoops_eq]
    rfl
  | feed | write | setPc | setRegister => rfl

/-- The branch remembered is that of the last conditional jump. -/
theorem branch_play (m : Machine) (moves : List Move) :
    (m.play moves).branch = ((lastJump? (m.chronicle moves)).map Turn.branch).or m.branch := by
  induction moves generalizing m with
  | nil => rfl
  | cons move moves ih =>
    refine (ih _).trans ?_
    rw [branch_make, chronicle, lastJump?_append, Option.map_or, Option.or_assoc]

/-- After a conditional jump has completed, going back on it leads where the opposite jump in its
place would have led, but for the opcode; going back twice undoes it; and after any moves since, of
which some may have jumped, going back leads to the arm that the last conditional jump did not
take, and changes nothing else. -/
theorem inversion_takes_other_arm (decoded : m.memory.instructionAt m.pc = .ok i)
    (conditional : i.opcode.isConditional = true)
    (completed : (m.step config observer s).result = .ok .continued) :
    let r := m.step config observer s
    let opposite := m.opposed.step config observer s
    (∃ inverted, r.machine.invertBranch? = some inverted ∧
      opposite.result = .ok .continued ∧ opposite.observer = r.observer ∧
      opposite.machine = inverted.write m.pc i.opcode.opposite.word ∧
      inverted.invertBranch? = some r.machine) ∧
    ∀ moves, ∃ t, lastJump? (m.chronicle (.step config observer s :: moves)) = some t ∧
      let n := r.machine.play moves
      n.invertBranch? =
        some { n with pc := t.otherArm, branch := some ⟨t.before.pc, t.otherArm, t.after.pc⟩ } := by
  intro r opposite
  constructor
  · obtain ⟨taken, target, t, here, opposed, -⟩ := step_conditional decoded conditional completed
    refine ⟨m.takeBranch (UInt16.ofNat i.next) (!taken) target, ?_⟩
    simp only [r, opposite, here, opposed, invertBranch?_takeBranch, Bool.not_not, and_self]
  · intro moves
    have jumps : (m.turn config observer s).jumps = true :=
      jumps_turn_iff.2 ⟨completed, i, decoded, conditional⟩
    have last : ∃ t, lastJump? (m.chronicle (.step config observer s :: moves)) = some t := by
      rw [chronicle, lastJump?_append, Move.occurrences, lastJump?_turn, if_pos jumps,
        Option.or_some]
      exact ⟨_, rfl⟩
    obtain ⟨t, last⟩ := last
    refine ⟨t, last, ?_⟩
    have remembered := branch_play m (.step config observer s :: moves)
    rw [last, Option.map_some, Option.some_or] at remembered
    have remembered : (r.machine.play moves).branch = some t.branch := remembered
    simp only [invertBranch?, remembered, Option.map_some, Turn.branch]

/-- The jump goes to the `Y`. Going back on it after the `Y` is printed leads to the `N`. -/
theorem inversion_takes_other_arm_printed :
    let m : Machine := { memory := Memory.ofImage [8, 32768, 6, 19, 78, 0, 19, 89, 0] }
    let r := m.step {} .silent ()
    let n := r.machine.play [.step {} .silent ()]
    (∃ inverted, r.machine.invertBranch? = some inverted ∧
      (m.opposed.step {} .silent ()).machine = inverted.write 0 Opcode.jumpIf.word ∧
      inverted.invertBranch? = some r.machine) ∧
    r.machine.pc = 6 ∧ n.console.output = "Y" ∧
    n.invertBranch? = some { n with pc := 3, branch := some ⟨0, 3, 6⟩ } := by
  intro m r n
  have decoded : m.memory.instructionAt m.pc = .ok ⟨0, .jumpUnless, #v[32768, 6]⟩ := by
    unfold m
    simp only [Memory.instructionAt, Memory.extent_eq]
    rfl
  have completed : r.result = .ok .continued := by
    unfold r m
    simp only [step, awaitsInput, Memory.instructionAt, Memory.extent_eq]
    rfl
  have printed : r.machine.pc = 6 ∧ n.console.output = "Y" := by
    unfold n r m
    simp only [play, List.foldl, Move.make, step, awaitsInput, Memory.instructionAt,
      Memory.extent_eq]
    constructor <;> rfl
  have branch : (lastJump? (m.chronicle [.step {} .silent (), .step {} .silent ()])).map
      Turn.branch = some ⟨0, 6, 3⟩ := by
    unfold m lastJump? Occurrence.jump? Turn.jumps Turn.branch Turn.otherArm Turn.completed? opposed
    simp only [chronicle, Move.occurrences, Move.make, turn, step, awaitsInput,
      Memory.instructionAt, Memory.extent_eq]
    rfl
  obtain ⟨⟨inverted, inverts, -, -, opposite, undone⟩, later⟩ :=
    inversion_takes_other_arm decoded rfl completed
  obtain ⟨t, last, back⟩ := later [.step {} .silent ()]
  rw [last, Option.map_some, Option.some_inj] at branch
  obtain ⟨place, taken, other⟩ := Branch.mk.inj branch
  rw [place, taken, other] at back
  exact ⟨⟨inverted, inverts, opposite, undone⟩, printed.1, printed.2, back⟩

end Machine

end WordMachine

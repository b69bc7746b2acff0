import WordMachine.Proofs.Effect.Noting
import WordMachine.Proofs.Run.Secrecy
import WordMachine.Proofs.Step.Failure
import WordMachine.Run

/-!
What a debugger remembers of the runs that it watched, one after the other. A run that is stopped
leaves the reason in the record, and any other run leaves the record as it was (`notes_runFrom`).
So the record is that of the latest run that was stopped, however many ran to their end since
(`pc_lastHit_useAll`).
-/

namespace WordMachine

def Hit.pc : Hit → Word
  | output pc _ => pc
  | registerRead pc _ => pc

@[simp]
theorem Question.pc_hitAt (q : Question) (pc : Word) : (q.hitAt pc).pc = pc := by
  cases q <;> rfl

namespace Effect.Notes

variable {pc : Word} {asks : Question → Prop} {d d' : Debugger}

theorem pc_lastHit {stop : Option Word} (notes : Notes pc asks d stop d') :
    d'.lastHit.map Hit.pc = stop.or (d.lastHit.map Hit.pc) := by
  cases notes with
  | passed script => rfl
  | stopped script asked minds => simp

theorem of_none (notes : Notes pc asks d none d') : d'.lastHit = d.lastHit := by
  cases notes with
  | passed script => rfl

theorem of_some {place : Word} (notes : Notes pc asks d (some place) d') :
    pc = place ∧ ∃ q, d'.lastHit = some (q.hitAt place) ∧ d.minds q = true ∧ asks q := by
  cases notes with
  | @stopped q script asked minds => exact ⟨rfl, q, rfl, minds, asked⟩

end Effect.Notes

/-- The address at which the run was stopped. -/
def Run.stop? (r : Run σ) : Option Word :=
  r.status.bind fun status => status.fault?.bind Fault.stop?

namespace Machine

/-- The instruction at the program counter may come to ask this. -/
def MayAsk (m : Machine) (q : Question) : Prop :=
  ∃ i, m.memory.instructionAt m.pc = .ok i ∧ i.Asks m q

variable {m : Machine}

theorem notes_execute (config : RunConfig) (d : Debugger) {i : Instruction}
    (decoded : m.memory.instructionAt m.pc = .ok i) :
    let r := m.execute config Debugger.observer d i
    Effect.Notes m.pc m.MayAsk d (Effect.stop? r.result) r.observer := by
  have notes : Effect.Notes m.pc m.MayAsk d _ _ :=
    (Effect.noting_resolve m config i ⟨d, ""⟩).imp fun q asks => ⟨i, decoded, asks⟩
  simp only [execute, notify_debugger]
  generalize (Effect.resolve config Debugger.observer m i.opcode i.operands).run ⟨d, ""⟩ = r
    at notes
  obtain ⟨fault | effect, d', text⟩ := r
  · cases fault <;> exact notes
  · exact notes

theorem notes_step (m : Machine) (config : RunConfig) (d : Debugger) :
    let r := m.step config Debugger.observer d
    Effect.Notes m.pc m.MayAsk d (Effect.stop? r.result) r.observer := by
  obtain asleep | ⟨fault, fails, undecoded⟩ | ⟨i, decoded, executes⟩ :=
    step_cases m config Debugger.observer d
  · rw [asleep]
    exact .passed d.script
  · rw [undecoded]
    obtain ⟨decoding, -⟩ := Memory.fault_of_instructionAt fails
    cases fault <;> first | exact .passed d.script | cases decoding
  · rw [executes]
    exact notes_execute config d decoded

theorem machine_of_stopped (m : Machine) (config : RunConfig) (observer : Observer σ) (s : σ)
    (pc : Word) (stops : (m.step config observer s).result = .error (.stopped pc)) :
    (m.step config observer s).machine = m := by
  have failed := failsTo_step stops
  cases failed.place
  exact failed.untouched (.inr rfl)

/-- What stops a run is asked where the run ends. -/
theorem notes_runFrom (config : RunConfig) (budget steps : Nat) (m : Machine) (d : Debugger) :
    let r := runFrom config Debugger.observer budget steps m d
    Effect.Notes r.machine.pc r.machine.MayAsk d r.stop? r.observer := by
  induction budget generalizing steps m d with
  | zero => exact .passed d.script
  | succ budget ih =>
    simp only [runFrom]
    cases limitReached config steps with
    | some limit => exact .passed d.script
    | none =>
      have first := notes_step m config d
      have stays := machine_of_stopped m config Debugger.observer d
      generalize m.step config Debugger.observer d = r at first stays
      obtain ⟨result, n, after⟩ := r
      rcases result with fault | progress
      · have first : Effect.Notes m.pc m.MayAsk d fault.stop? after := first
        cases fault with
        | stopped pc =>
          obtain rfl : n = m := stays pc rfl
          exact first
        | _ => exact first.elsewhere
      · have first : Effect.Notes m.pc m.MayAsk d none after := first
        cases progress with
        | continued =>
          cases first with
          | passed script => exact (ih (steps + 1) n _).of_script
        | halted | suspended => exact first.elsewhere

end Machine

namespace Debugger

/-- What a caller may do with a debugger: change its settings, or have it watch a run. -/
inductive Use where
  | setBreakOnOutput (enabled : Bool)
  | watch (r : Reg)
  | unwatch (r : Reg)
  | scriptLine (line : String)
  | run (m : Machine) (config : RunConfig) (budget : Nat)

namespace Use

def make (d : Debugger) : Use → Debugger
  | setBreakOnOutput enabled => d.setBreakOnOutput enabled
  | watch r => d.watch r
  | unwatch r => d.unwatch r
  | scriptLine line => d.scriptLine line
  | run m config budget => (m.run config observer d budget).observer

/-- The address at which a run was stopped, if this is one that was. -/
def stop? (d : Debugger) : Use → Option Word
  | run m config budget => (m.run config observer d budget).stop?
  | _ => none

end Use

def useAll (d : Debugger) (uses : List Use) : Debugger := uses.foldl Use.make d

/-- The addresses of all stops, in order. -/
def stops (d : Debugger) : List Use → List Word
  | [] => []
  | use :: uses => (use.stop? d).toList ++ (use.make d).stops uses

theorem pc_lastHit_make (d : Debugger) (use : Use) :
    (use.make d).lastHit.map Hit.pc = (use.stop? d).or (d.lastHit.map Hit.pc) := by
  cases use with
  | run m config budget => exact (Machine.notes_runFrom config budget 0 m d).pc_lastHit
  | setBreakOnOutput | watch | unwatch | scriptLine => rfl

/-- The record is that of the latest stop. -/
theorem pc_lastHit_useAll (d : Debugger) (uses : List Use) :
    (d.useAll uses).lastHit.map Hit.pc = (d.stops uses).getLast?.or (d.lastHit.map Hit.pc) := by
  induction uses generalizing d with
  | nil => rfl
  | cons use uses ih =>
    refine (ih _).trans ?_
    rw [pc_lastHit_make, stops, List.getLast?_append, ← Option.or_assoc]
    cases use.stop? d <;> rfl

/-- After a run that was stopped the record says where and why; any other run leaves the record
alone. So the record tells of the run just made exactly if that run was stopped, or no earlier one
was. -/
theorem record_is_of_latest_stop (uses : List Use) (m : Machine) (config : RunConfig)
    (budget : Nat) :
    let d := ({} : Debugger).useAll uses
    let r := m.run config observer d budget
    (∀ pc, r.stop? = some pc → r.machine.pc = pc ∧
      ∃ q, r.observer.lastHit = some (q.hitAt pc) ∧ d.minds q = true ∧ r.machine.MayAsk q) ∧
    (r.stop? = none → r.observer.lastHit = d.lastHit) ∧
    r.observer.lastHit.map Hit.pc = r.stop?.or (({} : Debugger).stops uses).getLast? ∧
    (r.observer.lastHit.map Hit.pc = r.stop? ↔
      r.stop? ≠ none ∨ ({} : Debugger).stops uses = []) := by
  intro d r
  have notes : Effect.Notes r.machine.pc r.machine.MayAsk d r.stop? r.observer :=
    Machine.notes_runFrom config budget 0 m d
  have latest : r.observer.lastHit.map Hit.pc =
      r.stop?.or (({} : Debugger).stops uses).getLast? := by
    rw [notes.pc_lastHit, pc_lastHit_useAll, Option.map_none, Option.or_none]
  refine ⟨fun pc stops => ?_, fun passes => ?_, latest, ?_⟩
  · rw [stops] at notes
    exact notes.of_some
  · rw [passes] at notes
    exact notes.of_none
  · rw [latest]
    cases r.stop? <;> simp [List.getLast?_eq_none_iff]

/-- A run to the end, and before it one that was stopped at the character it had to print. -/
theorem record_outlives_its_run :
    let m : Machine := { memory := Memory.ofImage [19, 72, 0] }
    let d := ({} : Debugger).useAll [.setBreakOnOutput true, .run m {} 1, .setBreakOnOutput false]
    let r := m.run {} observer d 2
    r.status = some .halted ∧ r.observer.lastHit = some (.output 0 'H') := by
  intro m d r
  unfold r d m
  simp only [useAll, List.foldl, Use.make, Machine.run, Machine.runFrom, Machine.step,
    Machine.awaitsInput, Memory.instructionAt, Memory.extent_eq]
  constructor <;> rfl

end Debugger

end WordMachine

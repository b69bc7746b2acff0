import WordMachine.Step

/-!
Runs: steps until a halt, a fault, a suspension or the step limit. A program need not end, so a run
is given a budget of steps; a run with no status is one that was still going when its budget was
spent. `run_of_status` says that more budget changes nothing about a run that ended.
-/

namespace WordMachine

inductive Status where
  | halted
  | suspended
  | errored (fault : Fault)
deriving DecidableEq

namespace Status

def isHalted : Status → Bool
  | halted => true
  | _ => false

def isSuspended : Status → Bool
  | suspended => true
  | _ => false

def fault? : Status → Option Fault
  | errored fault => some fault
  | _ => none

def message : Status → String
  | halted => "halt instruction hit"
  | suspended => "waiting for input"
  | errored fault => fault.message

end Status

structure Run (σ : Type) where
  status : Option Status
  machine : Machine
  observer : σ

namespace Machine

/-- The step limit, if so many steps have reached it. -/
def limitReached (config : RunConfig) (steps : Nat) : Option Nat :=
  config.stepLimit.filter (· ≤ steps)

/-- Goes on with a run that has made the given number of steps. -/
def runFrom (config : RunConfig) (observer : Observer σ) :
    (budget steps : Nat) → Machine → σ → Run σ
  | 0, _, m, s => ⟨none, m, s⟩
  | budget + 1, steps, m, s =>
    match limitReached config steps with
    | some limit => ⟨some (.errored (.stepLimit limit)), m, s⟩
    | none =>
      match m.step config observer s with
      | ⟨.ok .continued, m, s⟩ => runFrom config observer budget (steps + 1) m s
      | ⟨.ok .halted, m, s⟩ => ⟨some .halted, m, s⟩
      | ⟨.ok .suspended, m, s⟩ => ⟨some .suspended, m, s⟩
      | ⟨.error fault, m, s⟩ => ⟨some (.errored fault), m, s⟩

def run (m : Machine) (config : RunConfig) (observer : Observer σ) (s : σ) (budget : Nat) : Run σ :=
  runFrom config observer budget 0 m s

/-- A run with nobody watching. -/
def runAlone (m : Machine) (suspendOnInput : Bool) (budget : Nat) : Run Unit :=
  m.run { suspendOnInput } .silent () budget

theorem runFrom_of_status {config : RunConfig} {observer : Observer σ} {budget steps : Nat}
    {m : Machine} {s : σ} (h : (runFrom config observer budget steps m s).status.isSome)
    (more : Nat) :
    runFrom config observer (budget + more) steps m s =
      runFrom config observer budget steps m s := by
  induction budget generalizing steps m s with
  | zero => simp [runFrom] at h
  | succ budget ih =>
    rw [Nat.add_right_comm]
    unfold runFrom at h ⊢
    split
    · rfl
    · rename_i reached
      simp only [reached] at h
      split
      · rename_i step
        simp only [step] at h
        exact ih h
      all_goals rfl

theorem run_of_status {m : Machine} {config : RunConfig} {observer : Observer σ} {s : σ}
    {budget : Nat} (h : (m.run config observer s budget).status.isSome) (more : Nat) :
    m.run config observer s (budget + more) = m.run config observer s budget :=
  runFrom_of_status h more

end Machine

end WordMachine

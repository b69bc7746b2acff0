import WordMachine.Proofs.Memory.Overlay
import WordMachine.Run
import WordMachine.Snapshot.Archive

/-!
What a caller may do to a machine. A move goes on from the state at hand and has an answer; the
other operations put another state in its place. `Reachable` holds of the machines that a load and
any operations after it lead to.
-/

namespace WordMachine

inductive Move : Type 1 where
  | feed (text : String)
  | step {σ : Type} (config : RunConfig) (observer : Observer σ) (s : σ)
  /-- A run that is given a budget of steps. -/
  | run {σ : Type} (config : RunConfig) (observer : Observer σ) (s : σ) (budget : Nat)
  | write (addr value : Word)
  | patchNoops (addrs : List Word)
  | setPc (pc : Word)
  | setRegister (r : Reg) (value : Word)

namespace Move

/-- Steps and runs answer with their outcome and with what they leave of the observer. -/
def Answer : Move → Type
  | @step σ _ _ _ => Except Fault Progress × σ
  | @run σ _ _ _ _ => Option Status × σ
  | _ => Unit

def make (m : Machine) : (move : Move) → move.Answer × Machine
  | feed text => ((), m.feed text)
  | step config observer s =>
    let r := m.step config observer s
    ((r.result, r.observer), r.machine)
  | run config observer s budget =>
    let r := m.run config observer s budget
    ((r.status, r.observer), r.machine)
  | write addr value => ((), m.write addr value)
  | patchNoops addrs => ((), m.patchNoops addrs)
  | setPc pc => ((), m.setPc pc)
  | setRegister r value => ((), m.setRegister r value)

end Move

inductive Operation : Type 1 where
  | move (next : Move)
  | invertBranch
  /-- Goes on with a copy. -/
  | fork
  | restore (s : Snapshot)
  /-- Goes to the state of an archive; if the archive cannot be read, nothing changes. -/
  | resume (saved : List UInt8)

namespace Operation

def perform (m : Machine) : Operation → Machine
  | .move next => (next.make m).2
  | .invertBranch => m.invertBranch?.getD m
  | .fork => m.fork
  | .restore s => m.restore s
  | .resume saved => (m.resume saved).toOption.getD m

end Operation

namespace Machine

def play (m : Machine) (moves : List Move) : Machine :=
  moves.foldl (fun m move => (move.make m).2) m

def performAll (m : Machine) (operations : List Operation) : Machine :=
  operations.foldl Operation.perform m

theorem ofImage_ok {words : List Word} {m : Machine} (h : ofImage words = .ok m) :
    words.length ≤ Image.maxWords ∧ m = { memory := Memory.ofImage words } := by
  simp only [ofImage, Image.checkSize] at h
  split at h
  · rename_i fits
    cases h
    exact ⟨fits, rfl⟩
  · cases h

/-- A machine that is restored from another one's snapshot is a copy of that other machine. -/
theorem restore_snapshot {m n : Machine} (h : m.memory.image = n.memory.image) :
    n.restore m.snapshot = m.fork := by
  have memory : n.memory.replaceChanged m.memory.changed = m.memory :=
    Memory.replaceChanged_changed h
  simp [restore, snapshot, fork, Console.fork, Console.input, memory]

/-- A load replaces every field, so what was done before the latest one is of no account. -/
inductive Reachable : Machine → Prop where
  | load {words : List Word} {m : Machine} : ofImage words = .ok m → Reachable m
  | perform {m : Machine} (operation : Operation) : Reachable m → Reachable (operation.perform m)

theorem Reachable.performAll {m : Machine} (reached : m.Reachable) (operations : List Operation) :
    (m.performAll operations).Reachable := by
  induction operations generalizing m with
  | nil => exact reached
  | cons operation operations ih => exact ih (reached.perform operation)

end Machine

end WordMachine

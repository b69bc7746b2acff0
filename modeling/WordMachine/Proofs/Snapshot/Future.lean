import WordMachine.Proofs.Operation

/-!
What a snapshot leaves out has no say in what a machine does. A copy (`fork`) keeps just the image
and what a snapshot shows, so machines are alike when their copies are equal; every move does to a
copy what it does to the machine, and the lines it adds are those it adds to the copy's empty
history.
-/

namespace WordMachine.Machine

/-- Machines over one image that show one snapshot. -/
def Alike (m n : Machine) : Prop := m.memory.image = n.memory.image ∧ m.snapshot = n.snapshot

theorem alike_fork (m : Machine) : m.Alike m.fork := ⟨rfl, rfl⟩

theorem alike_of_fork_eq {m n : Machine} (h : m.fork = n.fork) : m.Alike n := by
  have copies : m.fork.Alike n.fork := by rw [h]; exact ⟨rfl, rfl⟩
  exact copies

theorem fork_eq_of_alike {m n : Machine} (h : m.Alike n) : m.fork = n.fork := by
  obtain ⟨⟨image, changed, _⟩, registers, stack, pc, ⟨pending, echo, output, lines⟩, _, _⟩ := m
  obtain ⟨⟨image', changed', _⟩, registers', stack', pc', ⟨pending', echo', output', lines'⟩,
    _, _⟩ := n
  obtain ⟨images, snapshots⟩ := h
  simp only [snapshot, Console.input, Snapshot.mk.injEq] at images snapshots
  obtain ⟨rfl, rfl, rfl, rfl, inputs, rfl, rfl⟩ := snapshots
  obtain rfl := images
  obtain rfl := String.ofList_injective inputs
  rfl

/-- Two machines have gone on from two others in step: they are alike, and have the same new lines
behind the lines that were there. -/
structure InStep (m n m' n' : Machine) : Prop where
  alike : m'.Alike n'
  lines : ∃ new,
    m'.console.lines = m.console.lines ++ new ∧ n'.console.lines = n.console.lines ++ new

theorem InStep.refl {m n : Machine} (h : m.Alike n) : InStep m n m n :=
  ⟨h, #[], by simp⟩

theorem InStep.trans {m n m' n' m'' n'' : Machine} (first : InStep m n m' n')
    (second : InStep m' n' m'' n'') : InStep m n m'' n'' := by
  obtain ⟨new, left, right⟩ := first.lines
  obtain ⟨newer, left', right'⟩ := second.lines
  refine ⟨second.alike, new ++ newer, ?_, ?_⟩
  · rw [left', left, Array.append_assoc]
  · rw [right', right, Array.append_assoc]

/-- What is done to machines is in step if it does the same to copies and adds the same lines. -/
theorem inStep_of_fork {m n : Machine} (h : m.Alike n) {f : Machine → Machine}
    (forked : ∀ m, (f m).fork = (f m.fork).fork)
    (lines : ∀ m, (f m).console.lines = m.console.lines ++ (f m.fork).console.lines) :
    InStep m n (f m) (f n) := by
  have copies := fork_eq_of_alike h
  refine ⟨alike_of_fork_eq ?_, (f m.fork).console.lines, lines m, ?_⟩
  · rw [forked m, copies, ← forked n]
  · rw [copies]
    exact lines n

/-- What leaves the lines alone and does the same to copies is in step. -/
theorem inStep_of_quiet {m n : Machine} (h : m.Alike n) {f : Machine → Machine}
    (forked : ∀ m, (f m).fork = (f m.fork).fork)
    (quiet : ∀ m, (f m).console.lines = m.console.lines) : InStep m n (f m) (f n) :=
  inStep_of_fork h forked fun m => by simp [quiet, fork, Console.fork]

theorem lines_feed (m : Machine) (text : String) :
    (m.feed text).console.lines = m.console.lines := by
  simp only [feed, Console.feed]
  split <;> rfl

theorem fork_feed (m : Machine) (text : String) : (m.feed text).fork = (m.fork.feed text).fork := by
  simp only [feed, Console.feed, fork, Console.fork]
  split <;> rfl

theorem lines_takeCheckpoint (m : Machine) : m.takeCheckpoint.console.lines = m.console.lines := by
  unfold takeCheckpoint
  split <;> rfl

theorem fork_takeCheckpoint (m : Machine) : m.takeCheckpoint.fork = m.fork := by
  unfold takeCheckpoint
  split <;> rfl

theorem lines_drain (c : Console) : c.drain.lines = c.lines := by
  unfold Console.drain
  split <;> rfl

theorem fork_drain (c : Console) : c.drain.fork = c.fork.drain.fork := by
  unfold Console.drain Console.fork
  split <;> simp_all

theorem lines_emit (c : Console) (ch : Char) :
    (c.emit ch).lines = c.lines ++ (c.fork.emit ch).lines := by
  unfold Console.emit Console.fork
  split <;> simp

theorem fork_emit (c : Console) (ch : Char) : (c.emit ch).fork = (c.fork.emit ch).fork := by
  unfold Console.emit Console.fork
  split <;> rfl

theorem fork_apply (m : Machine) (next : Word) (effect : Effect) :
    (m.apply next effect).fork = (m.fork.apply next effect).fork := by
  cases effect with
  | branch taken target => cases taken <;> rfl
  | emit ch => simpa [apply, fork] using fork_emit m.console ch
  | consume r ch =>
    simp only [apply, fork_takeCheckpoint]
    simpa [fork] using fork_drain m.console
  | _ => rfl

theorem lines_apply (m : Machine) (next : Word) (effect : Effect) :
    (m.apply next effect).console.lines =
      m.console.lines ++ (m.fork.apply next effect).console.lines := by
  cases effect with
  | branch taken target => cases taken <;> simp [apply, takeBranch, fork, Console.fork]
  | emit ch => exact lines_emit m.console ch
  | consume r ch =>
    simp only [apply, lines_takeCheckpoint, lines_drain]
    simp [fork, Console.fork]
  | _ => simp [apply, fork, Console.fork]

theorem resolve_fork (config : RunConfig) (observer : Observer σ) (m : Machine) (op : Opcode)
    (w : Vector Word op.operandCount) :
    Effect.resolve config observer m.fork op w = Effect.resolve config observer m op w := by
  cases op <;> rfl

theorem Alike.resolve {m n : Machine} (h : m.Alike n) (config : RunConfig) (observer : Observer σ)
    (op : Opcode) (w : Vector Word op.operandCount) :
    Effect.resolve config observer m op w = Effect.resolve config observer n op w := by
  rw [← resolve_fork config observer m, fork_eq_of_alike h, resolve_fork]

theorem Alike.memory {m n : Machine} (h : m.Alike n) : m.memory = n.memory :=
  congrArg (·.memory) (fork_eq_of_alike h)

theorem Alike.pc {m n : Machine} (h : m.Alike n) : m.pc = n.pc :=
  congrArg (·.pc) h.2

theorem Alike.awaitsInput {m n : Machine} (h : m.Alike n) : m.awaitsInput = n.awaitsInput := by
  have copies : m.fork.awaitsInput = n.fork.awaitsInput := by rw [fork_eq_of_alike h]
  exact copies

theorem Alike.notify {m n : Machine} (h : m.Alike n) (observer : Observer σ) (effect : Effect)
    (s : σ) : observer.notify m effect s = observer.notify n effect s := by
  have copies : observer.notify m.fork effect s = observer.notify n.fork effect s := by
    rw [fork_eq_of_alike h]
  cases effect <;> exact copies

theorem inStep_feed {m n : Machine} (h : m.Alike n) (text : String) :
    InStep m n (m.feed text) (n.feed text) :=
  inStep_of_quiet h (fork_feed · text) (lines_feed · text)

theorem inStep_setPc {m n : Machine} (h : m.Alike n) (pc : Word) :
    InStep m n (m.setPc pc) (n.setPc pc) :=
  inStep_of_quiet h (f := (·.setPc pc)) (fun _ => rfl) fun _ => rfl

theorem inStep_write {m n : Machine} (h : m.Alike n) (addr value : Word) :
    InStep m n (m.write addr value) (n.write addr value) :=
  inStep_of_quiet h (f := (·.write addr value)) (fun _ => rfl) fun _ => rfl

theorem inStep_setRegister {m n : Machine} (h : m.Alike n) (r : Reg) (value : Word) :
    InStep m n (m.setRegister r value) (n.setRegister r value) :=
  inStep_of_quiet h (f := (·.setRegister r value)) (fun _ => rfl) fun _ => rfl

theorem inStep_patchNoops {m n : Machine} (h : m.Alike n) (addrs : List Word) :
    InStep m n (m.patchNoops addrs) (n.patchNoops addrs) := by
  induction addrs generalizing m n with
  | nil => exact .refl h
  | cons addr addrs ih =>
    have written := inStep_write h addr Opcode.noop.word
    exact written.trans (ih written.alike)

theorem inStep_execute {m n : Machine} (h : m.Alike n) (config : RunConfig) (observer : Observer σ)
    (s : σ) (i : Instruction) :
    let left := m.execute config observer s i
    let right := n.execute config observer s i
    left.result = right.result ∧ left.observer = right.observer ∧
      InStep m n left.machine right.machine := by
  simp only [execute, h.resolve]
  obtain ⟨outcome, d⟩ := (Effect.resolve config observer n i.opcode i.operands).run ⟨s, ""⟩
  have fed := inStep_feed h d.supplied
  cases outcome with
  | ok effect =>
    have applied := inStep_of_fork fed.alike (fork_apply · (UInt16.ofNat i.next) effect)
      (lines_apply · _ effect)
    exact ⟨rfl, fed.alike.notify observer effect d.observer, fed.trans applied⟩
  | error fault =>
    cases fault with
    | stopped pc => exact ⟨rfl, rfl, .refl h⟩
    | _ => exact ⟨rfl, rfl, fed.trans (inStep_setPc fed.alike _)⟩

theorem inStep_step {m n : Machine} (h : m.Alike n) (config : RunConfig) (observer : Observer σ)
    (s : σ) :
    let left := m.step config observer s
    let right := n.step config observer s
    left.result = right.result ∧ left.observer = right.observer ∧
      InStep m n left.machine right.machine := by
  simp only [step, h.awaitsInput, h.memory, h.pc]
  split
  · exact ⟨rfl, rfl, .refl h⟩
  · split
    · exact ⟨rfl, rfl, .refl h⟩
    · exact inStep_execute h config observer s _

/-- The induction is on the budget: each step keeps the machines in step, and equal results of a
step make both runs end or both go on. -/
theorem inStep_runFrom {m n : Machine} (h : m.Alike n) (config : RunConfig) (observer : Observer σ)
    (budget steps : Nat) (s : σ) :
    let left := runFrom config observer budget steps m s
    let right := runFrom config observer budget steps n s
    left.status = right.status ∧ left.observer = right.observer ∧
      InStep m n left.machine right.machine := by
  induction budget generalizing m n steps s with
  | zero => exact ⟨rfl, rfl, .refl h⟩
  | succ budget ih =>
    unfold runFrom
    cases limitReached config steps with
    | some limit => exact ⟨rfl, rfl, .refl h⟩
    | none =>
      have same := inStep_step h config observer s
      generalize m.step config observer s = left at same
      generalize n.step config observer s = right at same
      obtain ⟨result, m', s'⟩ := left
      obtain ⟨_, n', _⟩ := right
      obtain ⟨rfl, rfl, stepped⟩ := same
      rcases result with fault | progress
      · exact ⟨rfl, rfl, stepped⟩
      · cases progress with
        | continued =>
          obtain ⟨status, observers, rest⟩ := ih stepped.alike (steps + 1) s'
          exact ⟨status, observers, stepped.trans rest⟩
        | _ => exact ⟨rfl, rfl, stepped⟩

theorem inStep_make {m n : Machine} (h : m.Alike n) (move : Move) :
    (move.make m).1 = (move.make n).1 ∧ InStep m n (move.make m).2 (move.make n).2 := by
  cases move with
  | feed text => exact ⟨rfl, inStep_feed h text⟩
  | step config observer s =>
    obtain ⟨results, observers, stepped⟩ := inStep_step h config observer s
    exact ⟨Prod.ext results observers, stepped⟩
  | run config observer s budget =>
    obtain ⟨statuses, observers, stepped⟩ := inStep_runFrom h config observer budget 0 s
    exact ⟨Prod.ext statuses observers, stepped⟩
  | write addr value => exact ⟨rfl, inStep_write h addr value⟩
  | patchNoops addrs => exact ⟨rfl, inStep_patchNoops h addrs⟩
  | setPc pc => exact ⟨rfl, inStep_setPc h pc⟩
  | setRegister r value => exact ⟨rfl, inStep_setRegister h r value⟩

theorem Alike.play {m n : Machine} (h : m.Alike n) (moves : List Move) :
    (m.play moves).Alike (n.play moves) := by
  induction moves generalizing m n with
  | nil => exact h
  | cons move moves ih => exact ih (inStep_make h move).2.alike

/-- No sequence of moves tells the machines apart: both give one answer to each move, and it leaves
both with one snapshot, one extent, and the same new lines behind those that each had. -/
def Interchangeable (m n : Machine) : Prop :=
  ∀ (past : List Move) (move : Move),
    let left := move.make (m.play past)
    let right := move.make (n.play past)
    left.1 = right.1 ∧ left.2.snapshot = right.2.snapshot ∧
      left.2.memory.extent = right.2.memory.extent ∧
      ∃ new, left.2.console.lines = (m.play past).console.lines ++ new ∧
        right.2.console.lines = (n.play past).console.lines ++ new

theorem Alike.interchangeable {m n : Machine} (h : m.Alike n) : m.Interchangeable n := by
  intro past move
  obtain ⟨answers, stepped⟩ := inStep_make (h.play past) move
  exact ⟨answers, stepped.alike.2, by rw [stepped.alike.memory], stepped.lines⟩

/-- A snapshot and the image are all that the future of a machine depends on: lines, checkpoint,
branch and past have no say in it. -/
theorem future_of_snapshot (m n : Machine) :
    (m.memory.image = n.memory.image →
      (m.snapshot = n.snapshot → m.Interchangeable n) ∧
        m.Interchangeable (n.restore m.snapshot)) ∧
      m.Interchangeable m.fork := by
  have copy : m.Interchangeable m.fork := (alike_fork m).interchangeable
  refine ⟨fun image => ⟨fun snapshots => ?_, ?_⟩, copy⟩
  · exact Alike.interchangeable ⟨image, snapshots⟩
  · rw [restore_snapshot image]
    exact copy

/-- A machine with a past and one without. -/
theorem future_of_snapshot_old_and_new :
    let new : Machine := { memory := Memory.ofImage [20, 32768, 0] }
    let old : Machine :=
      { new with
        console := { lines := #["You are here."] }
        checkpoint := some {}
        branch := some ⟨0, 2, 5⟩ }
    old.memory.image = new.memory.image ∧ old.snapshot = new.snapshot ∧ old.Interchangeable new ∧
      old.Interchangeable (new.restore old.snapshot) := by
  intro new old
  have future := (future_of_snapshot old new).1 rfl
  exact ⟨rfl, rfl, future.1 rfl, future.2⟩

end WordMachine.Machine

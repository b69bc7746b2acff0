import WordMachine.Effect

/-!
One step of execution: decode at the program counter, resolve, apply. An instruction that faults
once it is decoded leaves the program counter behind it; one that an observer stops leaves
everything as it was, to be tried again.
-/

namespace WordMachine

inductive Progress where
  | continued
  | halted
  | suspended
deriving DecidableEq

namespace Effect

def progress : Effect → Progress
  | halt => .halted
  | wait => .suspended
  | _ => .continued

end Effect

namespace Machine

/-- Takes a checkpoint if the input queue is empty. -/
def takeCheckpoint (m : Machine) : Machine :=
  if m.console.hasInput then m else { m with checkpoint := some m.snapshot }

/-- Records a conditional jump at the program counter and makes it. -/
def takeBranch (m : Machine) (next : Word) (taken : Bool) (target : Word) : Machine :=
  let (arm, other) := if taken then (target, next) else (next, target)
  { m with pc := arm, branch := some ⟨m.pc, arm, other⟩ }

/-- Carries out the effect of an instruction that `next` follows. -/
def apply (m : Machine) (next : Word) : Effect → Machine
  | .proceed | .halt => { m with pc := next }
  | .wait => m
  | .assign r value => { m with registers := m.registers.set r value, pc := next }
  | .push value => { m with stack := m.stack.push value, pc := next }
  | .pop r value =>
    { m with registers := m.registers.set r value, stack := m.stack.pop, pc := next }
  | .jump target => { m with pc := target }
  | .branch taken target => m.takeBranch next taken target
  | .store addr value => { m with memory := m.memory.write addr value, pc := next }
  | .call target => { m with stack := m.stack.push next, pc := target }
  | .ret target => { m with stack := m.stack.pop, pc := target }
  | .emit ch => { m with console := m.console.emit ch, pc := next }
  | .consume r ch =>
    { m with
      registers := m.registers.set r (UInt16.ofNat ch.toNat)
      console := m.console.drain
      pc := next }.takeCheckpoint

/-- Whether the next instruction asks for input and none is pending. -/
def awaitsInput (m : Machine) : Bool :=
  m.pc.toNat < m.memory.extent && m.memory.read m.pc == Opcode.input.word && !m.console.hasInput

end Machine

namespace Observer

/-- Tells the observer what the effect on the given machine does to lines and input. -/
def notify (o : Observer σ) (m : Machine) : Effect → σ → σ
  | .emit ch, s => if ch = '\n' then o.onLine m.console.output s else s
  | .consume _ ch, s => o.onInput m.pc ch s
  | _, s => s

end Observer

structure Step (σ : Type) where
  result : Except Fault Progress
  machine : Machine
  observer : σ

namespace Machine

def execute (m : Machine) (config : RunConfig) (observer : Observer σ) (s : σ) (i : Instruction) :
    Step σ :=
  let next := UInt16.ofNat i.next
  match (Effect.resolve config observer m i.opcode i.operands).run ⟨s, ""⟩ with
  | (.ok effect, d) =>
    let m := m.feed d.supplied
    -- Before the machine changes: the observer is told of the line as it is completed.
    let s := observer.notify m effect d.observer
    ⟨.ok effect.progress, m.apply next effect, s⟩
  | (.error (.stopped pc), d) => ⟨.error (.stopped pc), m, d.observer⟩
  | (.error fault, d) => ⟨.error fault, (m.feed d.supplied).setPc next, d.observer⟩

/-- Executes one instruction. -/
def step (m : Machine) (config : RunConfig) (observer : Observer σ) (s : σ) : Step σ :=
  if config.suspendOnInput && m.awaitsInput then ⟨.ok .suspended, m, s⟩
  else match m.memory.instructionAt m.pc with
    | .error fault => ⟨.error fault, m, s⟩
    | .ok i => m.execute config observer s i

end Machine

end WordMachine

import WordMachine.Machine
import WordMachine.Observer
import WordMachine.RunConfig

/-!
What an instruction is about to do. Resolving an instruction reads its operands, consults the
observer and changes nothing but the observer's state and the supply of input; its result is an
effect, which `Machine.apply` carries out in one go. So a fault leaves nothing half done.
-/

namespace WordMachine

inductive Effect where
  | proceed
  | halt
  /-- There is no input: stay at the instruction. -/
  | wait
  | assign (reg : Reg) (value : Word)
  | push (value : Word)
  /-- Takes the top of the stack, which is the value, into a register. -/
  | pop (reg : Reg) (value : Word)
  | jump (target : Word)
  | branch (taken : Bool) (target : Word)
  | store (addr value : Word)
  | call (target : Word)
  /-- Takes the top of the stack, which is the target, into the program counter. -/
  | ret (target : Word)
  | emit (ch : Char)
  /-- Takes the first pending character into a register. -/
  | consume (reg : Reg) (ch : Char)
deriving DecidableEq

/-- What resolving an instruction leaves besides its effect. -/
structure Dialogue (σ : Type) where
  observer : σ
  /-- The text that the observer supplied for this instruction. -/
  supplied : String := ""

/-- A computation that may fault and talks to an observer. -/
def Resolve (σ α : Type) : Type := Dialogue σ → Except Fault α × Dialogue σ

namespace Resolve

@[inline]
def run (x : Resolve σ α) (d : Dialogue σ) : Except Fault α × Dialogue σ := x d

@[inline]
def fault (f : Fault) : Resolve σ α := fun d => (.error f, d)

instance : Monad (Resolve σ) where
  pure a := fun d => (.ok a, d)
  bind x f := fun d =>
    match x d with
    | (.ok a, d) => f a d
    | (.error e, d) => (.error e, d)

@[simp]
theorem run_pure (a : α) (d : Dialogue σ) : (pure a : Resolve σ α).run d = (.ok a, d) := rfl

@[simp]
theorem run_fault (f : Fault) (d : Dialogue σ) :
    (fault f : Resolve σ α).run d = (.error f, d) := rfl

theorem run_bind (x : Resolve σ α) (f : α → Resolve σ β) (d : Dialogue σ) :
    (x >>= f).run d =
      match x.run d with
      | (.ok a, d) => (f a).run d
      | (.error e, d) => (.error e, d) := rfl

end Resolve

namespace Effect

variable (config : RunConfig) (observer : Observer σ) (m : Machine) (op : Opcode)

/-- Asks the observer and faults if it says stop. -/
def consult (ask : σ → Verdict × σ) : Resolve σ Unit := fun d =>
  match ask d.observer with
  | (.proceed, s) => (.ok (), { d with observer := s })
  | (.stop, s) => (.error (.stopped m.pc), { d with observer := s })

/-- The value of an operand. -/
def read (w : Word) : Resolve σ Word :=
  match Operand.ofWord? w with
  | some (.literal value) => pure value
  | some (.register r) => do
    consult m (observer.beforeRead m.pc r)
    return m.registers.get r
  | none => .fault (.invalidOperand op w m.pc)

/-- The register that an operand names. -/
def destination (w : Word) : Resolve σ Reg :=
  match Operand.ofWord? w with
  | some (.register r) => pure r
  | some (.literal _) => .fault (.invalidDestination op w m.pc)
  | none => .fault (.invalidOperand op w m.pc)

/-- The top of the stack. -/
def top : Resolve σ Word :=
  match m.stack.back? with
  | some value => pure value
  | none => .fault (.stackUnderflow op m.pc)

def unary (f : Word → Word) (a b : Word) : Resolve σ Effect := do
  let reg ← destination m op a
  let b ← read observer m op b
  return .assign reg (f b)

def binary (f : Word → Word → Word) (a b c : Word) : Resolve σ Effect := do
  let reg ← destination m op a
  let b ← read observer m op b
  let c ← read observer m op c
  return .assign reg (f b c)

def remainder (a b c : Word) : Resolve σ Effect := do
  let reg ← destination m op a
  let b ← read observer m op b
  let c ← read observer m op c
  if c = 0 then .fault (.divisionByZero m.pc) else return .assign reg (b % c)

/-- The character with the given number; a surrogate has none and becomes the replacement
character. -/
def character (value : Word) : Char :=
  if value.toNat.isValidChar then Char.ofNat value.toNat else '\ufffd'

def output (a : Word) : Resolve σ Effect := do
  let value ← read observer m op a
  if config.strictOutput && !value.isPlain then .fault (.invalidOutput value m.pc)
  else
    consult m (observer.beforeOutput m.pc (character value))
    return .emit (character value)

/-- The first pending character, after asking the observer for text if there is none. -/
def firstInput : Resolve σ (Option Char) := fun d =>
  match m.console.pending with
  | ch :: _ => (.ok (some ch), d)
  | [] =>
    match observer.supply d.observer with
    | (some text, s) => (.ok text.toList.head?, ⟨s, text⟩)
    | (none, s) => (.ok none, { d with observer := s })

def input (a : Word) : Resolve σ Effect := do
  let reg ← destination m op a
  match ← firstInput observer m with
  | none => return .wait
  | some ch =>
    if ch.toNat < Word.modulus then return .consume reg ch else .fault (.invalidInput ch m.pc)

def truth (p : Prop) [Decidable p] : Word := if p then 1 else 0

/-- Resolves an instruction at the program counter. A destination is checked before any operand is
read, and operands are read from left to right. -/
def resolve : (op : Opcode) → Vector Word op.operandCount → Resolve σ Effect
  | .halt, _ => return .halt
  | .noop, _ => return .proceed
  | .set, w => unary observer m .set id w[0] w[1]
  | .not, w => unary observer m .not Word.complement w[0] w[1]
  | .load, w => unary observer m .load m.memory.read w[0] w[1]
  | .eq, w => binary observer m .eq (fun b c => truth (b = c)) w[0] w[1] w[2]
  | .gt, w => binary observer m .gt (fun b c => truth (b > c)) w[0] w[1] w[2]
  | .add, w =>
    binary observer m .add (fun b c => Word.wrap (b.toNat + c.toNat)) w[0] w[1] w[2]
  | .mult, w =>
    binary observer m .mult (fun b c => Word.wrap (b.toNat * c.toNat)) w[0] w[1] w[2]
  | .mod, w => remainder observer m .mod w[0] w[1] w[2]
  | .and, w => binary observer m .and (· &&& ·) w[0] w[1] w[2]
  | .or, w => binary observer m .or (· ||| ·) w[0] w[1] w[2]
  | .push, w => return .push (← read observer m .push w[0])
  | .pop, w => do
    let reg ← destination m .pop w[0]
    return .pop reg (← top m .pop)
  | .jump, w => return .jump (← read observer m .jump w[0])
  | .jumpIf, w => do
    let condition ← read observer m .jumpIf w[0]
    return .branch (condition != 0) (← read observer m .jumpIf w[1])
  | .jumpUnless, w => do
    let condition ← read observer m .jumpUnless w[0]
    return .branch (condition == 0) (← read observer m .jumpUnless w[1])
  | .store, w => do
    let addr ← read observer m .store w[0]
    return .store addr (← read observer m .store w[1])
  | .call, w => return .call (← read observer m .call w[0])
  | .ret, _ => return .ret (← top m .ret)
  | .output, w => output config observer m .output w[0]
  | .input, w => input observer m .input w[0]

end Effect

end WordMachine

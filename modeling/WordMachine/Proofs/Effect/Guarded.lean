import Mathlib.Algebra.Group.Nat.Defs
import WordMachine.Effect

/-!
Instructions resolved with every index and every number checked. An instruction gets its operands as
a row of words that knows nothing of its opcode; a guarded computation has no result where it reads
past the end of a row, or where a number does not fit its type. `completes_resolve` says that this
does not happen over a row of as many words as the opcode has operands, and that the result is the
one of `Effect.resolve`, which needs no checks.
-/

namespace WordMachine

/-- The number, if it fits so many bits. -/
def fits? (bits n : Nat) : Option Nat := if n < 2 ^ bits then some n else none

/-- The difference, unless it is negative. -/
def minus? (a b : Nat) : Option Nat := if b ≤ a then some (a - b) else none

theorem fits?_eq {bits n : Nat} (h : n < 2 ^ bits) : fits? bits n = some n := if_pos h

theorem minus?_eq {a b : Nat} (h : b ≤ a) : minus? a b = some (a - b) := if_pos h

theorem Word.add_fits (b c : Word) : b.toNat + c.toNat < 2 ^ 32 := by
  have := b.toNat_lt
  have := c.toNat_lt
  omega

theorem Word.mul_fits (b c : Word) : b.toNat * c.toNat < 2 ^ 32 := by
  have product : b.toNat * c.toNat < 2 ^ 16 * 2 ^ 16 := Nat.mul_lt_mul'' b.toNat_lt c.toNat_lt
  omega

/-- The kind of operand that a word is, where a register's number is a checked difference. -/
def Operand.classify? (w : Word) : Option (Option Operand) :=
  if w.toNat < Word.modulus then return some (literal w)
  else do
    let index ← minus? w.toNat Word.modulus
    return (Reg.ofIndex? index).map register

theorem Operand.classify?_eq (w : Word) : classify? w = some (ofWord? w) := by
  unfold classify? ofWord?
  split
  · rfl
  · rename_i above
    simp only [minus?_eq (Nat.le_of_not_lt above), Option.pure_def, Option.bind_eq_bind,
      Option.bind_some]

/-- A computation with an observer that has no result where a check fails. -/
def Guarded (σ α : Type) : Type := Dialogue σ → Option (Except Fault α × Dialogue σ)

namespace Guarded

instance : Monad (Guarded σ) where
  pure a := fun d => some (.ok a, d)
  bind x f := fun d =>
    match x d with
    | some (.ok a, d) => f a d
    | some (.error e, d) => some (.error e, d)
    | none => none

instance : MonadLift Option (Guarded σ) where
  monadLift check := fun d => check.map fun a => (.ok a, d)

/-- Nothing is checked. -/
instance : MonadLift (Resolve σ) (Guarded σ) where
  monadLift x := fun d => some (x.run d)

def fault (f : Fault) : Guarded σ α := fun d => some (.error f, d)

/-- All checks hold, and the result is that of the computation without them. -/
def Completes (x : Guarded σ α) (y : Resolve σ α) : Prop := ∀ d, x d = some (y.run d)

section Laws

variable {x : Guarded σ α} {y : Resolve σ α} {f : α → Guarded σ β}

theorem completes_pure (a : α) : Completes (pure a : Guarded σ α) (pure a) := fun _ => rfl

theorem completes_fault (e : Fault) : Completes (fault e : Guarded σ α) (.fault e) := fun _ => rfl

theorem completes_lift (y : Resolve σ α) : Completes (liftM y) y := fun _ => rfl

theorem Completes.bind {g : α → Resolve σ β} (first : Completes x y)
    (rest : ∀ a, Completes (f a) (g a)) : Completes (x >>= f) (y >>= g) := by
  intro d
  change (match x d with
    | some (.ok a, d) => f a d
    | some (.error e, d) => some (.error e, d)
    | none => none) = _
  rw [first d, Resolve.run_bind]
  obtain ⟨outcome, between⟩ := y.run d
  cases outcome with
  | ok a => exact rest a between
  | error e => rfl

theorem completes_check {check : Option α} {a : α} (holds : check = some a) :
    Completes (liftM check : Guarded σ α) (pure a) := by
  subst holds
  exact completes_pure a

/-- A check that holds passes its value on. -/
theorem Completes.check {check : Option α} {a : α} {z : Resolve σ β} (holds : check = some a)
    (rest : Completes (f a) z) : Completes ((liftM check : Guarded σ α) >>= f) z := by
  subst holds
  exact rest

end Laws

section Instructions

variable (config : RunConfig) (observer : Observer σ) (m : Machine) (op : Opcode)

def read (w : Word) : Guarded σ Word := do
  match ← Operand.classify? w with
  | some (.literal value) => return value
  | some (.register r) => do
    Effect.consult m (observer.beforeRead m.pc r)
    liftM m.registers.toArray[r.val]?
  | none => fault (.invalidOperand op w m.pc)

def destination (w : Word) : Guarded σ Reg := do
  match ← Operand.classify? w with
  | some (.register r) => return r
  | some (.literal _) => fault (.invalidDestination op w m.pc)
  | none => fault (.invalidOperand op w m.pc)

def unary (f : Word → Word) (ops : Array Word) : Guarded σ Effect := do
  let reg ← destination m op (← ops[0]?)
  let b ← read observer m op (← ops[1]?)
  return .assign reg (f b)

def binary (f : Word → Word → Option Word) (ops : Array Word) : Guarded σ Effect := do
  let reg ← destination m op (← ops[0]?)
  let b ← read observer m op (← ops[1]?)
  let c ← read observer m op (← ops[2]?)
  return .assign reg (← f b c)

def remainder (ops : Array Word) : Guarded σ Effect := do
  let reg ← destination m op (← ops[0]?)
  let b ← read observer m op (← ops[1]?)
  let c ← read observer m op (← ops[2]?)
  if c = 0 then fault (.divisionByZero m.pc) else return .assign reg (b % c)

/-- An effect that takes the values of two operands. -/
def takingTwo (f : Word → Word → Effect) (ops : Array Word) : Guarded σ Effect := do
  let a ← read observer m op (← ops[0]?)
  return f a (← read observer m op (← ops[1]?))

def output (ops : Array Word) : Guarded σ Effect := do
  let value ← read observer m op (← ops[0]?)
  if config.strictOutput && !value.isPlain then fault (.invalidOutput value m.pc)
  else
    Effect.consult m (observer.beforeOutput m.pc (Effect.character value))
    return .emit (Effect.character value)

def input (ops : Array Word) : Guarded σ Effect := do
  let reg ← destination m op (← ops[0]?)
  match ← Effect.firstInput observer m with
  | none => return .wait
  | some ch =>
    if ch.toNat < Word.modulus then return .consume reg ch else fault (.invalidInput ch m.pc)

/-- Resolves an instruction whose operands are the given row. Sums and products are made in 32
bits. -/
def resolve (op : Opcode) (ops : Array Word) : Guarded σ Effect :=
  match op with
  | .halt => return .halt
  | .noop => return .proceed
  | .set => unary observer m op id ops
  | .not => unary observer m op Word.complement ops
  | .load => unary observer m op m.memory.read ops
  | .eq => binary observer m op (fun b c => some (Effect.truth (b = c))) ops
  | .gt => binary observer m op (fun b c => some (Effect.truth (b > c))) ops
  | .add => binary observer m op (fun b c => Word.wrap <$> fits? 32 (b.toNat + c.toNat)) ops
  | .mult => binary observer m op (fun b c => Word.wrap <$> fits? 32 (b.toNat * c.toNat)) ops
  | .mod => remainder observer m op ops
  | .and => binary observer m op (fun b c => some (b &&& c)) ops
  | .or => binary observer m op (fun b c => some (b ||| c)) ops
  | .push => do return .push (← read observer m op (← ops[0]?))
  | .pop => do
    let reg ← destination m op (← ops[0]?)
    return .pop reg (← (Effect.top m op : Resolve σ Word))
  | .jump => do return .jump (← read observer m op (← ops[0]?))
  | .jumpIf => takingTwo observer m op (fun condition => .branch (condition != 0)) ops
  | .jumpUnless => takingTwo observer m op (fun condition => .branch (condition == 0)) ops
  | .store => takingTwo observer m op .store ops
  | .call => do return .call (← read observer m op (← ops[0]?))
  | .ret => do return .ret (← (Effect.top m op : Resolve σ Word))
  | .output => output config observer m op ops
  | .input => input observer m op ops

end Instructions

section Completion

variable {config : RunConfig} {observer : Observer σ} {m : Machine} {op : Opcode}
  {ops : Array Word} {a b c : Word}

theorem completes_read (w : Word) :
    Completes (read observer m op w) (Effect.read observer m op w) := by
  unfold read Effect.read
  refine .check (Operand.classify?_eq w) ?_
  cases Operand.ofWord? w with
  | none => exact completes_fault _
  | some operand =>
    cases operand with
    | literal value => exact completes_pure value
    | register r =>
      have slot : m.registers.toArray[r.val]? = some (m.registers.get r) := by simp [Bank.get]
      exact (completes_lift _).bind fun _ => completes_check slot

theorem completes_destination (w : Word) :
    (destination m op w : Guarded σ Reg).Completes (Effect.destination m op w) := by
  unfold destination Effect.destination
  refine .check (Operand.classify?_eq w) ?_
  cases Operand.ofWord? w with
  | none => exact completes_fault _
  | some operand =>
    cases operand with
    | literal value => exact completes_fault _
    | register r => exact completes_pure r

theorem completes_unary (f : Word → Word) (first : ops[0]? = some a) (second : ops[1]? = some b) :
    Completes (unary observer m op f ops) (Effect.unary observer m op f a b) :=
  .check first <| (completes_destination a).bind fun _ =>
    .check second <| (completes_read b).bind fun _ => completes_pure _

theorem completes_binary {f : Word → Word → Option Word} {g : Word → Word → Word}
    (computes : ∀ x y, f x y = some (g x y)) (first : ops[0]? = some a)
    (second : ops[1]? = some b) (third : ops[2]? = some c) :
    Completes (binary observer m op f ops) (Effect.binary observer m op g a b c) :=
  .check first <| (completes_destination a).bind fun _ =>
    .check second <| (completes_read b).bind fun x =>
      .check third <| (completes_read c).bind fun y => .check (computes x y) (completes_pure _)

theorem completes_remainder (first : ops[0]? = some a) (second : ops[1]? = some b)
    (third : ops[2]? = some c) :
    Completes (remainder observer m op ops) (Effect.remainder observer m op a b c) := by
  refine .check first <| (completes_destination a).bind fun _ =>
    .check second <| (completes_read b).bind fun _ =>
      .check third <| (completes_read c).bind fun divisor => ?_
  by_cases zero : divisor = 0
  · simp only [zero, if_true]
    exact completes_fault _
  · simp only [zero, if_false]
    exact completes_pure _

theorem completes_takingTwo (f : Word → Word → Effect) (first : ops[0]? = some a)
    (second : ops[1]? = some b) :
    Completes (takingTwo observer m op f ops)
      (do let x ← Effect.read observer m op a; return f x (← Effect.read observer m op b)) :=
  .check first <| (completes_read a).bind fun _ =>
    .check second <| (completes_read b).bind fun _ => completes_pure _

theorem completes_output (first : ops[0]? = some a) :
    Completes (output config observer m op ops) (Effect.output config observer m op a) := by
  refine .check first <| (completes_read a).bind fun value => ?_
  by_cases refused : (config.strictOutput && !value.isPlain) = true
  · simp only [refused, if_true]
    exact completes_fault _
  · simp only [refused]
    exact (completes_lift _).bind fun _ => completes_pure _

theorem completes_input (first : ops[0]? = some a) :
    Completes (input observer m op ops) (Effect.input observer m op a) := by
  refine .check first <| (completes_destination a).bind fun reg =>
    (completes_lift _).bind fun next => ?_
  cases next with
  | none => exact completes_pure _
  | some ch =>
    by_cases fits : ch.toNat < Word.modulus
    · simp only [fits, if_true]
      exact completes_pure _
    · simp only [fits, if_false]
      exact completes_fault _

theorem completes_resolve (w : Vector Word op.operandCount) :
    Completes (resolve config observer m op w.toArray) (Effect.resolve config observer m op w) := by
  have slot (k : Nat) (inside : k < op.operandCount) : w.toArray[k]? = some w[k] := by simp [inside]
  cases op with
  | halt | noop => exact completes_pure _
  | set | not | load => exact completes_unary _ (slot 0 (by decide)) (slot 1 (by decide))
  | eq | gt | and | or =>
    exact completes_binary (fun _ _ => rfl) (slot 0 (by decide)) (slot 1 (by decide))
      (slot 2 (by decide))
  | add =>
    have sums (b c : Word) : Word.wrap <$> fits? 32 (b.toNat + c.toNat) = some _ :=
      congrArg _ (fits?_eq (Word.add_fits b c))
    exact completes_binary sums (slot 0 (by decide)) (slot 1 (by decide)) (slot 2 (by decide))
  | mult =>
    have products (b c : Word) : Word.wrap <$> fits? 32 (b.toNat * c.toNat) = some _ :=
      congrArg _ (fits?_eq (Word.mul_fits b c))
    exact completes_binary products (slot 0 (by decide)) (slot 1 (by decide)) (slot 2 (by decide))
  | mod =>
    exact completes_remainder (slot 0 (by decide)) (slot 1 (by decide)) (slot 2 (by decide))
  | push | jump | call =>
    exact .check (slot 0 (by decide)) <| (completes_read _).bind fun _ => completes_pure _
  | pop =>
    exact .check (slot 0 (by decide)) <| (completes_destination _).bind fun _ =>
      (completes_lift _).bind fun _ => completes_pure _
  | jumpIf | jumpUnless | store =>
    exact completes_takingTwo _ (slot 0 (by decide)) (slot 1 (by decide))
  | ret => exact (completes_lift _).bind fun _ => completes_pure _
  | output => exact completes_output (slot 0 (by decide))
  | input => exact completes_input (slot 0 (by decide))

end Completion

end Guarded

end WordMachine

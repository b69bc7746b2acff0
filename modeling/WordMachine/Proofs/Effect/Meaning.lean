import WordMachine.Effect

/-!
What an instruction means apart from who watches: its effect as a function of the machine alone.
`meaning?_of_resolve` says that an instruction which resolves, under any observer, has the effect
that it means on the machine as fed by that observer.
-/

namespace WordMachine

namespace Resolve

theorem run_bind_ok {x : Resolve σ α} {f : α → Resolve σ β} {d d' : Dialogue σ} {b : β} :
    (x >>= f).run d = (.ok b, d') ↔
      ∃ a between, x.run d = (.ok a, between) ∧ (f a).run between = (.ok b, d') := by
  rw [run_bind]
  rcases x.run d with ⟨_ | a, between⟩
  · simp
  · constructor
    · intro h
      exact ⟨a, between, rfl, h⟩
    · rintro ⟨_, _, first, h⟩
      cases first
      exact h

theorem run_pure_ok {a b : α} {d d' : Dialogue σ} :
    (pure a : Resolve σ α).run d = (.ok b, d') ↔ a = b ∧ d = d' := by
  simp

end Resolve

namespace Effect

variable (m : Machine)

/-- The value of an operand, if the word is one. -/
def value? (w : Word) : Option Word := (Operand.ofWord? w).map (·.resolve m.registers)

/-- The register that an operand names, if it names one. -/
def register? (w : Word) : Option Reg :=
  match Operand.ofWord? w with
  | some (.register r) => some r
  | _ => none

theorem register?_eq_some_iff {w : Word} {r : Reg} :
    register? w = some r ↔ Operand.ofWord? w = some (.register r) := by
  unfold register?
  rcases Operand.ofWord? w with _ | ⟨value | reg⟩ <;> simp

def unaryMeaning? (f : Word → Word) (a b : Word) : Option Effect := do
  let reg ← register? a
  return .assign reg (f (← value? m b))

def binaryMeaning? (f : Word → Word → Word) (a b c : Word) : Option Effect := do
  let reg ← register? a
  let b ← value? m b
  return .assign reg (f b (← value? m c))

def remainderMeaning? (a b c : Word) : Option Effect := do
  let reg ← register? a
  let b ← value? m b
  let c ← value? m c
  if c = 0 then none else return .assign reg (b % c)

def branchMeaning? (taken : Word → Bool) (a b : Word) : Option Effect := do
  let condition ← value? m a
  return .branch (taken condition) (← value? m b)

def inputMeaning? (a : Word) : Option Effect := do
  let reg ← register? a
  match m.console.pending with
  | [] => return .wait
  | ch :: _ => if ch.toNat < Word.modulus then return .consume reg ch else none

def first (w : Vector Word (n + 1)) : Word := w.get 0

def second (w : Vector Word (n + 2)) : Word := w.get 1

def third (w : Vector Word (n + 3)) : Word := w.get 2

/-- The effect of an instruction, with every operand good and no one stopping it. -/
def meaning? : (op : Opcode) → Vector Word op.operandCount → Option Effect
  | .halt, _ => some .halt
  | .noop, _ => some .proceed
  | .set, w => unaryMeaning? m id (first w) (second w)
  | .not, w => unaryMeaning? m Word.complement (first w) (second w)
  | .load, w => unaryMeaning? m m.memory.read (first w) (second w)
  | .eq, w => binaryMeaning? m (fun b c => truth (b = c)) (first w) (second w) (third w)
  | .gt, w => binaryMeaning? m (fun b c => truth (b > c)) (first w) (second w) (third w)
  | .add, w =>
    binaryMeaning? m (fun b c => Word.wrap (b.toNat + c.toNat)) (first w) (second w) (third w)
  | .mult, w =>
    binaryMeaning? m (fun b c => Word.wrap (b.toNat * c.toNat)) (first w) (second w) (third w)
  | .mod, w => remainderMeaning? m (first w) (second w) (third w)
  | .and, w => binaryMeaning? m (· &&& ·) (first w) (second w) (third w)
  | .or, w => binaryMeaning? m (· ||| ·) (first w) (second w) (third w)
  | .push, w => return .push (← value? m (first w))
  | .pop, w => do
    let reg ← register? (first w)
    return .pop reg (← m.stack.back?)
  | .jump, w => return .jump (← value? m (first w))
  | .jumpIf, w => branchMeaning? m (· != 0) (first w) (second w)
  | .jumpUnless, w => branchMeaning? m (· == 0) (first w) (second w)
  | .store, w => do
    let addr ← value? m (first w)
    return .store addr (← value? m (second w))
  | .call, w => return .call (← value? m (first w))
  | .ret, _ => return .ret (← m.stack.back?)
  | .output, w => return .emit (character (← value? m (first w)))
  | .input, w => inputMeaning? m (first w)

variable {m : Machine} {op : Opcode} {config : RunConfig} {observer : Observer σ}
  {d d' : Dialogue σ}

theorem unaryMeaning?_eq_some_iff {f : Word → Word} {a b : Word} {effect : Effect} :
    unaryMeaning? m f a b = some effect ↔
      ∃ r x, register? a = some r ∧ value? m b = some x ∧ .assign r (f x) = effect := by
  simp [unaryMeaning?, Option.bind_eq_some_iff]

theorem binaryMeaning?_eq_some_iff {f : Word → Word → Word} {a b c : Word} {effect : Effect} :
    binaryMeaning? m f a b c = some effect ↔
      ∃ r x y, register? a = some r ∧ value? m b = some x ∧ value? m c = some y ∧
        .assign r (f x y) = effect := by
  simp [binaryMeaning?, Option.bind_eq_some_iff]

theorem remainderMeaning?_eq_some_iff {a b c : Word} {effect : Effect} :
    remainderMeaning? m a b c = some effect ↔
      ∃ r x y, register? a = some r ∧ value? m b = some x ∧ value? m c = some y ∧ y ≠ 0 ∧
        .assign r (x % y) = effect := by
  simp [remainderMeaning?, Option.bind_eq_some_iff]

theorem branchMeaning?_eq_some_iff {taken : Word → Bool} {a b : Word} {effect : Effect} :
    branchMeaning? m taken a b = some effect ↔
      ∃ x y, value? m a = some x ∧ value? m b = some y ∧ .branch (taken x) y = effect := by
  simp [branchMeaning?, Option.bind_eq_some_iff]

/-- An `input` waits if there is no input, and takes the first character if it fits a word. -/
theorem inputMeaning?_eq_some_iff {a : Word} {effect : Effect} :
    inputMeaning? m a = some effect ↔
      ∃ r, register? a = some r ∧
        (m.console.pending = [] ∧ .wait = effect ∨
          ∃ ch rest, m.console.pending = ch :: rest ∧ ch.toNat < Word.modulus ∧
            .consume r ch = effect) := by
  cases pending : m.console.pending <;> simp [inputMeaning?, pending, Option.bind_eq_some_iff]

theorem destination_ok {w : Word} {r : Reg} :
    (destination m op w : Resolve σ Reg).run d = (.ok r, d') ↔ register? w = some r ∧ d = d' := by
  unfold destination register?
  rcases Operand.ofWord? w with _ | ⟨value | reg⟩ <;> simp

theorem top_ok {value : Word} :
    (top m op : Resolve σ Word).run d = (.ok value, d') ↔ m.stack.back? = some value ∧ d = d' := by
  unfold top
  rcases m.stack.back? with _ | value <;> simp

theorem consult_ok {ask : σ → Verdict × σ} (h : (consult m ask).run d = (.ok (), d')) :
    d'.supplied = d.supplied := by
  simp only [consult, Resolve.run] at h
  split at h
  · cases h
    rfl
  · simp at h

/-- A read gives the value of the operand, and only the observer's state moves on. -/
theorem read_ok {w value : Word} (h : (read observer m op w).run d = (.ok value, d')) :
    value? m w = some value ∧ d'.supplied = d.supplied := by
  unfold read at h
  split at h
  · rename_i v operand
    obtain ⟨rfl, rfl⟩ := Resolve.run_pure_ok.1 h
    simp [value?, operand, Operand.resolve]
  · rename_i r operand
    obtain ⟨_, _, consulted, h⟩ := Resolve.run_bind_ok.1 h
    obtain ⟨rfl, rfl⟩ := Resolve.run_pure_ok.1 h
    exact ⟨by simp [value?, operand, Operand.resolve], consult_ok consulted⟩
  · simp at h

theorem unary_ok {f : Word → Word} {a b : Word} {effect : Effect}
    (h : (unary observer m op f a b).run d = (.ok effect, d')) :
    unaryMeaning? m f a b = some effect ∧ d'.supplied = d.supplied := by
  simp only [unary, Resolve.run_bind_ok, Resolve.run_pure_ok, destination_ok] at h
  obtain ⟨reg, _, ⟨target, rfl⟩, value, _, first, rfl, rfl⟩ := h
  obtain ⟨values, supplied⟩ := read_ok first
  exact ⟨unaryMeaning?_eq_some_iff.2 ⟨reg, value, target, values, rfl⟩, supplied⟩

theorem binary_ok {f : Word → Word → Word} {a b c : Word} {effect : Effect}
    (h : (binary observer m op f a b c).run d = (.ok effect, d')) :
    binaryMeaning? m f a b c = some effect ∧ d'.supplied = d.supplied := by
  simp only [binary, Resolve.run_bind_ok, Resolve.run_pure_ok, destination_ok] at h
  obtain ⟨reg, _, ⟨target, rfl⟩, left, _, first, right, _, second, rfl, rfl⟩ := h
  obtain ⟨lefts, supplied⟩ := read_ok first
  obtain ⟨rights, supplied'⟩ := read_ok second
  exact ⟨binaryMeaning?_eq_some_iff.2 ⟨reg, left, right, target, lefts, rights, rfl⟩,
    supplied'.trans supplied⟩

theorem remainder_ok {a b c : Word} {effect : Effect}
    (h : (remainder observer m op a b c).run d = (.ok effect, d')) :
    remainderMeaning? m a b c = some effect ∧ d'.supplied = d.supplied := by
  simp only [remainder, Resolve.run_bind_ok, destination_ok] at h
  obtain ⟨reg, _, ⟨target, rfl⟩, left, _, first, right, _, second, h⟩ := h
  obtain ⟨lefts, supplied⟩ := read_ok first
  obtain ⟨rights, supplied'⟩ := read_ok second
  split at h
  · simp at h
  · rename_i nonzero
    obtain ⟨rfl, rfl⟩ := Resolve.run_pure_ok.1 h
    exact ⟨remainderMeaning?_eq_some_iff.2 ⟨reg, left, right, target, lefts, rights, nonzero, rfl⟩,
      supplied'.trans supplied⟩

theorem output_ok {a : Word} {effect : Effect}
    (h : (output config observer m op a).run d = (.ok effect, d')) :
    (do return .emit (character (← value? m a))) = some effect ∧ d'.supplied = d.supplied := by
  simp only [output, Resolve.run_bind_ok] at h
  obtain ⟨value, _, first, h⟩ := h
  obtain ⟨values, supplied⟩ := read_ok first
  split at h
  · simp at h
  · obtain ⟨_, _, consulted, h⟩ := Resolve.run_bind_ok.1 h
    obtain ⟨rfl, rfl⟩ := Resolve.run_pure_ok.1 h
    exact ⟨by simp [values], (consult_ok consulted).trans supplied⟩

/-- The first pending character, and what was supplied for want of one. -/
theorem firstInput_ok {first : Option Char}
    (h : (firstInput observer m).run ⟨s, ""⟩ = (.ok first, d)) :
    (m.feed d.supplied).console.pending.head? = first ∧
      (d.supplied = "" ∨ m.console.pending = []) := by
  simp only [firstInput, Resolve.run] at h
  split at h
  · rename_i ch rest pending
    cases h
    simp [pending]
  · rename_i pending
    split at h
    all_goals
      cases h
      simp [pending, Machine.feed]

theorem input_ok {a : Word} {effect : Effect}
    (h : (input observer m op a).run ⟨s, ""⟩ = (.ok effect, d)) :
    inputMeaning? (m.feed d.supplied) a = some effect ∧
      (d.supplied = "" ∨ m.console.pending = []) := by
  simp only [input, Resolve.run_bind_ok, destination_ok] at h
  obtain ⟨reg, _, ⟨target, rfl⟩, first, d'', asked, h⟩ := h
  obtain ⟨heads, supplied⟩ := firstInput_ok asked
  cases first with
  | none =>
    obtain ⟨rfl, rfl⟩ := Resolve.run_pure_ok.1 h
    have empty : (m.feed d''.supplied).console.pending = [] := List.head?_eq_none_iff.1 heads
    exact ⟨inputMeaning?_eq_some_iff.2 ⟨reg, target, .inl ⟨empty, rfl⟩⟩, supplied⟩
  | some ch =>
    obtain ⟨rest, pending⟩ := List.head?_eq_some_iff.1 heads
    simp only at h
    split at h
    · rename_i fits
      obtain ⟨rfl, rfl⟩ := Resolve.run_pure_ok.1 h
      refine ⟨inputMeaning?_eq_some_iff.2 ⟨reg, target, .inr ?_⟩, supplied⟩
      exact ⟨ch, rest, pending, fits, rfl⟩
    · simp at h

theorem pop_ok {a : Word} {effect : Effect}
    (h : (do let reg ← destination m op a; return .pop reg (← top m op) : Resolve σ Effect).run d =
      (.ok effect, d')) :
    (do let reg ← register? a; return .pop reg (← m.stack.back?)) = some effect ∧ d = d' := by
  simp only [Resolve.run_bind_ok, Resolve.run_pure_ok, destination_ok, top_ok] at h
  obtain ⟨reg, _, ⟨target, rfl⟩, value, _, ⟨back, rfl⟩, rfl, rfl⟩ := h
  exact ⟨by simp [target, back], rfl⟩

/-- An effect that takes the value of one operand. -/
theorem taking_ok {a : Word} {f : Word → Effect} {effect : Effect}
    (h : (do return f (← read observer m op a)).run d = (.ok effect, d')) :
    (do return f (← value? m a)) = some effect ∧ d'.supplied = d.supplied := by
  simp only [Resolve.run_bind_ok, Resolve.run_pure_ok] at h
  obtain ⟨value, _, first, rfl, rfl⟩ := h
  obtain ⟨values, supplied⟩ := read_ok first
  exact ⟨by simp [values], supplied⟩

/-- An effect that takes the values of two operands. -/
theorem takingTwo_ok {a b : Word} {f : Word → Word → Effect} {effect : Effect}
    (h : (do let x ← read observer m op a; return f x (← read observer m op b)).run d =
      (.ok effect, d')) :
    (do let x ← value? m a; return f x (← value? m b)) = some effect ∧
      d'.supplied = d.supplied := by
  simp only [Resolve.run_bind_ok, Resolve.run_pure_ok] at h
  obtain ⟨left, _, first, right, _, second, rfl, rfl⟩ := h
  obtain ⟨lefts, supplied⟩ := read_ok first
  obtain ⟨rights, supplied'⟩ := read_ok second
  exact ⟨by simp [lefts, rights], supplied'.trans supplied⟩

theorem meaning?_of_resolve_of_ne_input {w : Vector Word op.operandCount} {effect : Effect}
    (other : op ≠ .input) (h : (resolve config observer m op w).run d = (.ok effect, d')) :
    meaning? m op w = some effect ∧ d'.supplied = d.supplied := by
  cases op with
  | halt | noop =>
    obtain ⟨rfl, rfl⟩ := Resolve.run_pure_ok.1 h
    exact ⟨rfl, rfl⟩
  | set | not | load => exact unary_ok h
  | eq | gt | add | mult | and | or => exact binary_ok h
  | mod => exact remainder_ok h
  | push | jump | call => exact taking_ok h
  | pop =>
    obtain ⟨means, rfl⟩ := pop_ok h
    exact ⟨means, rfl⟩
  | jumpIf => exact takingTwo_ok (f := fun x y => .branch (x != 0) y) h
  | jumpUnless => exact takingTwo_ok (f := fun x y => .branch (x == 0) y) h
  | store => exact takingTwo_ok h
  | ret =>
    obtain ⟨value, _, first, h⟩ := Resolve.run_bind_ok.1 h
    obtain ⟨back, rfl⟩ := top_ok.1 first
    obtain ⟨rfl, rfl⟩ := Resolve.run_pure_ok.1 h
    exact ⟨by simp [meaning?, back], rfl⟩
  | output => exact output_ok h
  | input => exact absurd rfl other

/-- An instruction that resolves has its meaning as effect. Only `input` may be supplied with text,
and only when none is pending. -/
theorem meaning?_of_resolve {w : Vector Word op.operandCount} {effect : Effect}
    (h : (resolve config observer m op w).run ⟨s, ""⟩ = (.ok effect, d)) :
    meaning? (m.feed d.supplied) op w = some effect ∧
      (d.supplied = "" ∨ op = .input ∧ m.console.pending = []) := by
  by_cases other : op = .input
  · subst other
    obtain ⟨means, supplied⟩ := input_ok h
    exact ⟨means, supplied.imp_right fun empty => ⟨rfl, empty⟩⟩
  · obtain ⟨means, supplied⟩ := meaning?_of_resolve_of_ne_input other h
    rw [supplied, Machine.feed_empty]
    exact ⟨means, .inl rfl⟩

end Effect

end WordMachine

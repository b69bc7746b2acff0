import WordMachine.Proofs.Effect.Kind
import WordMachine.Proofs.Operation
import WordMachine.Proofs.Step.Outcome

/-!
The literal range and the instructions that calculate. Words above it come into registers from
memory, the stack and the input. `add`, `mult` and `not` bring any word back into the range; `mod`,
`and` and `or` do not, and `Effect.Exceeds` says on which operands their results stay above it.
-/

namespace WordMachine

namespace Word

/-- The words above the literal range are those with the highest bit. -/
theorem modulus_le_iff (w : Word) : modulus ≤ w.toNat ↔ w.toNat.testBit 15 = true := by
  have bound := w.toNat_lt
  rw [Nat.testBit_eq_decide_div_mod_eq, decide_eq_true_iff, modulus]
  omega

theorem modulus_le_and (b c : Word) :
    modulus ≤ (b &&& c).toNat ↔ modulus ≤ b.toNat ∧ modulus ≤ c.toNat := by
  rw [modulus_le_iff, modulus_le_iff, modulus_le_iff, UInt16.toNat_and, Nat.testBit_and,
    Bool.and_eq_true]

theorem modulus_le_or (b c : Word) :
    modulus ≤ (b ||| c).toNat ↔ modulus ≤ b.toNat ∨ modulus ≤ c.toNat := by
  rw [modulus_le_iff, modulus_le_iff, modulus_le_iff, UInt16.toNat_or, Nat.testBit_or,
    Bool.or_eq_true]

/-- A remainder by more than the dividend is the dividend. Any other is below half the words. -/
theorem modulus_le_mod (b : Word) {c : Word} (nonzero : c ≠ 0) :
    modulus ≤ (b % c).toNat ↔ modulus ≤ b.toNat ∧ b.toNat < c.toNat := by
  have bound := b.toNat_lt
  have positive : 0 < c.toNat := by
    refine Nat.pos_of_ne_zero fun zero => nonzero ?_
    exact UInt16.toNat_inj.1 zero
  rw [UInt16.toNat_mod]
  rcases Nat.lt_or_ge b.toNat c.toNat with below | above
  · rw [Nat.mod_eq_of_lt below]
    exact (and_iff_left below).symm
  · have fits : b.toNat % c.toNat < c.toNat := Nat.mod_lt _ positive
    have less : b.toNat % c.toNat ≤ b.toNat - c.toNat := by
      rw [Nat.mod_eq_sub_mod above]
      exact Nat.mod_le _ _
    simp only [modulus]
    omega

theorem wrap_lt (n : Nat) : (wrap n).toNat < modulus := by
  rw [toNat_wrap]
  exact Nat.mod_lt _ (by decide)

theorem complement_lt (w : Word) : (complement w).toNat < modulus := by
  rw [← Nat.not_le, complement, modulus_le_and]
  exact fun above => absurd above.2 (by decide)

end Word

/-- The instructions that calculate with numbers and with bits. -/
def Opcode.arithmetic : List Opcode := [.add, .mult, .mod, .and, .or, .not]

namespace Effect

/-- The operand has a value above the literal range. -/
def Above (m : Machine) (w : Word) : Prop :=
  ∃ value, value? m w = some value ∧ Word.modulus ≤ value.toNat

/-- The instructions whose result is above the literal range. -/
def Exceeds (m : Machine) : (op : Opcode) → Vector Word op.operandCount → Prop
  | .mod, w => ∃ b c, value? m (second w) = some b ∧ value? m (third w) = some c ∧
    Word.modulus ≤ b.toNat ∧ b.toNat < c.toNat
  | .and, w => Above m (second w) ∧ Above m (third w)
  | .or, w => Above m (second w) ∨ Above m (third w)
  | _, _ => False

variable {m : Machine} {op : Opcode} {w : Vector Word op.operandCount} {effect : Effect}

theorem above_iff {operand value : Word} (h : value? m operand = some value) :
    Above m operand ↔ Word.modulus ≤ value.toNat := by
  simp [Above, h]

/-- What an arithmetic instruction assigns is in the literal range unless the instruction exceeds
it. -/
theorem assign_of_meaning? (means : meaning? m op w = some effect)
    (arithmetic : op ∈ Opcode.arithmetic) :
    ∃ r value, effect = .assign r value ∧
      (value.toNat < Word.modulus ↔ ¬ Exceeds m op w) := by
  cases op with
  | not =>
    obtain ⟨r, b, _, _, rfl⟩ := unaryMeaning?_eq_some_iff.1 means
    exact ⟨r, _, rfl, iff_of_true (Word.complement_lt b) id⟩
  | add | mult =>
    obtain ⟨r, b, c, _, _, _, rfl⟩ := binaryMeaning?_eq_some_iff.1 means
    exact ⟨r, _, rfl, iff_of_true (Word.wrap_lt _) id⟩
  | mod =>
    obtain ⟨r, b, c, _, left, right, nonzero, rfl⟩ := remainderMeaning?_eq_some_iff.1 means
    refine ⟨r, _, rfl, ?_⟩
    rw [← Nat.not_le, Word.modulus_le_mod b nonzero]
    simp [Exceeds, left, right]
  | and =>
    obtain ⟨r, b, c, _, left, right, rfl⟩ := binaryMeaning?_eq_some_iff.1 means
    refine ⟨r, _, rfl, ?_⟩
    rw [← Nat.not_le, Word.modulus_le_and, Exceeds, above_iff left, above_iff right]
  | or =>
    obtain ⟨r, b, c, _, left, right, rfl⟩ := binaryMeaning?_eq_some_iff.1 means
    refine ⟨r, _, rfl, ?_⟩
    rw [← Nat.not_le, Word.modulus_le_or, Exceeds, above_iff left, above_iff right]
  | _ => simp [Opcode.arithmetic] at arithmetic

end Effect

namespace Machine

/-- A step that completes an arithmetic instruction leaves a word of the literal range in the
destination, exactly unless the values of the operands are such that the instruction exceeds it. -/
theorem arithmetic_in_range (m : Machine) (config : RunConfig) (observer : Observer σ) (s : σ)
    {i : Instruction} (decoded : m.memory.instructionAt m.pc = .ok i)
    (arithmetic : i.opcode ∈ Opcode.arithmetic)
    (completed : (m.step config observer s).result = .ok .continued) :
    ∃ r, i.destination? = some r ∧
      (((m.step config observer s).machine.registers.get r).toNat < Word.modulus ↔
        ¬ Effect.Exceeds m i.opcode i.operands) := by
  obtain ⟨j, effect, text, here, supplied, means, -, after⟩ :=
    completed_of_step completed (by simp)
  cases decoded.symm.trans here
  have silent : text = "" := by
    refine supplied.resolve_right fun asks => ?_
    rw [asks.1] at arithmetic
    simp [Opcode.arithmetic] at arithmetic
  rw [silent, feed_empty] at means after
  obtain ⟨r, value, rfl, range⟩ := Effect.assign_of_meaning? means arithmetic
  refine ⟨r, Effect.destination?_of_meaning? means (by simp), ?_⟩
  have written : (m.step config observer s).machine.registers.get r = value := by
    rw [after]
    exact (Bank.get_set _ _ _ _).trans (if_pos rfl)
  rw [written]
  exact range

theorem arithmetic_in_range_add :
    let config : RunConfig := {}
    let m : Machine :=
      { memory := Memory.ofImage [9, 32769, 32768, 32768]
        registers := #v[40000, 0, 0, 0, 0, 0, 0, 0] }
    let i : Instruction := ⟨0, .add, #v[32769, 32768, 32768]⟩
    m.memory.instructionAt m.pc = .ok i ∧ (m.step config .silent ()).result = .ok .continued ∧
      ((m.step config .silent ()).machine.registers.get 1).toNat < Word.modulus := by
  intro config m i
  have decoded : m.memory.instructionAt m.pc = .ok i := by
    unfold m i
    simp only [Memory.instructionAt, Memory.extent_eq]
    rfl
  have completed : (m.step config .silent ()).result = .ok .continued := by
    unfold config m
    simp only [step, awaitsInput, Memory.instructionAt, Memory.extent_eq]
    rfl
  obtain ⟨r, names, range⟩ :=
    arithmetic_in_range m config .silent () decoded (by decide) completed
  have one : i.destination? = some 1 := rfl
  obtain rfl := Option.some.inj (one.symm.trans names)
  exact ⟨decoded, completed, range.2 id⟩

/-- A word above the range is read from memory, and `and` keeps it. -/
theorem and_exceeds_range :
    let config : RunConfig := {}
    let m : Machine :=
      { memory := Memory.ofImage [15, 32768, 7, 12, 32769, 32768, 32768, 40000] }
    let n := (m.step config .silent ()).machine
    let i : Instruction := ⟨3, .and, #v[32769, 32768, 32768]⟩
    Reachable n ∧ n.memory.instructionAt n.pc = .ok i ∧
      (n.step config .silent ()).result = .ok .continued ∧ i.destination? = some 1 ∧
      ¬ ((n.step config .silent ()).machine.registers.get 1).toNat < Word.modulus := by
  intro config m n i
  have reached : Reachable n :=
    .perform (.move (.step config .silent ()))
      (@Reachable.load [15, 32768, 7, 12, 32769, 32768, 32768, 40000] _ rfl)
  have kept : (n.step config .silent ()).machine.registers.get 1 = 40000 := by
    unfold n m config
    simp only [step, awaitsInput, Memory.instructionAt, Memory.extent_eq]
    rfl
  refine ⟨reached, ?_, ?_, rfl, ?_⟩
  · unfold n m config i
    simp only [step, awaitsInput, Memory.instructionAt, Memory.extent_eq]
    rfl
  · unfold n m config
    simp only [step, awaitsInput, Memory.instructionAt, Memory.extent_eq]
    rfl
  · rw [kept]
    decide

end Machine

end WordMachine

import WordMachine.Proofs.Memory.Cells

/-!
Where a step leaves the program counter. An instruction that does not send it elsewhere leaves it
behind itself, faults and halts included; but the address behind an instruction is a word, and the
address behind one that ends in the last cell is zero. `pc_advances` says when this happens, and
`resumes_at_zero` shows it.
-/

namespace WordMachine

namespace Effect

/-- Where the effect sends the program counter, if it does. -/
def target? : Effect → Option Word
  | .jump target | .call target | .ret target | .branch true target => some target
  | _ => none

/-- The instructions that go on elsewhere than behind themselves when they complete. -/
def Diverts (m : Machine) : (op : Opcode) → Vector Word op.operandCount → Prop
  | .jump, _ | .call, _ | .ret, _ => True
  | .jumpIf, w => ∃ condition, value? m (first w) = some condition ∧ condition ≠ 0
  | .jumpUnless, w => value? m (first w) = some 0
  | _, _ => False

theorem diverts_of_target? {m : Machine} {op : Opcode} {w : Vector Word op.operandCount}
    {effect : Effect} (means : meaning? m op w = some effect) {target : Word}
    (h : effect.target? = some target) : Diverts m op w := by
  have yields := yields_of_meaning? means
  cases op with
  | jump | call | ret => trivial
  | jumpIf =>
    obtain ⟨condition, _, value, _, rfl⟩ := branchMeaning?_eq_some_iff.1 means
    refine ⟨condition, value, ?_⟩
    intro zero
    simp [zero, target?] at h
  | jumpUnless =>
    obtain ⟨condition, _, value, _, rfl⟩ := branchMeaning?_eq_some_iff.1 means
    by_cases zero : condition = 0
    · rw [zero] at value
      exact value
    · simp [zero, target?] at h
  | _ => cases effect <;> first | exact yields.elim | cases h

end Effect

namespace Machine

theorem pc_apply (m : Machine) (next : Word) {effect : Effect} (acts : effect ≠ .wait) :
    (m.apply next effect).pc = effect.target?.getD next := by
  cases effect with
  | wait => exact absurd rfl acts
  | branch taken target => cases taken <;> rfl
  | consume r ch => exact pc_takeCheckpoint _
  | _ => rfl

/-- A step that completes an instruction or faults in it, and does not send the program counter
elsewhere. -/
structure Passes (m : Machine) (i : Instruction) (result : Except Fault Progress) : Prop where
  decoded : m.memory.instructionAt m.pc = .ok i
  awake : result ≠ .ok .suspended
  undisturbed : ∀ pc, result ≠ .error (.stopped pc)
  straight : result = .ok .continued → ¬ Effect.Diverts m i.opcode i.operands

theorem pc_step (m : Machine) (config : RunConfig) (observer : Observer σ) (s : σ)
    {i : Instruction} (passes : m.Passes i (m.step config observer s).result) :
    (m.step config observer s).machine.pc = UInt16.ofNat i.next := by
  obtain ⟨here, awake, undisturbed, straight⟩ := passes
  have outcome := step_outcome m config observer s
  generalize (m.step config observer s).result = result at outcome awake undisturbed straight
  generalize (m.step config observer s).machine = n at outcome
  cases outcome with
  | asleep => exact absurd rfl awake
  | undecoded fails =>
    rw [here] at fails
    cases fails
  | stopped pc => exact absurd rfl (undisturbed pc)
  | faulted text decoded =>
    rw [here] at decoded
    cases decoded
    rfl
  | @completed i effect text decoded supplied means =>
    rw [here] at decoded
    cases decoded
    have acts : effect ≠ .wait := by
      rintro rfl
      exact awake rfl
    rw [pc_apply _ _ acts]
    cases target : effect.target? with
    | none => rfl
    | some t =>
      have continues : effect.progress = .continued := by
        cases effect <;> first | rfl | cases target
      exact absurd (Effect.diverts_of_target? means target) (straight (by rw [continues]))

theorem stack_step_call (m : Machine) (config : RunConfig) (observer : Observer σ) (s : σ)
    {i : Instruction} (decoded : m.memory.instructionAt m.pc = .ok i) (calls : i.opcode = .call)
    (completed : (m.step config observer s).result = .ok .continued) :
    (m.step config observer s).machine.stack = m.stack.push (UInt16.ofNat i.next) := by
  obtain ⟨j, effect, text, here, supplied, means, -, after⟩ :=
    completed_of_step completed (by simp)
  cases decoded.symm.trans here
  rw [after]
  have yields := Effect.yields_of_meaning? means
  rw [calls] at yields
  cases effect with
  | call target => rfl
  | _ => exact yields.elim

theorem Reachable.mirrored {m : Machine} (h : Reachable m) :
    ∃ words cells, words.length ≤ Image.maxWords ∧ Cells.Mirror words cells m := by
  induction h with
  | load loaded => exact ⟨_, _, (ofImage_ok loaded).1, Cells.mirror_ofImage loaded⟩
  | perform operation _ ih =>
    obtain ⟨words, cells, short, mirror⟩ := ih
    exact ⟨words, _, short, mirror.perform operation⟩

theorem Reachable.extent_le {m : Machine} (h : Reachable m) : m.memory.extent ≤ 65536 := by
  obtain ⟨words, cells, short, mirror⟩ := h.mirrored
  apply Memory.extent_le
  rw [Memory.size, mirror.image, List.size_toArray]
  rw [Image.maxWords] at short
  omega

theorem toNat_ofNat_eq_iff {n : Nat} (h : n ≤ 65536) : (UInt16.ofNat n).toNat = n ↔ n ≠ 65536 := by
  rw [UInt16.toNat_ofNat']
  omega

/-- The program counter ends up behind the instruction, and a call notes the address behind itself,
unless the instruction ends in the last cell. Then it is at zero. -/
theorem pc_advances {m : Machine} (reached : Reachable m) (config : RunConfig)
    (observer : Observer σ) (s : σ) {i : Instruction}
    (decoded : m.memory.instructionAt m.pc = .ok i) :
    (m.Passes i (m.step config observer s).result →
      ((m.step config observer s).machine.pc.toNat = m.pc.toNat + i.opcode.arity ↔
        m.pc.toNat + i.opcode.arity ≠ 65536) ∧
      (m.pc.toNat + i.opcode.arity = 65536 → (m.step config observer s).machine.pc = 0)) ∧
    (i.opcode = .call → (m.step config observer s).result = .ok .continued →
      ∃ back : Word, (m.step config observer s).machine.stack = m.stack.push back ∧
        (back.toNat = m.pc.toNat + 2 ↔ m.pc.toNat + 2 ≠ 65536)) := by
  have reads := Memory.decodes_of_instructionAt decoded
  have next : i.next = m.pc.toNat + i.opcode.arity := by rw [Instruction.next, reads.place]
  have inside : m.pc.toNat + i.opcode.arity ≤ 65536 := by
    rw [← next]
    exact Nat.le_trans reads.inside reached.extent_le
  constructor
  · intro passes
    rw [pc_step m config observer s passes, next]
    refine ⟨toNat_ofNat_eq_iff inside, ?_⟩
    intro last
    rw [last]
    rfl
  · intro calls completed
    rw [calls] at next inside
    refine ⟨_, stack_step_call m config observer s decoded calls completed, ?_⟩
    rw [next]
    exact toNat_ofNat_eq_iff inside

theorem pc_advances_noop :
    let m : Machine := { memory := Memory.ofImage [21, 0] }
    Reachable m ∧ (m.step { suspendOnInput := false } .silent ()).machine.pc.toNat = 1 := by
  intro m
  have reached : Reachable m := @Reachable.load [21, 0] _ rfl
  have decoded : m.memory.instructionAt m.pc = .ok ⟨0, .noop, #v[]⟩ := by
    unfold Memory.instructionAt
    rw [Memory.extent_ofImage]
    rfl
  have result : (m.step { suspendOnInput := false } .silent ()).result = .ok .continued := by
    simp only [step, decoded, Bool.false_and, Bool.false_eq_true, if_false]
    rfl
  have passes :
      m.Passes ⟨0, .noop, #v[]⟩ (m.step { suspendOnInput := false } .silent ()).result := by
    rw [result]
    exact ⟨decoded, by simp, by simp, fun _ h => h⟩
  have advances := (pc_advances reached { suspendOnInput := false } .silent () decoded).1 passes
  exact ⟨reached, advances.1.2 (by decide)⟩

/-- A `noop` in the last cell goes on with the `halt` in the first one. -/
theorem resumes_at_zero :
    let config : RunConfig := { suspendOnInput := false }
    let m := (({ memory := Memory.ofImage [0] } : Machine).write 65535 21).setPc 65535
    let i : Instruction := ⟨65535, .noop, #v[]⟩
    let n := (m.step config .silent ()).machine
    Reachable m ∧ m.Passes i (m.step config .silent ()).result ∧
      n.pc.toNat ≠ m.pc.toNat + i.opcode.arity ∧ n.pc = 0 ∧
      (n.step config .silent ()).result = .ok .halted := by
  intro config m i n
  have reached : Reachable m :=
    .perform (.move (.setPc 65535)) (.perform (.move (.write 65535 21)) (@Reachable.load [0] _ rfl))
  have extent : m.memory.extent = 65536 := by
    have differs : m.memory.read 65535 ≠ m.memory.loaded 65535 := by decide
    have above : 65536 ≤ m.memory.extent := m.memory.isGreatest_extent.2 (.inr ⟨_, differs, rfl⟩)
    have below := reached.extent_le
    omega
  have decoded : m.memory.instructionAt m.pc = .ok i := by
    unfold Memory.instructionAt
    rw [extent]
    rfl
  have step : m.step config .silent () = ⟨.ok .continued, m.setPc 0, ()⟩ := by
    simp only [step, decoded, config, Bool.false_and, Bool.false_eq_true, if_false, execute, i,
      Effect.resolve, Resolve.run_pure, feed_empty]
    rfl
  have first : (m.setPc 0).memory.instructionAt (m.setPc 0).pc = .ok ⟨0, .halt, #v[]⟩ := by
    unfold Memory.instructionAt
    have same : (m.setPc 0).memory.extent = 65536 := extent
    rw [same]
    rfl
  have passes : m.Passes i (m.step config .silent ()).result := by
    rw [step]
    exact ⟨decoded, by simp, by simp, fun _ h => h⟩
  have next : n = m.setPc 0 := congrArg Step.machine step
  refine ⟨reached, passes, ?_, ?_, ?_⟩
  · rw [next]
    decide
  · rw [next]
    rfl
  · rw [next]
    simp only [Machine.step, first, config, Bool.false_and, Bool.false_eq_true, if_false]
    rfl

end Machine

end WordMachine

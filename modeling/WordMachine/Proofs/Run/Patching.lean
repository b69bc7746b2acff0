import WordMachine.Proofs.Memory.Fetch
import WordMachine.Proofs.Run.Limit

/-!
An instruction whose cells are patched with `noop` is skipped. Patching writes one word to every
address given, so neither order nor repetition matters (`read_patchNoops`), and memory extends past
every cell that is patched (`lt_extent_patchNoops`). A row of `noop` cells then advances the program
counter cell by cell and leaves all else alone (`advances_noops`).
-/

namespace WordMachine.Machine

variable {m : Machine} {i : Instruction} {addrs : List Word}

theorem patchNoops_eq (m : Machine) (addrs : List Word) :
    m.patchNoops addrs =
      { m with memory := m.memory.storeAll (addrs.map (·, Opcode.noop.word)) } := by
  induction addrs generalizing m with
  | nil => rfl
  | cons addr addrs ih => exact ih (m.write addr Opcode.noop.word)

theorem read_patchNoops (m : Machine) (addrs : List Word) (a : Word) :
    (m.patchNoops addrs).memory.read a =
      if a ∈ addrs then Opcode.noop.word else m.memory.read a := by
  rw [patchNoops_eq]
  exact m.memory.read_storeAll_map addrs _ a

theorem loaded_patchNoops (m : Machine) (addrs : List Word) (a : Word) :
    (m.patchNoops addrs).memory.loaded a = m.memory.loaded a := by
  rw [patchNoops_eq, Memory.loaded, Memory.image_storeAll]
  rfl

/-- A patched cell that is not in the image differs from it, for the image reads zero there. -/
theorem lt_extent_patchNoops {a : Word} (patched : a ∈ addrs) :
    a.toNat < (m.patchNoops addrs).memory.extent := by
  rw [← Nat.succ_le_iff, Memory.le_extent_iff]
  rcases Nat.lt_or_ge a.toNat (m.patchNoops addrs).memory.size with inside | outside
  · exact .inl inside
  · refine .inr ⟨a, ?_, Nat.le_refl _⟩
    rw [read_patchNoops, if_pos patched, Memory.loaded_of_size_le outside]
    decide

theorem mem_changed_patchNoops {a : Word} (patched : a ∈ addrs) :
    a ∈ (m.patchNoops addrs).memory.changed ↔ m.memory.loaded a ≠ Opcode.noop.word := by
  rw [Memory.mem_changed_iff, read_patchNoops, if_pos patched, loaded_patchNoops]
  exact ne_comm

theorem step_noop (inside : m.pc.toNat < m.memory.extent)
    (word : m.memory.read m.pc = Opcode.noop.word) (config : RunConfig) (observer : Observer σ)
    (s : σ) : m.step config observer s = ⟨.ok .continued, m.setPc (m.pc + 1), s⟩ := by
  have decoded := Memory.instructionAt_noop inside word
  have awake : m.awaitsInput = false := awaitsInput_of_other decoded (by simp)
  have next : UInt16.ofNat (m.pc.toNat + 1) = m.pc + 1 := by simp [UInt16.ofNat_add]
  simp only [step, awake, Bool.and_false, Bool.false_eq_true, if_false, decoded, execute,
    Effect.resolve, Resolve.run_pure, feed_empty]
  exact congrArg (fun pc => (⟨.ok .continued, m.setPc pc, s⟩ : Step σ)) next

/-- The induction is on the `noop` cells that lie ahead. -/
theorem advances_noops (config : RunConfig) (observer : Observer σ) (s : σ) (k : Nat)
    (fits : m.pc.toNat + k ≤ 65535)
    (noops : ∀ a, m.pc.toNat ≤ a.toNat → a.toNat < m.pc.toNat + k →
      a.toNat < m.memory.extent ∧ m.memory.read a = Opcode.noop.word) :
    Advances config observer k m s (m.setPc (m.pc + UInt16.ofNat k)) s := by
  induction k generalizing m with
  | zero =>
    have stays : m.setPc (m.pc + UInt16.ofNat 0) = m := by simp [setPc]
    rw [stays]
    exact .here
  | succ k ih =>
    obtain ⟨inside, word⟩ := noops m.pc (Nat.le_refl _) (by omega)
    have next : (m.pc + 1).toNat = m.pc.toNat + 1 := by
      rw [UInt16.toNat_add, UInt16.toNat_one]
      omega
    have rest : Advances config observer k (m.setPc (m.pc + 1)) s
        ((m.setPc (m.pc + 1)).setPc (m.pc + 1 + UInt16.ofNat k)) s := by
      apply ih
      · simp only [setPc, next]
        omega
      · intro a after before
        simp only [setPc, next] at after before
        exact noops a (by omega) (by omega)
    have sum : m.pc + 1 + UInt16.ofNat k = m.pc + UInt16.ofNat (k + 1) := by
      rw [UInt16.ofNat_add, UInt16.add_assoc, UInt16.add_comm 1]
      rfl
    rw [sum] at rest
    exact .next (step_noop inside word config observer s) rest

/-- Patch all cells of the instruction at the program counter, in any order and with repetitions:
as many steps as it has cells complete and lead behind it, and nothing else has changed but these
cells. They count as changes except where the image holds a `noop`. -/
theorem patched_instruction_skipped (decoded : m.memory.instructionAt m.pc = .ok i)
    (fits : i.next ≤ 65535)
    (covers : ∀ a, a ∈ addrs ↔ i.addr.toNat ≤ a.toNat ∧ a.toNat < i.next) (config : RunConfig) :
    ∃ n, Advances config .silent i.opcode.arity (m.patchNoops addrs) () n () ∧
      n.pc.toNat = i.next ∧ n.registers = m.registers ∧ n.stack = m.stack ∧
      n.console = m.console ∧ n.checkpoint = m.checkpoint ∧ n.branch = m.branch ∧
      (∀ a, n.memory.read a = if a ∈ addrs then Opcode.noop.word else m.memory.read a) ∧
      ∀ a ∈ addrs, a ∈ n.memory.changed ↔ m.memory.loaded a ≠ Opcode.noop.word := by
  have place : i.addr = m.pc := (Memory.decodes_of_instructionAt decoded).place
  have next : i.next = m.pc.toNat + i.opcode.arity := by rw [Instruction.next, place]
  have pc : (m.patchNoops addrs).pc = m.pc := by rw [patchNoops_eq]
  have skips := advances_noops (m := m.patchNoops addrs) config .silent () i.opcode.arity
    (by rw [pc, ← next]; exact fits) fun a after before => by
      rw [pc] at after before
      have patched : a ∈ addrs := (covers a).2 ⟨by rwa [place], by rwa [next]⟩
      exact ⟨lt_extent_patchNoops patched, by rw [read_patchNoops, if_pos patched]⟩
  rw [pc] at skips
  refine ⟨_, skips, ?_, ?_, ?_, ?_, ?_, ?_, m.read_patchNoops addrs, fun a patched =>
    mem_changed_patchNoops patched⟩
  · simp only [setPc, UInt16.toNat_add, UInt16.toNat_ofNat']
    omega
  all_goals simp only [setPc, patchNoops_eq]

/-- The last cell lies past the image, and the image holds a `noop` as the literal `21`. -/
theorem patched_instruction_skipped_add :
    let m := ({ memory := Memory.ofImage [9, 32768, 21] } : Machine).write 3 4
    let addrs : List Word := [3, 1, 0, 1, 2]
    m.memory.instructionAt m.pc = .ok ⟨0, .add, #v[32768, 21, 4]⟩ ∧
      ∃ n, Advances {} .silent 4 (m.patchNoops addrs) () n () ∧ n.pc.toNat = 4 ∧
        n.registers = m.registers ∧ n.memory.read 2 = 21 ∧ 2 ∉ n.memory.changed ∧
        3 ∈ n.memory.changed := by
  intro m addrs
  have decoded : m.memory.instructionAt m.pc = .ok ⟨0, .add, #v[32768, 21, 4]⟩ := by
    unfold m
    simp only [Memory.instructionAt, Memory.extent_eq]
    rfl
  have covers (a : Word) : a ∈ addrs ↔ (0 : Word).toNat ≤ a.toNat ∧ a.toNat < 4 := by
    simp only [addrs, List.mem_cons, List.not_mem_nil, or_false, ← UInt16.toNat_inj,
      UInt16.reduceToNat]
    omega
  obtain ⟨n, skips, pc, registers, -, -, -, -, reads, changed⟩ :=
    patched_instruction_skipped decoded (by decide) covers {}
  refine ⟨decoded, n, skips, pc, registers, (reads 2).trans (if_pos (by decide)), ?_, ?_⟩
  · rw [changed 2 (by decide)]
    decide
  · rw [changed 3 (by decide)]
    decide

end WordMachine.Machine

import WordMachine.Proofs.Effect.Kind
import WordMachine.Proofs.Memory.Overlay
import WordMachine.Proofs.Operation
import WordMachine.Proofs.Step.Outcome

/-!
Memory against a flat array. The array follows a machine through any operations: a write stores its
value, a store instruction is read from the array itself, and a restored state is written out over
the image. `memory_follows_cells` says that reading the memory, its difference, its extent and its
contents is always the same as reading them off the array.
-/

namespace WordMachine

/-- A flat memory: one cell for each address. -/
abbrev Cells := Vector Word 65536

namespace Cells

def cell (c : Cells) (a : Word) : Word := Vector.get c ⟨a.toNat, a.toNat_lt⟩

def store (c : Cells) (a value : Word) : Cells := Vector.set c a.toNat value a.toNat_lt

def tabulate (f : Word → Word) : Cells := Vector.ofFn fun i => f (UInt16.ofNat i)

/-- The image, padded with zeros. -/
def ofImage (words : List Word) : Cells := tabulate fun a => words.getD a.toNat 0

/-- The image under a difference. -/
def overlay (words : List Word) (changed : Changes) : Cells :=
  tabulate fun a => changed.getD a (words.getD a.toNat 0)

def patch (c : Cells) (addrs : List Word) : Cells :=
  addrs.foldl (fun c addr => c.store addr Opcode.noop.word) c

theorem cell_tabulate (f : Word → Word) (a : Word) : (tabulate f).cell a = f a := by
  have h : (tabulate f).cell a = f (UInt16.ofNat a.toNat) := Vector.getElem_ofFn _
  rw [h, UInt16.ofNat_toNat]

theorem cell_ofImage (words : List Word) (a : Word) :
    (ofImage words).cell a = words.getD a.toNat 0 := cell_tabulate _ a

theorem cell_overlay (words : List Word) (changed : Changes) (a : Word) :
    (overlay words changed).cell a = changed.getD a (words.getD a.toNat 0) := cell_tabulate _ a

theorem cell_store (c : Cells) (a value b : Word) :
    (c.store a value).cell b = if a = b then value else c.cell b := by
  have h : (c.store a value).cell b = if a.toNat = b.toNat then value else c.cell b :=
    Vector.getElem_set _ _
  simp only [h, UInt16.toNat_inj]

theorem getElem?_toList (c : Cells) (a : Word) : c.toList[a.toNat]? = some (c.cell a) := by
  have inside : a.toNat < 65536 := a.toNat_lt
  rw [Vector.getElem?_toList, Vector.getElem?_eq_getElem inside]
  rfl

/-- An instruction that the machine completes, read from the cells: a store writes one of them. -/
def followStep (c : Cells) (m : Machine) : Except Fault Progress → Cells
  | .ok .continued =>
    if c.cell m.pc = Opcode.store.word then
      match Effect.value? m (c.cell (m.pc + 1)), Effect.value? m (c.cell (m.pc + 2)) with
      | some addr, some value => c.store addr value
      | _, _ => c
    else c
  | _ => c

def followRun (config : RunConfig) (observer : Observer σ) :
    (budget steps : Nat) → Machine → σ → Cells → Cells
  | 0, _, _, _, c => c
  | budget + 1, steps, m, s, c =>
    match Machine.limitReached config steps with
    | some _ => c
    | none =>
      match m.step config observer s with
      | ⟨.ok .continued, m', s'⟩ =>
        followRun config observer budget (steps + 1) m' s' (c.followStep m (.ok .continued))
      | ⟨result, _, _⟩ => c.followStep m result

def followMove (c : Cells) (m : Machine) : Move → Cells
  | .step config observer s => c.followStep m (m.step config observer s).result
  | .run config observer s budget => c.followRun config observer budget 0 m s
  | .write addr value => c.store addr value
  | .patchNoops addrs => c.patch addrs
  | _ => c

def follow (words : List Word) (c : Cells) (m : Machine) : Operation → Cells
  | .move next => c.followMove m next
  | .restore s => overlay words s.changed
  | .resume saved =>
    match Snapshot.ofArchive saved with
    | .ok s => overlay words s.changed
    | .error _ => c
  | _ => c

def followAll (words : List Word) (c : Cells) (m : Machine) : List Operation → Cells
  | [] => c
  | operation :: operations =>
    followAll words (c.follow words m operation) (operation.perform m) operations

/-- The cells are what the machine reads, and its image is the one they began as. -/
structure Mirror (words : List Word) (c : Cells) (m : Machine) : Prop where
  image : m.memory.image = words.toArray
  read : ∀ a, m.memory.read a = c.cell a

variable {words : List Word} {c : Cells} {m : Machine}

theorem Mirror.of_memory_eq (h : Mirror words c m) {n : Machine} (same : n.memory = m.memory) :
    Mirror words c n where
  image := by rw [same, h.image]
  read a := by rw [same, h.read]

theorem Mirror.store (h : Mirror words c m) {n : Machine} {addr value : Word}
    (written : n.memory = m.memory.write addr value) : Mirror words (c.store addr value) n where
  image := by rw [written, Memory.image_write, h.image]
  read a := by
    rw [written, Memory.read_write, cell_store, h.read]
    simp only [eq_comm]

theorem mirror_ofImage (loaded : Machine.ofImage words = .ok m) :
    Mirror words (ofImage words) m := by
  obtain ⟨-, rfl⟩ := Machine.ofImage_ok loaded
  refine ⟨rfl, ?_⟩
  intro a
  rw [cell_ofImage]
  simp [Memory.ofImage, Memory.read, Memory.loaded]

theorem Mirror.loaded (h : Mirror words c m) (a : Word) :
    m.memory.loaded a = (ofImage words).cell a := by
  rw [cell_ofImage]
  simp [Memory.loaded, h.image]

theorem Mirror.restore (h : Mirror words c m) (s : Snapshot) :
    Mirror words (overlay words s.changed) (m.restore s) := by
  refine ⟨h.image, ?_⟩
  intro a
  have restored : (m.restore s).memory.read a = s.changed.getD a (m.memory.loaded a) :=
    Memory.read_replaceChanged m.memory s.changed a
  rw [restored, cell_overlay, h.loaded, cell_ofImage]

theorem Mirror.patch (h : Mirror words c m) (addrs : List Word) :
    Mirror words (c.patch addrs) (m.patchNoops addrs) := by
  induction addrs generalizing c m with
  | nil => exact h
  | cons addr addrs ih => exact ih (h.store rfl)

theorem Mirror.completed (h : Mirror words c m) {i : Instruction} {effect : Effect} {text : String}
    (decoded : m.memory.Decodes m.pc i)
    (means : Effect.meaning? (m.feed text) i.opcode i.operands = some effect) :
    Mirror words (c.followStep m (.ok effect.progress))
      ((m.feed text).apply (UInt16.ofNat i.next) effect) := by
  obtain ⟨addr, opcode, operands⟩ := i
  have number : c.cell m.pc = opcode.word := by rw [← h.read, ← decoded.opcode]
  by_cases stores : opcode = .store
  · subst stores
    obtain ⟨target, value, first, second, rfl⟩ := Effect.meaning?_store means
    have operand₁ : operands[0] = m.memory.read (m.pc + 1 + 0) := decoded.operand 0 Nat.two_pos
    have operand₂ : operands[1] = m.memory.read (m.pc + 1 + 1) := decoded.operand 1 Nat.one_lt_two
    have cell₁ : c.cell (m.pc + 1) = operands[0] := by
      rw [← h.read, operand₁, UInt16.add_zero]
    have cell₂ : c.cell (m.pc + 2) = operands[1] := by
      rw [← h.read, operand₂, UInt16.add_assoc]
      rfl
    have value₁ : Effect.value? m operands[0] = some target := first
    have value₂ : Effect.value? m operands[1] = some value := second
    simp only [Effect.progress, followStep, number, cell₁, cell₂, value₁, value₂, if_true]
    exact h.store rfl
  · have yields := Effect.yields_of_meaning? means
    have kept : c.followStep m (.ok effect.progress) = c := by
      have number : c.cell m.pc ≠ Opcode.store.word := by
        intro same
        rw [number] at same
        exact stores (by cases opcode <;> first | rfl | exact absurd same (by decide))
      cases effect.progress <;> simp [followStep, number]
    rw [kept]
    apply h.of_memory_eq
    exact Machine.memory_apply _ _ fun addr value same =>
      stores (Effect.eq_store_of_yields (same ▸ yields))

theorem Mirror.step (h : Mirror words c m) (config : RunConfig) (observer : Observer σ) (s : σ) :
    Mirror words (c.followStep m (m.step config observer s).result)
      (m.step config observer s).machine := by
  have outcome := Machine.step_outcome m config observer s
  generalize (m.step config observer s).result = result at outcome
  generalize (m.step config observer s).machine = n at outcome
  cases outcome with
  | asleep => exact h
  | undecoded => exact h
  | stopped => exact h
  | faulted => exact h.of_memory_eq rfl
  | completed text decoded supplied means =>
    exact h.completed (Memory.decodes_of_instructionAt decoded) means

theorem Mirror.run (h : Mirror words c m) (config : RunConfig) (observer : Observer σ) (s : σ)
    (budget steps : Nat) :
    Mirror words (c.followRun config observer budget steps m s)
      (Machine.runFrom config observer budget steps m s).machine := by
  induction budget generalizing c m s steps with
  | zero => exact h
  | succ budget ih =>
    have stepped := h.step config observer s
    simp only [followRun, Machine.runFrom]
    cases Machine.limitReached config steps with
    | some limit => exact h
    | none =>
      cases step : m.step config observer s with
      | mk result n s' =>
        rw [step] at stepped
        rcases result with fault | _ | _ | _
        · exact stepped
        · exact ih stepped s' (steps + 1)
        · exact stepped
        · exact stepped

theorem Mirror.move (h : Mirror words c m) (move : Move) :
    Mirror words (c.followMove m move) (move.make m).2 := by
  cases move with
  | feed text => exact h.of_memory_eq rfl
  | step config observer s => exact h.step config observer s
  | run config observer s budget => exact h.run config observer s budget 0
  | write addr value => exact h.store rfl
  | patchNoops addrs => exact h.patch addrs
  | setPc pc => exact h.of_memory_eq rfl
  | setRegister r value => exact h.of_memory_eq rfl

theorem Mirror.perform (h : Mirror words c m) (operation : Operation) :
    Mirror words (c.follow words m operation) (operation.perform m) := by
  cases operation with
  | move next => exact h.move next
  | invertBranch =>
    apply h.of_memory_eq
    simp only [Operation.perform, Machine.invertBranch?]
    cases m.branch <;> rfl
  | fork => exact h.of_memory_eq rfl
  | restore s => exact h.restore s
  | resume saved =>
    simp only [Operation.perform, follow, Machine.resume]
    cases Snapshot.ofArchive saved with
    | error e => exact h
    | ok s => exact h.restore s

theorem Mirror.performAll (h : Mirror words c m) (operations : List Operation) :
    Mirror words (c.followAll words m operations) (m.performAll operations) := by
  induction operations generalizing c m with
  | nil => exact h
  | cons operation operations ih => exact ih (h.perform operation)

theorem Mirror.changed (h : Mirror words c m) (a value : Word) :
    m.memory.changed[a]? = some value ↔
      c.cell a ≠ (ofImage words).cell a ∧ c.cell a = value := by
  rw [Memory.getElem?_changed, h.loaded, h.read]
  split <;> simp_all

theorem Mirror.extent (h : Mirror words c m) :
    IsGreatest {n | n = words.length ∨ ∃ a, c.cell a ≠ (ofImage words).cell a ∧ n = a.toNat + 1}
      m.memory.extent := by
  have greatest := m.memory.isGreatest_extent
  have size : m.memory.size = words.length := by rw [Memory.size, h.image, List.size_toArray]
  simpa only [size, h.read, h.loaded] using greatest

theorem Mirror.contents (h : Mirror words c m) (short : words.length ≤ 65536) :
    m.memory.contents.toList = c.toList.take words.length := by
  have size : m.memory.size = words.length := by rw [Memory.size, h.image, List.size_toArray]
  apply List.ext_getElem?
  intro n
  by_cases inside : n < words.length
  · obtain ⟨a, rfl⟩ : ∃ a : Word, a.toNat = n :=
      ⟨UInt16.ofNat n, UInt16.toNat_ofNat_of_lt' (Nat.lt_of_lt_of_le inside short)⟩
    rw [List.getElem?_take_of_lt inside, Array.getElem?_toList, getElem?_toList,
      Memory.getElem?_contents _ (size ▸ inside), h.read]
  · have ends : m.memory.contents.toList.length ≤ n := by
      rw [Array.length_toList, Memory.size_contents, size]
      omega
    have ends' : (c.toList.take words.length).length ≤ n := by
      rw [List.length_take]
      omega
    rw [List.getElem?_eq_none ends, List.getElem?_eq_none ends']

end Cells

/-- After any operations, memory is the flat array that followed them. -/
theorem Machine.memory_follows_cells {words : List Word} {m : Machine}
    (loaded : ofImage words = .ok m) (operations : List Operation) :
    let n := m.performAll operations
    let initial := Cells.ofImage words
    let cells := initial.followAll words m operations
    (∀ a, n.memory.read a = cells.cell a) ∧
    (∀ a value, n.memory.changed[a]? = some value ↔
      cells.cell a ≠ initial.cell a ∧ cells.cell a = value) ∧
    IsGreatest {k | k = words.length ∨ ∃ a, cells.cell a ≠ initial.cell a ∧ k = a.toNat + 1}
      n.memory.extent ∧
    n.memory.contents.toList = cells.toList.take words.length := by
  intro n initial cells
  have mirror : Cells.Mirror words cells n := (Cells.mirror_ofImage loaded).performAll operations
  have short : words.length ≤ 65536 := by
    have fits := (ofImage_ok loaded).1
    rw [Image.maxWords] at fits
    omega
  exact ⟨mirror.read, mirror.changed, mirror.extent, mirror.contents short⟩

theorem Machine.memory_follows_cells_store :
    let m : Machine := { memory := Memory.ofImage [16, 5, 3, 0] }
    let n := m.performAll [.move (.step { suspendOnInput := false } .silent ()), .move (.write 0 1)]
    ofImage [16, 5, 3, 0] = .ok m ∧ n.memory.read 5 = 3 ∧ n.memory.read 0 = 1 := by
  intro m n
  have loaded : ofImage [16, 5, 3, 0] = .ok m := rfl
  obtain ⟨read, -⟩ := memory_follows_cells loaded
    [.move (.step { suspendOnInput := false } .silent ()), .move (.write 0 1)]
  have decoded : m.memory.instructionAt m.pc = .ok ⟨0, .store, #v[5, 3]⟩ := by
    unfold Memory.instructionAt
    rw [Memory.extent_ofImage]
    rfl
  have stepped : (m.step { suspendOnInput := false } .silent ()).result = .ok .continued := by
    simp only [step, decoded, Bool.false_and, Bool.false_eq_true, if_false]
    rfl
  have followed : (Cells.ofImage [16, 5, 3, 0]).followStep m (.ok .continued) =
      (Cells.ofImage [16, 5, 3, 0]).store 5 3 := by
    have address : Effect.value? m 5 = some 5 := rfl
    have value : Effect.value? m 3 = some 3 := rfl
    have pc : m.pc = 0 := rfl
    simp [Cells.followStep, pc, Cells.cell_ofImage, Opcode.word, address, value]
  simp only [Cells.followAll, Cells.follow, Cells.followMove, stepped, followed,
    Cells.cell_store] at read
  exact ⟨loaded, read 5, read 0⟩

end WordMachine

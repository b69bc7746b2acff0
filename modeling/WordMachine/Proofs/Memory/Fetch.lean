import Mathlib.Data.List.Nodup
import WordMachine.Proofs.Effect.Kind
import WordMachine.Proofs.Memory.Overlay
import WordMachine.Proofs.Operation
import WordMachine.Proofs.Step.Outcome

/-!
Instructions that are stored into memory and then fetched. The cells of the instruction may be
stored in any order, by the caller or by store instructions. Fetching reads them back as far as
memory extends (`instructionAt_of_holds`), and a store carries the extent past the image only where
it leaves another value than zero. `stored_instruction_fetched` puts the two together.
-/

namespace WordMachine

namespace Instruction

/-- The cells that the instruction takes, each with its word. -/
def cells (i : Instruction) : List (Word × Word) :=
  i.words.mapIdx fun k w => (i.addr + UInt16.ofNat k, w)

def last (i : Instruction) : Word := i.words.getLast (List.cons_ne_nil _ _)

variable {i : Instruction}

theorem length_words (i : Instruction) : i.words.length = i.opcode.arity := by
  rw [words, List.length_cons, Vector.length_toList, Opcode.arity]

theorem mem_cells {k : Nat} (h : k < i.words.length) :
    (i.addr + UInt16.ofNat k, i.words[k]) ∈ i.cells :=
  List.mem_mapIdx.2 ⟨k, h, rfl⟩

/-- The addresses do not go past the end of memory and on from zero. -/
theorem toNat_cell (fits : i.next ≤ 65536) {k : Nat} (h : k < i.opcode.arity) :
    (i.addr + UInt16.ofNat k).toNat = i.addr.toNat + k := by
  rw [next] at fits
  rw [UInt16.toNat_add, UInt16.toNat_ofNat']
  omega

theorem map_fst_cells (i : Instruction) :
    i.cells.map Prod.fst = (List.range i.opcode.arity).map fun k => i.addr + UInt16.ofNat k := by
  apply List.ext_getElem
  · simp [cells, length_words]
  · simp [cells]

theorem nodup_cells (fits : i.next ≤ 65536) : (i.cells.map Prod.fst).Nodup := by
  rw [map_fst_cells]
  apply List.nodup_range.map_on
  intro j hj k hk same
  have positions := congrArg UInt16.toNat same
  rw [toNat_cell fits (List.mem_range.1 hj), toNat_cell fits (List.mem_range.1 hk)] at positions
  omega

theorem nodup_of_perm {cells : List (Word × Word)} (fits : i.next ≤ 65536)
    (order : cells.Perm i.cells) : (cells.map Prod.fst).Nodup :=
  (order.map Prod.fst).nodup_iff.2 (nodup_cells fits)

theorem toNat_lt_next (fits : i.next ≤ 65536) {a : Word} (h : a ∈ i.cells.map Prod.fst) :
    a.toNat < i.next := by
  rw [map_fst_cells] at h
  obtain ⟨k, inside, rfl⟩ := List.mem_map.1 h
  rw [toNat_cell fits (List.mem_range.1 inside), next]
  have := List.mem_range.1 inside
  omega

theorem last_mem_cells (i : Instruction) :
    (i.addr + UInt16.ofNat i.opcode.operandCount, i.last) ∈ i.cells := by
  have length := i.length_words
  rw [Opcode.arity] at length
  have cell := mem_cells (i := i) (k := i.opcode.operandCount) (by omega)
  have same : i.last = i.words[i.opcode.operandCount] := by
    have final := List.getLast_eq_getElem (List.cons_ne_nil i.opcode.word i.operands.toList)
    exact final.trans (getElem_congr_idx (Nat.sub_eq_of_eq_add length))
  rwa [same]

end Instruction

namespace Memory

variable {m : Memory} {i : Instruction} {cells : List (Word × Word)}

def Holds (m : Memory) (i : Instruction) : Prop :=
  ∀ cell ∈ i.cells, m.read cell.1 = cell.2

instance (m : Memory) (i : Instruction) : Decidable (m.Holds i) :=
  List.decidableBAll (fun cell : Word × Word => m.read cell.1 = cell.2) i.cells

theorem Holds.opcode (h : m.Holds i) : m.read i.addr = i.opcode.word := by
  have first := h _ (Instruction.mem_cells (i := i) (k := 0) (by simp [Instruction.words]))
  simpa [Instruction.words] using first

theorem Holds.operand (h : m.Holds i) {k : Nat} (inside : k < i.opcode.operandCount) :
    m.read (i.addr + 1 + UInt16.ofNat k) = i.operands[k] := by
  have cell := h _ (Instruction.mem_cells (i := i) (k := k + 1) (by simpa [Instruction.words]))
  have place : i.addr + 1 + UInt16.ofNat k = i.addr + UInt16.ofNat (k + 1) := by
    rw [UInt16.ofNat_add, UInt16.add_assoc, UInt16.add_comm 1]
    rfl
  simpa [Instruction.words, place] using cell

theorem instructionAt_of_holds (h : m.Holds i) :
    m.instructionAt i.addr =
      if i.next ≤ m.extent then .ok i else .error (.endOfProgram i.addr) := by
  have operands : (Vector.ofFn fun k => m.read (i.addr + 1 + UInt16.ofNat k.val)) = i.operands := by
    apply Vector.ext
    intro k inside
    rw [Vector.getElem_ofFn, h.operand inside]
  have next : i.next = i.addr.toNat + i.opcode.arity := rfl
  have arity : i.opcode.arity = i.opcode.operandCount + 1 := rfl
  simp only [instructionAt, h.opcode, Opcode.ofWord?_word, operands, ← next]
  by_cases whole : i.next ≤ m.extent
  · rw [if_neg (by omega), if_neg (by omega), if_pos whole]
  · rw [if_pos (Nat.lt_of_not_le whole), if_neg whole, ite_self]

theorem instructionAt_noop {addr : Word} (inside : addr.toNat < m.extent)
    (word : m.read addr = Opcode.noop.word) :
    m.instructionAt addr = .ok ⟨addr, .noop, #v[]⟩ := by
  have holds : m.Holds ⟨addr, .noop, #v[]⟩ := by
    intro cell here
    obtain rfl : cell = (addr + UInt16.ofNat 0, Opcode.noop.word) := List.mem_singleton.1 here
    simpa using word
  exact (instructionAt_of_holds holds).trans (if_pos inside)

def storeAll (m : Memory) (cells : List (Word × Word)) : Memory :=
  cells.foldl (fun m cell => m.write cell.1 cell.2) m

@[simp]
theorem image_storeAll (m : Memory) (cells : List (Word × Word)) :
    (m.storeAll cells).image = m.image := by
  induction cells generalizing m with
  | nil => rfl
  | cons cell cells ih => exact (ih _).trans (image_write m _ _)

theorem read_storeAll_of_notMem {a : Word} (h : a ∉ cells.map Prod.fst) (m : Memory) :
    (m.storeAll cells).read a = m.read a := by
  induction cells generalizing m with
  | nil => rfl
  | cons cell cells ih =>
    rw [List.map_cons, List.mem_cons, not_or] at h
    exact (ih h.2 _).trans ((read_write m _ _ a).trans (if_neg h.1))

theorem read_storeAll_map (m : Memory) (addrs : List Word) (value a : Word) :
    (m.storeAll (addrs.map (·, value))).read a = if a ∈ addrs then value else m.read a := by
  induction addrs generalizing m with
  | nil => rfl
  | cons addr addrs ih =>
    refine (ih _).trans ?_
    rw [read_write]
    by_cases later : a ∈ addrs <;> by_cases here : a = addr <;> simp [later, here]

theorem read_storeAll_of_mem (distinct : (cells.map Prod.fst).Nodup) {cell : Word × Word}
    (h : cell ∈ cells) (m : Memory) : (m.storeAll cells).read cell.1 = cell.2 := by
  induction cells generalizing m with
  | nil => cases h
  | cons first cells ih =>
    rw [List.map_cons, List.nodup_cons] at distinct
    rcases List.mem_cons.1 h with rfl | later
    · exact (read_storeAll_of_notMem distinct.1 _).trans ((read_write m _ _ _).trans (if_pos rfl))
    · exact ih distinct.2 later _

theorem holds_storeAll (m : Memory) (fits : i.next ≤ 65536) (order : cells.Perm i.cells) :
    (m.storeAll cells).Holds i := fun _ inside =>
  read_storeAll_of_mem (Instruction.nodup_of_perm fits order) (order.mem_iff.2 inside) m

theorem loaded_of_size_le {a : Word} (outside : m.size ≤ a.toNat) : m.loaded a = 0 := by
  rw [loaded, Array.getD_eq_getD_getElem?, Array.getElem?_eq_none outside]
  rfl

/-- Past the image only the last cell counts, and what was there behind it. -/
theorem next_le_extent_storeAll (m : Memory) (fits : i.next ≤ 65536) (order : cells.Perm i.cells) :
    i.next ≤ (m.storeAll cells).extent ↔
      i.next ≤ m.size ∨ i.last ≠ 0 ∨ i.next < m.extent := by
  have loaded (a : Word) : (m.storeAll cells).loaded a = m.loaded a := by simp [Memory.loaded]
  have size : (m.storeAll cells).size = m.size := by simp [Memory.size]
  rw [le_extent_iff, ← Nat.succ_le_iff, le_extent_iff, size]
  rcases Nat.lt_or_ge m.size i.next with outside | inside
  · let place := i.addr + UInt16.ofNat i.opcode.operandCount
    have lastPlace : place.toNat + 1 = i.next :=
      congrArg Nat.succ (Instruction.toNat_cell fits (Nat.lt_succ_self _))
    have lastRead : (m.storeAll cells).read place = i.last :=
      holds_storeAll m fits order _ i.last_mem_cells
    have lastLoaded : m.loaded place = 0 := loaded_of_size_le (by omega)
    have behind {a : Word} (h : i.next ≤ a.toNat) : (m.storeAll cells).read a = m.read a := by
      apply read_storeAll_of_notMem
      intro inside
      have := Instruction.toNat_lt_next fits ((order.map Prod.fst).mem_iff.1 inside)
      omega
    constructor
    · rintro (inside | ⟨a, differs, below⟩)
      · exact .inl inside
      rw [loaded] at differs
      rcases Nat.lt_or_ge a.toNat i.next with here | beyond
      · obtain rfl : place = a := UInt16.toNat_inj.1 (by omega)
        rw [lastRead, lastLoaded] at differs
        exact .inr (.inl differs)
      · rw [behind beyond] at differs
        exact .inr (.inr (.inr ⟨a, differs, Nat.succ_le_succ beyond⟩))
    · rintro (inside | nonzero | inside | ⟨a, differs, beyond⟩)
      · exact .inl inside
      · refine .inr ⟨place, ?_, Nat.le_of_eq lastPlace.symm⟩
        rwa [lastRead, loaded, lastLoaded]
      · exact .inl (Nat.le_of_succ_le inside)
      · refine .inr ⟨a, ?_, Nat.le_of_succ_le beyond⟩
        rwa [behind (Nat.le_of_succ_le_succ beyond), loaded]
  · exact iff_of_true (.inl inside) (.inl inside)

end Memory

namespace Machine

/-- One machine becomes the other by storing these values at these addresses: the caller writes
them, or steps complete store instructions. Anything that leaves memory alone may come between. -/
inductive Stores : Machine → List (Word × Word) → Machine → Prop where
  | done (m : Machine) : Stores m [] m
  | write {m n : Machine} {addr value : Word} {cells : List (Word × Word)}
    (rest : Stores (m.write addr value) cells n) : Stores m ((addr, value) :: cells) n
  | step {m n : Machine} {addr value : Word} {cells : List (Word × Word)} {σ : Type}
    {config : RunConfig} {observer : Observer σ} {s : σ} {i : Instruction}
    (decoded : m.memory.instructionAt m.pc = .ok i)
    (means : Effect.meaning? m i.opcode i.operands = some (.store addr value))
    (completes : (m.step config observer s).result = .ok .continued)
    (rest : Stores (m.step config observer s).machine cells n) : Stores m ((addr, value) :: cells) n
  | keep {m n : Machine} {cells : List (Word × Word)} (operation : Operation)
    (same : (operation.perform m).memory = m.memory) (rest : Stores (operation.perform m) cells n) :
    Stores m cells n

theorem memory_step_store {m : Machine} {config : RunConfig} {observer : Observer σ} {s : σ}
    {i : Instruction} {addr value : Word} (decoded : m.memory.instructionAt m.pc = .ok i)
    (means : Effect.meaning? m i.opcode i.operands = some (.store addr value))
    (completes : (m.step config observer s).result = .ok .continued) :
    (m.step config observer s).machine.memory = m.memory.write addr value := by
  obtain ⟨j, effect, text, decoded', supplied, means', -, after⟩ :=
    completed_of_step completes (by simp)
  cases decoded.symm.trans decoded'
  rw [after]
  have stores : i.opcode = .store := Effect.eq_store_of_yields (Effect.yields_of_meaning? means)
  rcases supplied with rfl | ⟨asks, -⟩
  · rw [feed_empty] at means' ⊢
    cases means.symm.trans means'
    rfl
  · rw [stores] at asks
    cases asks

theorem Stores.memory {m n : Machine} {cells : List (Word × Word)} (h : m.Stores cells n) :
    n.memory = m.memory.storeAll cells := by
  induction h with
  | done m => rfl
  | write rest ih => exact ih
  | step decoded means completes rest ih =>
    rw [ih, memory_step_store decoded means completes]
    rfl
  | keep operation same rest ih => rw [ih, same]

/-- An instruction that is stored whole is fetched again if it lies in the image, does not end in a
zero, or lies before another stored value; else memory ends before it does. -/
theorem stored_instruction_fetched {m n : Machine} {i : Instruction} {cells : List (Word × Word)}
    (fits : i.next ≤ 65536) (stored : m.Stores cells n) (order : cells.Perm i.cells) :
    n.memory.instructionAt i.addr =
      if i.next ≤ m.memory.size ∨ i.last ≠ 0 ∨ i.next < m.memory.extent then .ok i
      else .error (.endOfProgram i.addr) := by
  rw [stored.memory, Memory.instructionAt_of_holds (m.memory.holds_storeAll fits order)]
  simp only [m.memory.next_le_extent_storeAll fits order]

/-- The opcode is written by the caller, the operand by the program. -/
theorem stored_instruction_fetched_push :
    let config : RunConfig := { suspendOnInput := false }
    let m : Machine := { memory := Memory.ofImage [16, 41, 5] }
    let i : Instruction := ⟨40, .push, #v[5]⟩
    let n := ((m.write 40 2).step config .silent ()).machine
    m.Stores i.cells n ∧ n.memory.instructionAt 40 = .ok i := by
  intro config m i n
  have decoded : (m.write 40 2).memory.instructionAt (m.write 40 2).pc =
      .ok ⟨0, .store, #v[41, 5]⟩ := by
    have holds : (m.write 40 2).memory.Holds ⟨0, .store, #v[41, 5]⟩ := by decide
    exact (Memory.instructionAt_of_holds holds).trans
      (if_pos ((m.write 40 2).memory.le_extent_iff.2 (.inl (by decide))))
  have completes : ((m.write 40 2).step config .silent ()).result = .ok .continued := by
    simp only [step, decoded, config, Bool.false_and, Bool.false_eq_true, if_false]
    rfl
  have stored : m.Stores i.cells n := .write (.step decoded rfl completes (.done n))
  refine ⟨stored, ?_⟩
  have fetched := stored_instruction_fetched (by decide) stored (.refl _)
  rw [if_pos (.inr (.inl (by decide)))] at fetched
  exact fetched

/-- The last word is a zero past the image, and memory ends before it. -/
theorem stored_zero_ends_program :
    let m : Machine := { memory := Memory.ofImage [21] }
    let i : Instruction := ⟨40, .push, #v[0]⟩
    let n := (m.write 40 2).write 41 0
    ofImage [21] = .ok m ∧ i.next ≤ 65536 ∧ m.Stores i.cells n ∧
      n.memory.instructionAt 40 = .error (.endOfProgram 40) := by
  intro m i n
  have fits : i.next ≤ 65536 := by decide
  have holds : n.memory.Holds i := by decide
  have ends : ¬ i.next ≤ n.memory.extent := by
    have stored : n.memory = m.memory.storeAll i.cells := rfl
    have extent : m.memory.extent = 1 := Memory.extent_ofImage _
    rw [stored, m.memory.next_le_extent_storeAll fits (.refl _), extent]
    decide
  exact ⟨rfl, fits, .write (.write (.done n)),
    (Memory.instructionAt_of_holds holds).trans (if_neg ends)⟩

end Machine

end WordMachine

import WordMachine.Proofs.Step.Advance

/-!
A sweep shows each cell from its start to the extent of memory once and in order. Its entries lie
end to end, because each begins where the one before it ends and none reaches past the extent
(`Yields.tiles`); so the sweep ends, and its first entries are those of the sweep as a whole
(`Yields.take_eq`). `sweep_shows_every_cell` puts this together for the memory of a machine.
-/

namespace WordMachine

/-- The words in the cells from the one position up to the other. -/
def Memory.between (m : Memory) (first last : Nat) : List Word :=
  (List.range' first (last - first)).map fun a => m.read (UInt16.ofNat a)

theorem Memory.between_append (m : Memory) {first middle last : Nat} (h : first ≤ middle)
    (h' : middle ≤ last) :
    m.between first middle ++ m.between middle last = m.between first last := by
  have joined : first + (middle - first) = middle := by omega
  have split : last - first = (middle - first) + (last - middle) := by omega
  have row : List.range' first (last - first) =
      List.range' first (middle - first) ++ List.range' middle (last - middle) := by
    rw [split, ← List.range'_append_1, joined]
  rw [between, between, between, row, List.map_append]

namespace Listing

/-- The words that the entry stands for, as memory holds them. -/
def words : Listing → List Word
  | instruction i => i.words
  | data _ word => [word]

/-- The position behind the entry. -/
def next : Listing → Nat
  | instruction i => i.next
  | data addr _ => addr.toNat + 1

/-- The entries lie end to end, the first of them at one position and the last one up to another. -/
def Tiles : Nat → List Listing → Nat → Prop
  | first, [], last => first = last
  | first, entry :: entries, last => entry.addr.toNat = first ∧ Tiles entry.next entries last

theorem addr_lt_next (entry : Listing) : entry.addr.toNat < entry.next := by
  cases entry with
  | instruction i =>
    have next : i.next = i.addr.toNat + (i.opcode.operandCount + 1) := rfl
    simp only [Listing.addr, Listing.next, next]
    omega
  | data addr word => exact Nat.lt_succ_self _

/-- An entry takes at least one cell. -/
theorem Tiles.length_le {entries : List Listing} {first last : Nat} (h : Tiles first entries last) :
    first + entries.length ≤ last := by
  induction entries generalizing first with
  | nil => exact Nat.le_of_eq h
  | cons entry entries ih =>
    obtain ⟨place, rest⟩ := h
    have forward := entry.addr_lt_next
    have later := ih rest
    rw [List.length_cons]
    omega

/-- An entry that memory has at a position: the instruction that is decoded there, or else the one
word. -/
structure At (m : Memory) (position : Nat) (entry : Listing) : Prop where
  place : entry.addr.toNat = position
  inside : entry.next ≤ m.extent
  decoded : ∀ i, entry = instruction i ↔ m.instructionAt entry.addr = .ok i
  words : entry.words = m.between position entry.next

end Listing

theorem Memory.Decodes.words {m : Memory} {i : Instruction} (h : m.Decodes i.addr i) :
    i.words = m.between i.addr.toNat i.next := by
  have next : i.next = i.addr.toNat + (i.opcode.operandCount + 1) := rfl
  have length : i.next - i.addr.toNat = i.opcode.operandCount + 1 := by omega
  rw [Memory.between, length, List.range'_succ, List.map_cons, UInt16.ofNat_toNat, ← h.opcode,
    Instruction.words]
  congr 1
  apply List.ext_getElem
  · simp
  · intro k operand inside
    rw [Vector.length_toList] at operand
    rw [Vector.getElem_toList, h.operand k operand]
    simp [UInt16.ofNat_add]

namespace Sweep

variable {s t : Sweep} {entry : Listing} {entries : List Listing}

/-- The sweep gives these entries and then ends. -/
inductive Yields : Sweep → List Listing → Prop where
  | done {s : Sweep} : s.next? = none → Yields s []
  | entry {s t : Sweep} {entry : Listing} {entries : List Listing} :
    s.next? = some (entry, t) → Yields t entries → Yields s (entry :: entries)

theorem next?_eq_none_iff : s.next? = none ↔ s.memory.extent ≤ s.cursor := by
  unfold next?
  split
  · rename_i ends
    simp [ends]
  · rename_i inside
    dsimp only
    split <;> simp [inside]

theorem next?_eq_some (bounded : s.memory.extent ≤ 65536) (h : s.next? = some (entry, t)) :
    entry.At s.memory s.cursor ∧ t = { s with cursor := entry.next } := by
  unfold next? at h
  split at h
  · cases h
  · rename_i inside
    have place : (UInt16.ofNat s.cursor).toNat = s.cursor :=
      UInt16.toNat_ofNat_of_lt' (Nat.lt_of_lt_of_le (Nat.lt_of_not_le inside) bounded)
    dsimp only at h
    split at h
    · rename_i i decoded
      cases h
      have reads := Memory.decodes_of_instructionAt decoded
      have here : i.addr.toNat = s.cursor := by rw [reads.place, place]
      refine ⟨⟨here, reads.inside, fun j => ?_, ?_⟩, rfl⟩
      · simp only [Listing.addr, reads.place, decoded, Listing.instruction.injEq, Except.ok.injEq]
      · rw [← reads.place] at reads
        rw [← here]
        exact reads.words
    · rename_i fault undecoded
      cases h
      refine ⟨⟨place, ?_, fun j => ?_, ?_⟩, ?_⟩
      · simp only [Listing.next, place]
        omega
      · simp [Listing.addr, undecoded]
      · simp [Listing.words, Listing.next, Memory.between, place]
      · simp only [Listing.next, place]

/-- The induction is on the cells that are left: an entry takes at least one of them. -/
theorem exists_yields (bounded : s.memory.extent ≤ 65536) : ∃ entries, s.Yields entries := by
  generalize left : s.memory.extent - s.cursor = cells
  induction cells using Nat.strongRecOn generalizing s with
  | ind cells ih =>
    cases next : s.next? with
    | none => exact ⟨[], .done next⟩
    | some found =>
      obtain ⟨entry, t⟩ := found
      obtain ⟨here, rfl⟩ := next?_eq_some bounded next
      have forward := entry.addr_lt_next
      have place := here.place
      have inside : ¬ s.memory.extent ≤ s.cursor := by
        rw [← next?_eq_none_iff, next]
        nofun
      let t : Sweep := { s with cursor := entry.next }
      have fewer : t.memory.extent - t.cursor < cells := by
        simp only [t]
        omega
      obtain ⟨entries, rest⟩ := ih _ fewer (s := t) bounded rfl
      exact ⟨entry :: entries, .entry next rest⟩

theorem Yields.tiles (bounded : s.memory.extent ≤ 65536) (inside : s.cursor ≤ s.memory.extent)
    (h : s.Yields entries) : Listing.Tiles s.cursor entries s.memory.extent := by
  induction h with
  | done ends => exact Nat.le_antisymm inside (next?_eq_none_iff.1 ends)
  | entry next _ ih =>
    obtain ⟨here, rfl⟩ := next?_eq_some bounded next
    exact ⟨here.place, ih bounded here.inside⟩

theorem Yields.decoded (bounded : s.memory.extent ≤ 65536) (h : s.Yields entries) :
    ∀ entry ∈ entries, ∀ i,
      entry = .instruction i ↔ s.memory.instructionAt entry.addr = .ok i := by
  induction h with
  | done => simp
  | entry next _ ih =>
    obtain ⟨here, rfl⟩ := next?_eq_some bounded next
    rw [List.forall_mem_cons]
    exact ⟨here.decoded, ih bounded⟩

theorem Yields.words (bounded : s.memory.extent ≤ 65536) (h : s.Yields entries) :
    entries.flatMap Listing.words = s.memory.between s.cursor s.memory.extent := by
  induction h with
  | done ends =>
    have past := next?_eq_none_iff.1 ends
    simp [Memory.between, Nat.sub_eq_zero_of_le past]
  | @entry s _ entry _ next _ ih =>
    obtain ⟨here, rfl⟩ := next?_eq_some bounded next
    have forward := entry.addr_lt_next
    rw [here.place] at forward
    rw [List.flatMap_cons, ih bounded, here.words,
      s.memory.between_append (Nat.le_of_lt forward) here.inside]

theorem takeOnto_eq (taken : Array Listing) (n : Nat) (h : s.Yields entries) :
    (takeOnto taken n s).toList = taken.toList ++ entries.take n := by
  induction n generalizing s taken entries with
  | zero => simp [takeOnto]
  | succ n ih =>
    cases h with
    | done ends => simp [takeOnto, ends]
    | entry next rest =>
      simp only [takeOnto, next, List.take_succ_cons]
      rw [ih _ rest]
      simp

theorem Yields.take_eq (h : s.Yields entries) (n : Nat) : s.take n = entries.take n := by
  rw [take, takeOnto_eq _ n h]
  rfl

/-- A sweep of all entries takes them all, since there are no more than cells. -/
theorem yields_toList (bounded : s.memory.extent ≤ 65536) : s.Yields s.toList := by
  obtain ⟨entries, yields⟩ := exists_yields bounded
  have few : entries.length ≤ s.memory.extent := by
    rcases Nat.le_total s.memory.extent s.cursor with past | inside
    · cases yields with
      | done => exact Nat.zero_le _
      | entry next =>
        rw [next?_eq_none_iff.2 past] at next
        cases next
    · have := (yields.tiles bounded inside).length_le
      omega
  rw [toList, yields.take_eq, List.take_of_length_le few]
  exact yields

theorem take_eq_take_toList (bounded : s.memory.extent ≤ 65536) (n : Nat) :
    s.take n = s.toList.take n := (yields_toList bounded).take_eq n

end Sweep

namespace Machine

/-- The sweep through a machine's memory ends, and its entries tile the cells from the start to the
extent; an entry is an instruction just where one is decoded; and their words, one entry after the
other, are those of the cells. -/
theorem sweep_shows_every_cell {m : Machine} (reached : m.Reachable) (start : Word) :
    let entries := (m.memory.sweep start).toList
    (m.memory.sweep start).Yields entries ∧
    (m.memory.extent ≤ start.toNat → entries = []) ∧
    (start.toNat < m.memory.extent →
      entries ≠ [] ∧ Listing.Tiles start.toNat entries m.memory.extent) ∧
    (∀ entry ∈ entries, ∀ i,
      entry = .instruction i ↔ m.memory.instructionAt entry.addr = .ok i) ∧
    entries.flatMap Listing.words = m.memory.between start.toNat m.memory.extent := by
  intro entries
  have bounded : (m.memory.sweep start).memory.extent ≤ 65536 := reached.extent_le
  have yields : (m.memory.sweep start).Yields entries := Sweep.yields_toList bounded
  refine ⟨yields, fun past => ?_, fun inside => ?_, yields.decoded bounded, yields.words bounded⟩
  · have ends : (m.memory.sweep start).next? = none := Sweep.next?_eq_none_iff.2 past
    generalize entries = found at yields
    cases yields with
    | done => rfl
    | entry next =>
      rw [ends] at next
      cases next
  · have tiles : Listing.Tiles start.toNat entries m.memory.extent :=
      yields.tiles bounded (Nat.le_of_lt inside)
    refine ⟨?_, tiles⟩
    intro empty
    rw [empty] at tiles
    exact Nat.ne_of_lt inside tiles

/-- Memory extends to the end of the address space, where a word that would be an `add` is data, for
there is no room for its operands. The cell before it was never written and shows a `halt`. -/
theorem sweep_shows_every_cell_last :
    let m := ({ memory := Memory.ofImage [19, 65] } : Machine).write 65535 9
    let entries := (m.memory.sweep 65534).toList
    m.Reachable ∧ m.memory.extent = 65536 ∧ entries.flatMap Listing.words = [0, 9] ∧
      Listing.Tiles 65534 entries 65536 ∧ entries ≠ [] := by
  intro m entries
  have reached : m.Reachable :=
    .perform (.move (.write 65535 9)) (@Reachable.load [19, 65] _ rfl)
  have differs : m.memory.read 65535 ≠ m.memory.loaded 65535 := by decide
  have above : 65536 ≤ m.memory.extent := m.memory.isGreatest_extent.2 (.inr ⟨_, differs, rfl⟩)
  have extent : m.memory.extent = 65536 := Nat.le_antisymm reached.extent_le above
  obtain ⟨-, -, tiles, -, words⟩ := sweep_shows_every_cell reached 65534
  rw [extent] at tiles words
  obtain ⟨nonempty, tiles⟩ := tiles (by decide)
  exact ⟨reached, extent, words, tiles, nonempty⟩

end Machine

end WordMachine

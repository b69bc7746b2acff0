import WordMachine.Proofs.Memory.Fetch
import WordMachine.Proofs.Memory.Sweep

/-!
Sweeps through memory that is larger than the address space. A sweep goes on word by word behind the
last address, where each position shows what its low 16 bits address; so it goes forward there as
well, except where it decodes an instruction, whose address is back at the beginning
(`Passes.advances`). A memory has no such place in any sweep exactly if all of its sweeps end within
their cells (`all_sweeps_end_iff`).
-/

namespace WordMachine

namespace Sweep

variable {s t u : Sweep} {entry : Listing} {entries : List Listing}

/-- The sweep ends, with no more entries than there are cells ahead. -/
def Ends (s : Sweep) : Prop :=
  ∃ entries, s.Yields entries ∧ entries.length ≤ s.memory.extent - s.cursor

/-- The sweep comes to this position of it. -/
inductive Reaches : Sweep → Sweep → Prop where
  | here {s : Sweep} : Reaches s s
  | next {s t u : Sweep} {entry : Listing} :
    s.next? = some (entry, t) → Reaches t u → Reaches s u

/-- An instruction is decoded behind the last address. -/
structure TurnsBack (s : Sweep) : Prop where
  behind : 65536 ≤ s.cursor
  inside : s.cursor < s.memory.extent
  decoded : ∃ i, s.memory.instructionAt (UInt16.ofNat s.cursor) = .ok i

/-- Somewhere the sweep turns back. -/
def Overruns (s : Sweep) : Prop := ∃ t, s.Reaches t ∧ t.TurnsBack

/-- What an entry does to the position: an instruction is taken by its address and goes on behind
its operands, and a word by itself goes on behind itself. -/
structure Passes (s t : Sweep) : Prop where
  memory : t.memory = s.memory
  inside : s.cursor < s.memory.extent
  cursor : (∃ i, s.memory.instructionAt (UInt16.ofNat s.cursor) = .ok i ∧
      s.cursor % 65536 < t.cursor ∧ t.cursor ≤ s.cursor % 65536 + 4) ∨
    (∀ i, s.memory.instructionAt (UInt16.ofNat s.cursor) ≠ .ok i) ∧ t.cursor = s.cursor + 1

theorem passes_of_next? (h : s.next? = some (entry, t)) : s.Passes t := by
  unfold next? at h
  split at h
  · cases h
  · rename_i inside
    dsimp only at h
    split at h
    · rename_i i decoded
      cases h
      have place : i.addr.toNat = s.cursor % 65536 := by
        rw [(Memory.decodes_of_instructionAt decoded).place, UInt16.toNat_ofNat']
      have few := i.opcode.operandCount_le
      refine ⟨rfl, Nat.lt_of_not_le inside, .inl ⟨i, decoded, ?_⟩⟩
      simp only [Instruction.next, place, Opcode.arity]
      omega
    · rename_i fault undecoded
      cases h
      exact ⟨rfl, Nat.lt_of_not_le inside, .inr ⟨by simp [undecoded], rfl⟩⟩

theorem Passes.advances (passes : s.Passes t) (ahead : ¬ s.TurnsBack) : s.cursor < t.cursor := by
  obtain ⟨-, inside, ⟨i, decoded, forward, -⟩ | ⟨-, word⟩⟩ := passes
  · have within : ¬ 65536 ≤ s.cursor := fun behind => ahead ⟨behind, inside, i, decoded⟩
    omega
  · omega

theorem Passes.cursor_le (passes : s.Passes t) : t.cursor ≤ s.cursor + 4 := by
  obtain ⟨-, -, ⟨i, -, -, near⟩ | ⟨-, word⟩⟩ := passes <;> omega

theorem TurnsBack.cursor_le (back : s.TurnsBack) (passes : s.Passes t) :
    t.cursor ≤ s.cursor % 65536 + 4 := by
  obtain ⟨-, -, i, decoded⟩ := back
  obtain ⟨-, -, ⟨-, -, -, near⟩ | ⟨undecoded, -⟩⟩ := passes
  · exact near
  · exact absurd decoded (undecoded i)

/-- The induction is on the cells that are left. -/
theorem ends_of_not_overruns (ahead : ¬ s.Overruns) : s.Ends := by
  generalize left : s.memory.extent - s.cursor = cells
  induction cells using Nat.strongRecOn generalizing s with
  | ind cells ih =>
    cases next : s.next? with
    | none => exact ⟨[], .done next, Nat.zero_le _⟩
    | some found =>
      obtain ⟨entry, t⟩ := found
      have passes := passes_of_next? next
      have forward := passes.advances fun back => ahead ⟨s, .here, back⟩
      have ahead' : ¬ t.Overruns := fun ⟨u, way, back⟩ => ahead ⟨u, .next next way, back⟩
      have inside := passes.inside
      have fewer : t.memory.extent - t.cursor < cells := by
        rw [passes.memory]
        omega
      obtain ⟨entries, rest, few⟩ := ih _ fewer ahead' rfl
      refine ⟨entry :: entries, .entry next rest, ?_⟩
      rw [List.length_cons]
      omega

theorem Reaches.memory (way : s.Reaches t) : t.memory = s.memory := by
  induction way with
  | here => rfl
  | next step _ ih => exact ih.trans (passes_of_next? step).memory

/-- A sweep that ends has the entries from any of its positions among its own. -/
theorem Reaches.yields (way : s.Reaches t) (yields : s.Yields entries) :
    ∃ rest, t.Yields rest ∧ rest.length ≤ entries.length := by
  induction way generalizing entries with
  | here => exact ⟨entries, yields, Nat.le_refl _⟩
  | next step _ ih =>
    cases yields with
    | done ends =>
      rw [ends] at step
      cases step
    | entry step' later =>
      cases step.symm.trans step'
      obtain ⟨rest, yields, few⟩ := ih later
      exact ⟨rest, yields, Nat.le_succ_of_le few⟩

/-- A sweep does not leave the address space but from one of its last four addresses. -/
theorem Reaches.crossing (way : s.Reaches t) (before : s.cursor < 65536)
    (behind : 65536 ≤ t.cursor) :
    ∃ p : Sweep, p.memory = s.memory ∧ 65532 ≤ p.cursor ∧ p.cursor < 65536 ∧ p.Reaches t := by
  induction way with
  | here => omega
  | @next s u t entry step rest ih =>
    have passes := passes_of_next? step
    rcases Nat.lt_or_ge u.cursor 65536 with again | crossed
    · obtain ⟨p, memory, near⟩ := ih again behind
      exact ⟨p, memory.trans passes.memory, near⟩
    · have close := passes.cursor_le
      exact ⟨s, rfl, by omega, before, .next step rest⟩

/-- The entries that it takes at least to come to the end, where each stands for up to four cells of
the address space but only for one cell behind it. -/
theorem Yields.le_length (large : 65536 ≤ s.memory.extent) (yields : s.Yields entries) :
    (if s.cursor < 65536 then s.memory.extent - 65539 + (65536 - s.cursor) / 4
      else s.memory.extent - s.cursor) ≤ entries.length := by
  induction yields with
  | done ends =>
    have past := next?_eq_none_iff.1 ends
    rw [if_neg (by omega)]
    omega
  | @entry s t entry entries step _ ih =>
    obtain ⟨memory, inside, moves⟩ := passes_of_next? step
    rw [memory] at ih
    have ih := ih large
    rw [List.length_cons]
    obtain ⟨i, -, forward, near⟩ | ⟨-, word⟩ := moves <;> split at ih <;> split <;> omega

/-- A sweep which turns back at a position that it cannot get round never ends. -/
theorem not_yields_of_turnsBack (back : t.TurnsBack) (late : 65539 ≤ t.cursor)
    (memory : s.memory = t.memory) (before : s.cursor ≤ t.cursor) : ¬ s.Yields entries := by
  intro yields
  induction yields with
  | done ends =>
    have past := next?_eq_none_iff.1 ends
    have inside := back.inside
    rw [memory] at past
    omega
  | @entry s u entry entries step _ ih =>
    have passes := passes_of_next? step
    apply ih (passes.memory.trans memory)
    rcases Nat.lt_or_eq_of_le before with earlier | here
    -- An entry that begins before 65536 ends at 65539 or before, so none leads past the position.
    · obtain ⟨-, -, ⟨i, -, -, near⟩ | ⟨-, word⟩⟩ := passes <;> omega
    · obtain rfl : s = t := by
        cases s
        cases t
        cases memory
        cases here
        rfl
      have short := back.cursor_le passes
      omega

/-- A sweep that is about to leave the address space and turns back soon after has to go through it
once more, for which its cells are too few. -/
theorem not_ends_of_turnsBack (way : s.Reaches t) (back : t.TurnsBack) (near : 65532 ≤ s.cursor)
    (early : t.cursor < 65539) : ¬ s.Ends := by
  rintro ⟨entries, yields, few⟩
  have inside := back.inside
  have behind := back.behind
  obtain ⟨rest, later, fewer⟩ := way.yields yields
  cases later with
  | done ends =>
    have past := next?_eq_none_iff.1 ends
    omega
  | @entry _ u entry rest step again =>
    have passes := passes_of_next? step
    have short := back.cursor_le passes
    have many := again.le_length (by rw [passes.memory]; omega)
    rw [passes.memory, if_pos (by omega)] at many
    rw [← way.memory] at few
    rw [List.length_cons] at fewer
    omega

theorem sweep_of_lt {m : Memory} (memory : s.memory = m) (inside : s.cursor < 65536) :
    m.sweep (UInt16.ofNat s.cursor) = s := by
  have place := UInt16.toNat_ofNat_of_lt' inside
  obtain ⟨_, cursor⟩ := s
  cases memory
  exact congrArg _ place

/-- Where some sweep turns back, there is one that does not end within its cells: it never ends, or
on its way back it takes too many entries. -/
theorem exists_not_ends {m : Memory} {start : Word} (overruns : (m.sweep start).Overruns) :
    ∃ first, ¬ (m.sweep first).Ends := by
  obtain ⟨t, way, back⟩ := overruns
  have start_lt : (m.sweep start).cursor < 65536 := start.toNat_lt
  rcases Nat.lt_or_ge t.cursor 65539 with early | late
  · obtain ⟨p, shared, near, before, onward⟩ := way.crossing start_lt back.behind
    have shared : p.memory = m := shared
    refine ⟨UInt16.ofNat p.cursor, ?_⟩
    rw [sweep_of_lt shared before]
    exact not_ends_of_turnsBack onward back near early
  · refine ⟨start, fun ⟨entries, yields, _⟩ => ?_⟩
    exact not_yields_of_turnsBack back late way.memory.symm (by omega) yields

theorem not_overruns_of_extent_le {m : Memory} (bounded : m.extent ≤ 65536) (start : Word) :
    ¬ (m.sweep start).Overruns := by
  rintro ⟨t, way, back⟩
  have memory : t.memory = m := way.memory
  have inside := back.inside
  have behind := back.behind
  rw [memory] at inside
  omega

end Sweep

namespace Memory

/-- A sweep ends within its cells unless it turns back, and all sweeps of a memory do so exactly if
none of them turns back, as in every memory that fits the address space. -/
theorem all_sweeps_end_iff (m : Memory) :
    ((∀ start, (m.sweep start).Ends) ↔ ∀ start, ¬ (m.sweep start).Overruns) ∧
    (∀ start, ¬ (m.sweep start).Overruns → (m.sweep start).Ends) ∧
    (m.extent ≤ 65536 → ∀ start, ¬ (m.sweep start).Overruns) := by
  refine ⟨⟨fun ends start overruns => ?_, fun ahead start => ?_⟩, fun start => ?_, ?_⟩
  · obtain ⟨first, never⟩ := Sweep.exists_not_ends overruns
    exact never (ends first)
  · exact Sweep.ends_of_not_overruns (ahead start)
  · exact Sweep.ends_of_not_overruns
  · exact Sweep.not_overruns_of_extent_le

/-- In a memory of `noop` that is four words too large for the address space no sweep ends. -/
theorem noop_sweeps_never_end :
    let m := Memory.ofImage (List.replicate 65540 Opcode.noop.word)
    ∀ start entries, ¬ (m.sweep start).Yields entries := by
  intro m start entries
  have extent : m.extent = 65540 := by rw [extent_ofImage, List.length_replicate]
  have decoded (a : Word) : m.instructionAt a = .ok ⟨a, .noop, #v[]⟩ := by
    have bound : a.toNat < 65540 := Nat.lt_trans a.toNat_lt (by decide)
    apply instructionAt_noop
    · rwa [extent]
    · rw [read_ofImage, List.getD_eq_getElem?_getD, List.getElem?_replicate, if_pos bound]
      rfl
  have back : Sweep.TurnsBack ⟨m, 65539⟩ := by
    refine ⟨by decide, ?_, _, decoded _⟩
    rw [extent]
    decide
  have before : (m.sweep start).cursor ≤ 65539 :=
    Nat.le_of_lt (Nat.lt_trans start.toNat_lt (by decide))
  exact Sweep.not_yields_of_turnsBack back (by decide) rfl before

end Memory

end WordMachine

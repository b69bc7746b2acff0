import Mathlib.Order.Bounds.Defs
import WordMachine.Memory

/-!
Laws of memory as an image under its differences: what a replaced difference reads as, how far
memory extends, and what its contents are. Each is said through `read`, so that the difference
itself need not be opened again.
-/

namespace WordMachine.Memory

@[simp]
theorem loaded_replaceChanged (m : Memory) (values : Changes) (a : Word) :
    (m.replaceChanged values).loaded a = m.loaded a := rfl

/-- Values that are the image's own are dropped, which no read can tell. -/
theorem read_replaceChanged (m : Memory) (values : Changes) (a : Word) :
    (m.replaceChanged values).read a = values.getD a (m.loaded a) := by
  rw [read, loaded_replaceChanged, Std.ExtTreeMap.getD_eq_getD_getElem?,
    Std.ExtTreeMap.getD_eq_getD_getElem?, replaceChanged, Std.ExtTreeMap.getElem?_filter']
  cases values[a]? with
  | none => rfl
  | some value => by_cases same : value = m.loaded a <;> simp [Option.filter, same]

/-- The difference of one memory makes another one over the same image equal to it. -/
theorem replaceChanged_changed {m n : Memory} (h : m.image = n.image) :
    n.replaceChanged m.changed = m := by
  have image : (n.replaceChanged m.changed).image = m.image := h.symm
  apply ext_read image
  intro a
  have same : n.loaded a = m.loaded a := by simp [loaded, h]
  rw [read_replaceChanged, same, read]

theorem mem_changed_iff (m : Memory) (a : Word) : a ∈ m.changed ↔ m.read a ≠ m.loaded a := by
  rw [← Std.ExtTreeMap.isSome_getElem?_iff_mem, getElem?_changed]
  split <;> simp_all

/-- The extent is the size of the image, or one past the last cell that differs from it if that is
more. -/
theorem isGreatest_extent (m : Memory) :
    IsGreatest {n | n = m.size ∨ ∃ a, m.read a ≠ m.loaded a ∧ n = a.toNat + 1} m.extent := by
  unfold extent
  cases last : m.changed.maxKey? with
  | none =>
    have empty : m.changed = ∅ := Std.ExtTreeMap.maxKey?_eq_none_iff.1 last
    refine ⟨.inl rfl, ?_⟩
    rintro n (rfl | ⟨a, differs, rfl⟩)
    · exact Nat.le_refl _
    · rw [← mem_changed_iff, empty] at differs
      simp at differs
  | some top =>
    obtain ⟨differs, highest⟩ := Std.ExtTreeMap.maxKey?_eq_some_iff_mem_and_forall.1 last
    rw [mem_changed_iff] at differs
    constructor
    · rcases Nat.le_total m.size (top.toNat + 1) with inside | outside
      · exact .inr ⟨top, differs, Nat.max_eq_right inside⟩
      · exact .inl (Nat.max_eq_left outside)
    · rintro n (rfl | ⟨a, differs', rfl⟩)
      · exact Nat.le_max_left _ _
      · have below := highest a ((mem_changed_iff m a).2 differs')
        rw [Std.LawfulOrderOrd.isLE_compare, UInt16.le_iff_toNat_le] at below
        simp only
        omega

theorem le_extent_iff (m : Memory) {n : Nat} :
    n ≤ m.extent ↔ n ≤ m.size ∨ ∃ a, m.read a ≠ m.loaded a ∧ n ≤ a.toNat + 1 := by
  constructor
  · intro below
    rcases m.isGreatest_extent.1 with same | ⟨a, differs, same⟩
    · exact .inl (same ▸ below)
    · exact .inr ⟨a, differs, same ▸ below⟩
  · rintro (inside | ⟨a, differs, below⟩)
    · exact Nat.le_trans inside (m.isGreatest_extent.2 (.inl rfl))
    · exact Nat.le_trans below (m.isGreatest_extent.2 (.inr ⟨a, differs, rfl⟩))

theorem extent_ofImage (words : List Word) : (ofImage words).extent = words.length := by
  simp [extent, ofImage, size]

theorem read_ofImage (words : List Word) (a : Word) :
    (ofImage words).read a = words.getD a.toNat 0 := by
  have same : (ofImage words).read a = (ofImage words).loaded a := Std.ExtTreeMap.getD_empty
  rw [same]
  simp [loaded, ofImage, List.getD_eq_getElem?_getD]

/-- Writing a cell matters to the extent only from that cell on. -/
theorem le_extent_write {m : Memory} {addr value : Word} {n : Nat}
    (beyond : addr.toNat + 1 < n) :
    n ≤ (m.write addr value).extent ↔ n ≤ m.extent := by
  have behind {a : Word} (h : n ≤ a.toNat + 1) : (m.write addr value).read a = m.read a := by
    have apart : a ≠ addr := by
      rintro rfl
      omega
    rw [read_write, if_neg apart]
  simp only [le_extent_iff, size_write, loaded_write]
  constructor
  · rintro (inside | ⟨a, differs, below⟩)
    · exact .inl inside
    · exact .inr ⟨a, behind below ▸ differs, below⟩
  · rintro (inside | ⟨a, differs, below⟩)
    · exact .inl inside
    · exact .inr ⟨a, (behind below).symm ▸ differs, below⟩

/-- A memory whose image fits the address space extends at most to its end. -/
theorem extent_le {m : Memory} (h : m.size ≤ 65536) : m.extent ≤ 65536 := by
  rcases m.isGreatest_extent.1 with same | ⟨a, _, same⟩
  · omega
  · have := a.toNat_lt
    omega

/-- Setting cells to what the memory reads there, one after the other: a cell reads right in the end
if it did at first or is one of those that are set. -/
theorem getElem?_foldl_set (m : Memory) (a : Word) (pairs : List (Word × Word))
    (values : ∀ p ∈ pairs, p.2 = m.read p.1) (words : Array Word) (inside : a.toNat < words.size)
    (h : words[a.toNat]? = some (m.read a) ∨ a ∈ pairs.map Prod.fst) :
    (pairs.foldl (fun words p => words.setIfInBounds p.1.toNat p.2) words)[a.toNat]? =
      some (m.read a) := by
  induction pairs generalizing words with
  | nil => simpa using h
  | cons p pairs ih =>
    obtain ⟨addr, value⟩ := p
    have first : value = m.read addr := values (addr, value) (by simp)
    apply ih (fun p hp => values p (by simp [hp])) _ (by simpa using inside)
    by_cases here : addr = a
    · subst here
      left
      simp [first, inside]
    · have apart : addr.toNat ≠ a.toNat := fun same => here (UInt16.toNat_inj.1 same)
      rcases h with right | later
      · left
        simpa [Array.getElem?_setIfInBounds, apart] using right
      · right
        simpa [Ne.symm here] using later

@[simp]
theorem size_contents (m : Memory) : m.contents.size = m.size := by
  have sizes : ∀ (pairs : List (Word × Word)) (words : Array Word),
      (pairs.foldl (fun words p => words.setIfInBounds p.1.toNat p.2) words).size = words.size := by
    intro pairs
    induction pairs with
    | nil => exact fun _ => rfl
    | cons p pairs ih =>
      intro words
      rw [List.foldl_cons, ih, Array.size_setIfInBounds]
  rw [contents, Std.ExtTreeMap.foldl_eq_foldl_toList, sizes, size]

theorem getElem?_contents (m : Memory) {a : Word} (inside : a.toNat < m.size) :
    m.contents[a.toNat]? = some (m.read a) := by
  rw [contents, Std.ExtTreeMap.foldl_eq_foldl_toList]
  apply getElem?_foldl_set m a _ _ _ inside
  · by_cases same : m.read a = m.loaded a
    · left
      rw [same, loaded, Array.getD_eq_getD_getElem?, Array.getElem?_eq_getElem inside]
      rfl
    · right
      have entry : m.changed[a]? = some (m.read a) := by rw [getElem?_changed, if_neg same]
      rw [← Std.ExtTreeMap.mem_toList_iff_getElem?_eq_some] at entry
      exact List.mem_map_of_mem entry
  · rintro ⟨addr, value⟩ entry
    rw [Std.ExtTreeMap.mem_toList_iff_getElem?_eq_some] at entry
    simp [read, Std.ExtTreeMap.getD_eq_getD_getElem?, entry]

end WordMachine.Memory

import Std.Data.ExtTreeMap
import WordMachine.Word

/-!
Memory as a loaded image and the cells that differ from it. Reading past both gives zero; writing
the image's own value takes the cell out of the difference again, so that equal contents over one
image are one memory (`ext_read`). `read_write` is the law of an array.
-/

namespace WordMachine

abbrev Changes := Std.ExtTreeMap Word Word

/-- `changed` holds the addresses whose value is not the image's, and only those. -/
structure Memory where
  image : Array Word
  changed : Changes
  differs : ∀ (addr value : Word), changed[addr]? = some value →
    value ≠ image.getD addr.toNat 0

namespace Memory

def ofImage (words : List Word) : Memory where
  image := words.toArray
  changed := ∅
  differs := by simp

def empty : Memory := ofImage []

instance : Inhabited Memory := ⟨empty⟩

/-- The value that a cell was loaded with; past the end of the image that is zero. -/
def loaded (m : Memory) (addr : Word) : Word := m.image.getD addr.toNat 0

def read (m : Memory) (addr : Word) : Word := m.changed.getD addr (m.loaded addr)

def write (m : Memory) (addr value : Word) : Memory :=
  if h : value = m.loaded addr then
    { m with
      changed := m.changed.erase addr
      differs := fun a v hv => m.differs a v (by
        rw [Std.ExtTreeMap.getElem?_erase] at hv
        split at hv
        · simp at hv
        · exact hv) }
  else
    { m with
      changed := m.changed.insert addr value
      differs := fun a v hv => by
        rw [Std.ExtTreeMap.getElem?_insert] at hv
        split at hv
        · rename_i ha
          rw [Std.LawfulEqCmp.compare_eq_iff_eq] at ha
          cases hv
          exact ha ▸ h
        · exact m.differs a v hv }

/-- Takes over those of the given values that differ from the image. -/
def replaceChanged (m : Memory) (values : Changes) : Memory where
  image := m.image
  changed := values.filter fun addr value => value != m.loaded addr
  differs addr value h := by
    rw [Std.ExtTreeMap.getElem?_filter] at h
    simp only [Option.pfilter_eq_some_iff] at h
    obtain ⟨_, h⟩ := h
    simpa [loaded] using h

/-- The number of words in the image. -/
def size (m : Memory) : Nat := m.image.size

/-- One past the last cell that is in the image or differs from it. -/
def extent (m : Memory) : Nat :=
  match m.changed.maxKey? with
  | some addr => max m.size (addr.toNat + 1)
  | none => m.size

/-- The extent by the changed addresses in their order. In this form it evaluates by definition. -/
theorem extent_eq (m : Memory) :
    m.extent = m.changed.keys.getLast?.elim m.size fun addr => max m.size (addr.toNat + 1) := by
  rw [extent, Std.ExtTreeMap.maxKey?_eq_getLast?_keys]
  cases m.changed.keys.getLast? <;> rfl

/-- The image with the changed values that fall inside it. -/
def contents (m : Memory) : Array Word :=
  m.changed.foldl (fun words addr value => words.setIfInBounds addr.toNat value) m.image

@[simp]
theorem image_write (m : Memory) (addr value : Word) : (m.write addr value).image = m.image := by
  unfold write
  split <;> rfl

@[simp]
theorem loaded_write (m : Memory) (addr value a : Word) :
    (m.write addr value).loaded a = m.loaded a := by
  simp [loaded]

@[simp]
theorem size_write (m : Memory) (addr value : Word) : (m.write addr value).size = m.size := by
  simp [size]

theorem read_write (m : Memory) (addr value a : Word) :
    (m.write addr value).read a = if a = addr then value else m.read a := by
  unfold read
  rw [loaded_write]
  unfold write
  split
  · rename_i h
    simp only [Std.ExtTreeMap.getD_erase, Std.LawfulEqCmp.compare_eq_iff_eq]
    by_cases ha : a = addr
    · simp [ha, h]
    · simp [ha, Ne.symm ha]
  · simp only [Std.ExtTreeMap.getD_insert, Std.LawfulEqCmp.compare_eq_iff_eq]
    by_cases ha : a = addr
    · simp [ha]
    · simp [ha, Ne.symm ha]

theorem getElem?_changed (m : Memory) (a : Word) :
    m.changed[a]? = if m.read a = m.loaded a then none else some (m.read a) := by
  rw [read, Std.ExtTreeMap.getD_eq_getD_getElem?]
  cases h : m.changed[a]? with
  | none => simp
  | some v =>
    have : v ≠ m.loaded a := m.differs a v h
    simp [this]

/-- Memories over one image that read alike are equal. -/
theorem ext_read {m n : Memory} (image : m.image = n.image) (read : ∀ a, m.read a = n.read a) :
    m = n := by
  have : m.changed = n.changed := Std.ExtTreeMap.ext_getElem? fun a => by
    have same : m.loaded a = n.loaded a := by simp [loaded, image]
    rw [getElem?_changed, getElem?_changed, read a, same]
  cases m
  cases n
  cases image
  cases this
  rfl

end Memory

end WordMachine

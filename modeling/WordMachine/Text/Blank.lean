/-!
Blank characters: the White_Space property of the Unicode standard. `trim` drops them from both
ends of a text, and no more than them (`trim_eq_iff`).
-/

namespace WordMachine.Text

def isBlank (c : Char) : Bool :=
  let n := c.toNat
  (0x09 ≤ n && n ≤ 0x0d) || n == 0x20 || n == 0x85 || n == 0xa0 || n == 0x1680 ||
    (0x2000 ≤ n && n ≤ 0x200a) || n == 0x2028 || n == 0x2029 || n == 0x202f || n == 0x205f ||
    n == 0x3000

/-- The text from its last character that is not blank backwards. -/
def trimEnd (cs : List Char) : List Char := (cs.reverse.dropWhile isBlank).reverse

def trim (cs : List Char) : List Char := trimEnd (cs.dropWhile isBlank)

example : (['\t', ' ', '\x0c', '\u0085', '\u2028', '\u3000'].all isBlank) = true := by decide

example : (['\x1c', '\u180e', '\u200b', '\u2060', '\ufeff'].any isBlank) = false := by decide

theorem not_isBlank_of_visible {c : Char} (above : 0x20 < c.toNat) (below : c.toNat < 0x7f) :
    ¬ isBlank c := by
  simp [isBlank]
  omega

theorem not_isBlank_of_isDigit {c : Char} (h : c.isDigit) : ¬ isBlank c := by
  have range : 48 ≤ c.toNat ∧ c.toNat ≤ 57 := by
    simpa [Char.isDigit, UInt32.le_iff_toNat_le] using h
  exact not_isBlank_of_visible (by omega) (by omega)

/-- The blanks at both ends of a text are gone, and nothing else. -/
def Trims (text core : List Char) : Prop :=
  ∃ front back, text = front ++ core ++ back ∧ (∀ c ∈ front ++ back, isBlank c) ∧
    (∀ c ∈ core.head?, ¬ isBlank c) ∧ ∀ c ∈ core.getLast?, ¬ isBlank c

theorem dropWhile_isBlank {front rest : List Char} (blanks : ∀ c ∈ front, isBlank c)
    (stops : ∀ c ∈ rest.head?, ¬ isBlank c) : (front ++ rest).dropWhile isBlank = rest := by
  rw [List.dropWhile_append_of_pos blanks]
  cases rest with
  | nil => rfl
  | cons c rest => exact List.dropWhile_cons_of_neg (stops c rfl)

theorem trimEnd_append {core back : List Char} (blanks : ∀ c ∈ back, isBlank c)
    (stops : ∀ c ∈ core.getLast?, ¬ isBlank c) : trimEnd (core ++ back) = core := by
  rw [trimEnd, List.reverse_append, dropWhile_isBlank (by simpa using blanks),
    List.reverse_reverse]
  simpa [List.head?_reverse] using stops

theorem exists_blanks (text : List Char) :
    ∃ front, text = front ++ text.dropWhile isBlank ∧ (∀ c ∈ front, isBlank c) ∧
      ∀ c ∈ (text.dropWhile isBlank).head?, ¬ isBlank c := by
  refine ⟨text.takeWhile isBlank, List.takeWhile_append_dropWhile.symm, ?_, ?_⟩
  · exact List.all_eq_true.1 List.all_takeWhile
  · intro c first
    have := List.head?_dropWhile_not isBlank text
    simpa [Option.mem_def.1 first] using this

theorem trims_trim (text : List Char) : Trims text (trim text) := by
  obtain ⟨front, whole, before, starts⟩ := exists_blanks text
  obtain ⟨back, reversed, behind, ends⟩ := exists_blanks (text.dropWhile isBlank).reverse
  have rest : text.dropWhile isBlank = trim text ++ back.reverse := by
    rw [← List.reverse_inj, List.reverse_append, List.reverse_reverse, trim, trimEnd,
      List.reverse_reverse, ← reversed]
  refine ⟨front, back.reverse, ?_, ?_, ?_, ?_⟩
  · rw [List.append_assoc, ← rest, ← whole]
  · simpa [or_imp, forall_and] using ⟨before, behind⟩
  · intro c first
    apply starts c
    rw [rest, Option.mem_def, List.head?_append, Option.mem_def.1 first, Option.some_or]
  · simpa [trim, trimEnd] using ends

/-- Both ends of the trimmed text show, so a text is trimmed in one way only. -/
theorem trim_eq_iff {text core : List Char} : trim text = core ↔ Trims text core := by
  constructor
  · rintro rfl
    exact trims_trim text
  · rintro ⟨front, back, rfl, blanks, starts, ends⟩
    cases core with
    | nil =>
      have all := @dropWhile_isBlank _ [] blanks (by simp)
      rw [trim, List.append_nil, ← List.append_nil (front ++ back), all]
      rfl
    | cons c core =>
      obtain ⟨before, behind⟩ := List.forall_mem_append.1 blanks
      rw [trim, List.append_assoc, dropWhile_isBlank before (by simpa using starts),
        trimEnd_append behind ends]

end WordMachine.Text

import Std.Data.String.ToNat

/-!
Decimal numerals: reading one of bounded value, and setting one flush right. `read?_eq_some_iff`
says what is read as a number, and `read?_repr` that a number is read back from its decimal form.
-/

namespace WordMachine.Text.Numeral

def digit? (c : Char) : Option Nat :=
  if '0' ≤ c ∧ c ≤ '9' then some (c.toNat - '0'.toNat) else none

/-- The value of a run of digits, leading zeros allowed. Values past the limit all count as the
first one past it, so that a long numeral costs no more than its length. -/
def digits? (limit : Nat) (cs : List Char) : Option Nat :=
  if cs.isEmpty then none
  else
    (cs.foldlM (fun n c => (digit? c).map fun d => min (limit + 1) (10 * n + d)) 0).filter
      (· ≤ limit)

/-- A numeral may carry one plus sign. -/
def read? (limit : Nat) : List Char → Option Nat
  | '+' :: cs => digits? limit cs
  | cs => digits? limit cs

/-- Blanks in front up to the given width. -/
def flushRight (width n : Nat) : String :=
  "".pushn ' ' (width - n.repr.length) ++ n.repr

/-- The number is written in decimal, with any leading zeros and at most one plus sign. -/
def Denotes (cs : List Char) (n : Nat) : Prop :=
  ∃ digits, (cs = digits ∨ cs = '+' :: digits) ∧ digits ≠ [] ∧ (∀ c ∈ digits, c.isDigit) ∧
    Nat.ofDigitChars 10 digits 0 = n

theorem digit?_eq (c : Char) :
    digit? c = if c.isDigit then some (c.toNat - '0'.toNat) else none := by
  have range : c.isDigit ↔ '0' ≤ c ∧ c ≤ '9' := by simp [Char.isDigit, Char.le_def]
  simp only [digit?, range]

/-- A value past the limit is only known to be past it. -/
theorem foldlM_digit? (limit a : Nat) (cs : List Char) :
    cs.foldlM (fun n c => (digit? c).map fun d => min (limit + 1) (10 * n + d))
        (min (limit + 1) a) =
      if cs.all Char.isDigit then some (min (limit + 1) (Nat.ofDigitChars 10 cs a)) else none := by
  induction cs generalizing a with
  | nil => simp
  | cons c cs ih =>
    rw [List.foldlM_cons, digit?_eq]
    by_cases digit : c.isDigit
    · have cut : ∀ d, min (limit + 1) (10 * min (limit + 1) a + d) =
          min (limit + 1) (10 * a + d) := by
        intro d
        omega
      simp [digit, cut, ih, Nat.ofDigitChars_cons]
    · simp [digit]

theorem digits?_eq_some_iff {limit n : Nat} {cs : List Char} :
    digits? limit cs = some n ↔
      cs ≠ [] ∧ (∀ c ∈ cs, c.isDigit) ∧ Nat.ofDigitChars 10 cs 0 = n ∧ n ≤ limit := by
  have value := foldlM_digit? limit 0 cs
  rw [Nat.min_zero] at value
  rw [digits?, value]
  by_cases empty : cs = []
  · simp [empty]
  · by_cases digits : ∀ c ∈ cs, c.isDigit
    · rw [if_pos (List.all_eq_true.2 digits), Option.filter_some]
      generalize Nat.ofDigitChars 10 cs 0 = total
      have within : min (limit + 1) total ≤ limit ∧ min (limit + 1) total = n ↔
          total = n ∧ n ≤ limit := by omega
      simpa [empty, and_iff_right digits] using within
    · simp [digits]

theorem read?_eq_some_iff {limit n : Nat} {cs : List Char} :
    read? limit cs = some n ↔ Denotes cs n ∧ n ≤ limit := by
  have unsigned : ¬ '+'.isDigit := by decide
  unfold read?
  split
  · rename_i cs
    rw [digits?_eq_some_iff]
    constructor
    · rintro ⟨some, digits, value, small⟩
      exact ⟨⟨cs, .inr rfl, some, digits, value⟩, small⟩
    · rintro ⟨⟨digits, rfl | same, some, all, value⟩, small⟩
      · exact absurd (all '+' List.mem_cons_self) unsigned
      · cases same
        exact ⟨some, all, value, small⟩
  · rename_i plain
    rw [digits?_eq_some_iff]
    constructor
    · rintro ⟨some, digits, value, small⟩
      exact ⟨⟨cs, .inl rfl, some, digits, value⟩, small⟩
    · rintro ⟨⟨digits, rfl | signed, some, all, value⟩, small⟩
      · exact ⟨some, all, value, small⟩
      · exact absurd signed (plain digits)

example : read? 65535 "+0065535".toList = some 65535 := by decide

example : read? 65535 "65536".toList = none := by decide

example : read? 65535 "+".toList = none := by decide

theorem isDigit_of_mem_repr {n : Nat} {c : Char} (h : c ∈ n.repr.toList) : c.isDigit := by
  rw [Nat.toList_repr] at h
  exact Nat.isDigit_of_mem_toDigits (by decide) (Nat.le_refl 10) h

theorem denotes_repr (n : Nat) : Denotes n.repr.toList n := by
  refine ⟨n.repr.toList, .inl rfl, ?_, fun c among => isDigit_of_mem_repr among, ?_⟩
  · rw [Nat.toList_repr]
    exact Nat.toDigits_ne_nil
  · rw [Nat.toList_repr, Nat.ofDigitChars_toDigits (by decide) (Nat.le_refl 10)]

theorem read?_repr {limit n : Nat} (h : n ≤ limit) : read? limit n.repr.toList = some n :=
  read?_eq_some_iff.2 ⟨denotes_repr n, h⟩

theorem toList_flushRight (width n : Nat) :
    (flushRight width n).toList =
      List.replicate (width - n.repr.length) ' ' ++ n.repr.toList := by
  have blanks : ∀ k, ("".pushn ' ' k).toList = List.replicate k ' ' := by
    intro k
    rw [String.pushn_eq_repeat_push]
    induction k with
    | zero => rfl
    | succ k ih => rw [Nat.repeat, String.toList_push, ih, List.replicate_succ']
  rw [flushRight, String.toList_append, blanks]

/-- The digits are the numeral. -/
theorem flushRight_injective {width m n : Nat} (h : flushRight width m = flushRight width n) :
    m = n := by
  have digits : ∀ k, (flushRight width k).toList.filter Char.isDigit = k.repr.toList := by
    intro k
    rw [toList_flushRight, List.filter_append, List.filter_eq_self.2 fun _ => isDigit_of_mem_repr,
      List.filter_eq_nil_iff.2, List.nil_append]
    intro c among
    rw [List.eq_of_mem_replicate among]
    decide
  rw [← Nat.repr_inj, ← String.toList_inj, ← digits m, h, digits n]

end WordMachine.Text.Numeral

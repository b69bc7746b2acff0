/-!
Cutting a text in two at a separator. `cut?_append` says where a text is cut that was put together
with a separator, and `cut?_of_notMem` that one without it is not cut. `append_inj_of_stops` says
that a separator leaves no doubt about what stands before it.
-/

namespace WordMachine.Text

/-- What stands before the first place of the separator, and what stands behind it. -/
def cut? (separator text : List Char) : Option (List Char × List Char) :=
  if separator <+: text then some ([], text.drop separator.length)
  else match text with
    | [] => none
    | c :: cs => (cut? separator cs).map fun (front, back) => (c :: front, back)

variable {c d : Char} {separator front back text : List Char}

theorem cut?_cons_of_ne (h : c ≠ d) :
    cut? (c :: separator) (d :: text) =
      (cut? (c :: separator) text).map fun (front, back) => (d :: front, back) := by
  have later : ¬ c :: separator <+: d :: text := fun here => h (List.cons_prefix_cons.1 here).1
  rw [cut?, if_neg later]

/-- The separator begins nowhere earlier, since its first character does not stand there. -/
theorem cut?_append (h : c ∉ front) :
    cut? (c :: separator) (front ++ (c :: separator ++ back)) = some (front, back) := by
  induction front with
  | nil =>
    have here : c :: separator <+: c :: (separator ++ back) := List.prefix_append _ back
    rw [List.nil_append, List.cons_append, cut?, if_pos here, ← List.cons_append,
      List.drop_left]
  | cons d front ih =>
    have other : c ≠ d := List.ne_of_not_mem_cons h
    rw [List.cons_append, cut?_cons_of_ne other, ih (List.not_mem_of_not_mem_cons h)]
    rfl

theorem cut?_of_notMem (h : c ∉ text) : cut? (c :: separator) text = none := by
  induction text with
  | nil => rfl
  | cons d text ih =>
    have other : c ≠ d := List.ne_of_not_mem_cons h
    rw [cut?_cons_of_ne other, ih (List.not_mem_of_not_mem_cons h)]
    rfl

/-- Both texts have the same first word, which ends at the separator or with the text. -/
theorem append_inj_of_stops {front' back' : List Char} (h : c ∉ front) (h' : c ∉ front')
    (stops : ∀ d ∈ back.head?, d = c) (stops' : ∀ d ∈ back'.head?, d = c)
    (same : front ++ back = front' ++ back') : front = front' ∧ back = back' := by
  have first {word rest : List Char} (inside : c ∉ word) (ends : ∀ d ∈ rest.head?, d = c) :
      (word ++ rest).takeWhile (· ≠ c) = word := by
    rw [List.takeWhile_append_of_pos]
    · cases rest with
      | nil => simp
      | cons d rest => simp [ends d rfl]
    · intro d among
      have other : d ≠ c := fun same => inside (same ▸ among)
      simpa using other
  have words : front = front' := by
    rw [← first h stops, same, first h' stops']
  exact ⟨words, List.append_cancel_left (words ▸ same)⟩

end WordMachine.Text

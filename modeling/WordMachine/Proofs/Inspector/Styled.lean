import WordMachine.Proofs.Listing.Wording

/-!
Styled lines show the text of their entry. A line is put together from parts that are found in that
text, and is again the text with the parts styled (`toList_line_instruction`), whatever notes and
colons stand in it. So without styles it is the text, and where styles are control sequences around
the parts, a terminal that skips these shows the text (`styled_line_shows_text`).
-/

namespace WordMachine

namespace Text

/-- Where a terminal stands in what it is sent. -/
inductive Reception where
  | text
  | escape
  | sequence

/-- The characters that a terminal shows. It skips each escape together with the character that
follows, and a sequence that a bracket opens up to its final character. -/
def shown : Reception → List Char → List Char
  | _, [] => []
  | .text, c :: cs => if c = '\x1b' then shown .escape cs else c :: shown .text cs
  | .escape, c :: cs => if c = '[' then shown .sequence cs else shown .text cs
  | .sequence, c :: cs => if '@' ≤ c ∧ c ≤ '~' then shown .text cs else shown .sequence cs

/-- A sequence that controls the terminal: parameters, and a final character that names it. -/
def IsSequence (cs : List Char) : Prop :=
  ∃ parameters final, cs = '\x1b' :: '[' :: (parameters ++ [final]) ∧
    (∀ c ∈ parameters, ' ' ≤ c ∧ c ≤ '?') ∧ '@' ≤ final ∧ final ≤ '~'

/-- The last character is no blank, so nothing is trimmed behind it. -/
def EndsShown (cs : List Char) : Prop := ∃ c, cs.getLast? = some c ∧ ¬ isBlank c

variable {front back cs : List Char} {c : Char}

theorem shown_append (h : '\x1b' ∉ front) :
    shown .text (front ++ back) = front ++ shown .text back := by
  induction front with
  | nil => rfl
  | cons c front ih =>
    have other : '\x1b' ≠ c := List.ne_of_not_mem_cons h
    rw [List.cons_append, shown, if_neg other.symm, ih (List.not_mem_of_not_mem_cons h)]
    rfl

theorem shown_eq_self (h : '\x1b' ∉ cs) : shown .text cs = cs := by
  have whole : shown .text (cs ++ []) = cs ++ shown .text [] := shown_append h
  simpa [shown] using whole

theorem shown_sequence (h : IsSequence cs) : shown .text (cs ++ back) = shown .text back := by
  obtain ⟨parameters, final, rfl, inner, last⟩ := h
  have skips : shown .sequence (parameters ++ final :: back) = shown .text back := by
    induction parameters with
    | nil => rw [List.nil_append, shown, if_pos last]
    | cons c parameters ih =>
      obtain ⟨here, rest⟩ := List.forall_mem_cons.1 inner
      have inside : ¬ ('@' ≤ c ∧ c ≤ '~') := by
        have upper : c.val.toNat ≤ 63 := here.2
        rintro ⟨lower, -⟩
        have lower : 64 ≤ c.val.toNat := lower
        omega
      rw [List.cons_append, shown, if_neg inside, ih rest]
  simpa [shown] using skips

namespace EndsShown

theorem concat (h : ¬ isBlank c) : EndsShown (front ++ [c]) :=
  ⟨c, List.getLast?_concat, h⟩

theorem append (h : EndsShown back) : EndsShown (front ++ back) := by
  obtain ⟨c, last, shows⟩ := h
  exact ⟨c, by rw [List.getLast?_append, last, Option.some_or], shows⟩

theorem trimEnd_append (h : EndsShown cs) (blanks : ∀ c ∈ back, isBlank c) :
    trimEnd (cs ++ back) = cs := by
  obtain ⟨c, last, shows⟩ := h
  refine Text.trimEnd_append blanks fun d ends => ?_
  rw [last] at ends
  cases ends
  exact shows

theorem trimEnd (h : EndsShown cs) : trimEnd cs = cs := by
  have whole : Text.trimEnd (cs ++ []) = cs := h.trimEnd_append (by simp)
  simpa using whole

theorem of_forall (some : cs ≠ []) (shows : ∀ c ∈ cs, ¬ isBlank c) : EndsShown cs :=
  ⟨cs.getLast some, List.getLast?_eq_some_getLast some, shows _ (List.getLast_mem some)⟩

end EndsShown

end Text

open Text (EndsShown isBlank)

theorem Opcode.endsShown_mnemonic (op : Opcode) : EndsShown op.mnemonic.toList := by
  cases op <;> exact ⟨_, rfl, by decide⟩

theorem Opcode.escape_notMem_mnemonic (op : Opcode) : '\x1b' ∉ op.mnemonic.toList := by
  cases op <;> decide

namespace Instruction

theorem endsShown_operandText (w : Word) : EndsShown (operandText w).toList := by
  refine .of_forall ?_ fun c among => ?_
  · obtain whole | ⟨r, -, whole⟩ | whole := toList_operandText w
    · rw [whole, Nat.toList_repr]
      exact Nat.toDigits_ne_nil
    all_goals simp [whole]
  · have brackets : ∀ c ∈ ['[', ']', '<', '>'], ¬ isBlank c := by simp [isBlank]
    exact (mem_operandText among).elim Text.not_isBlank_of_isDigit (brackets c)

theorem endsShown_tailText {i : Instruction} (h : i.tailText.toList ≠ []) :
    EndsShown i.tailText.toList := by
  rw [toList_tailText] at h ⊢
  unfold noteText at h ⊢
  cases note : i.note? with
  | some ch =>
    have quoted : EndsShown (Text.Quoted.char ch).toList := by
      rw [Text.Quoted.char, String.toList_append]
      exact .concat (by decide)
    have noted : EndsShown ([' ', ' ', ';', ' '] ++ (Text.Quoted.char ch).toList) := .append quoted
    exact .append noted
  | none =>
    simp only [note, List.append_nil] at h ⊢
    obtain none | ⟨ws, w, whole⟩ := List.eq_nil_or_concat i.operands.toList
    · exact absurd (by rw [none]; rfl) h
    · rw [whole, List.concat_eq_append, operandsText, List.flatMap_append, List.flatMap_singleton]
      have operand : EndsShown ([' '] ++ (operandText w).toList) :=
        .append (endsShown_operandText w)
      exact .append operand

/-- A note is about a visible character or a line feed. -/
theorem escape_notMem_noteText (i : Instruction) : '\x1b' ∉ i.noteText := by
  have plain {w : Word} (h : w.isPlain) :
      '\x1b' ∉ (Text.Quoted.escape '\'' (Char.ofNat w.toNat)).toList := by
    obtain feed | visible : w = 10 ∨ 32 ≤ w.toNat ∧ w.toNat ≤ 126 := by
      simpa [Word.isPlain, UInt16.le_iff_toNat_le] using h
    · rw [feed]
      decide
    · have valid : w.toNat.isValidChar := .inl (by omega)
      have code : (Char.ofNat w.toNat).toNat = w.toNat := by
        rw [Char.ofNat, dif_pos valid]
        rfl
      have other : '\x1b' ≠ Char.ofNat w.toNat := by
        intro same
        rw [← same] at code
        have : 27 = w.toNat := code
        omega
      rw [Text.Quoted.escape_of_visible (by omega) (by omega)]
      split <;> simp [other]
  unfold noteText
  fun_cases note? i with
  | case1 w _ _ whole => simpa [Text.Quoted.char] using plain whole
  | case2 => exact List.not_mem_nil
  | case3 => exact List.not_mem_nil

theorem escape_notMem_tailText (i : Instruction) : '\x1b' ∉ i.tailText.toList := by
  rw [toList_tailText, List.mem_append]
  rintro (operand | note)
  · obtain ⟨w, -, among⟩ := List.mem_flatMap.1 operand
    obtain blank | among := List.mem_cons.1 among
    · cases blank
    · exact (mem_operandText among).elim (by decide) (by decide)
  · exact i.escape_notMem_noteText note

end Instruction

namespace Style

/-- The style puts a sequence in front of a text and another one behind it. Of texts that hold
escapes themselves nothing is said. -/
def Wraps (part : String → String) : Prop :=
  ∃ opening reset, Text.IsSequence opening ∧ Text.IsSequence reset ∧
    ∀ text : String, '\x1b' ∉ text.toList → (part text).toList = opening ++ text.toList ++ reset

/-- Each part of a line is wrapped in sequences of its own. -/
structure Wrapping (style : Style) : Prop where
  dim : Wraps style.dim
  bold : Wraps style.bold
  yellow : Wraps style.yellow

theorem wraps_sequence {code : List Char} (digits : ∀ c ∈ code, ' ' ≤ c ∧ c ≤ '?') :
    Wraps (sequence (String.ofList code)) := by
  refine ⟨'\x1b' :: '[' :: (code ++ ['m']), ['\x1b', '[', '0', 'm'], ⟨code, 'm', rfl, digits, ?_⟩,
    ⟨['0'], 'm', rfl, ?_, ?_⟩, fun text _ => ?_⟩
  · decide
  · simp
  · decide
  · simp [sequence]

theorem wrapping_terminal : Wrapping terminal where
  dim := @wraps_sequence ['2'] (by simp)
  bold := @wraps_sequence ['1'] (by simp)
  yellow := @wraps_sequence ['3', '3'] (by simp)

variable {part : String → String} {text : String} {back : List Char}

theorem Wraps.shown (h : Wraps part) (plain : '\x1b' ∉ text.toList) :
    Text.shown .text ((part text).toList ++ back) = text.toList ++ Text.shown .text back := by
  obtain ⟨opening, reset, begins, ends, wrapped⟩ := h
  rw [wrapped text plain, List.append_assoc, List.append_assoc, Text.shown_sequence begins,
    Text.shown_append plain, Text.shown_sequence ends]

theorem Wraps.endsShown (h : Wraps part) (plain : '\x1b' ∉ text.toList) :
    EndsShown (part text).toList := by
  obtain ⟨opening, reset, -, ⟨parameters, final, rfl, -, lower, upper⟩, wrapped⟩ := h
  have lower : 64 ≤ final.toNat := lower
  have upper : final.toNat ≤ 126 := upper
  have shows : ¬ isBlank final := Text.not_isBlank_of_visible (by omega) (by omega)
  rw [wrapped text plain]
  have sequence : EndsShown (['\x1b', '['] ++ (parameters ++ [final])) := .append (.concat shows)
  exact .append sequence

end Style

namespace Listing

variable {style : Style}

/-- The text of an instruction is cut behind its address and behind its mnemonic, where the first
colon and the next blank stand. What is trimmed is the blank that no tail follows. -/
theorem toList_line_instruction {i : Instruction}
    (bold : EndsShown (style.bold i.opcode.mnemonic).toList) :
    ((instruction i).line style).toList =
      (style.dim (Text.Numeral.flushRight 5 i.addr.toNat)).toList ++
        ':' :: ' ' :: ((style.bold i.opcode.mnemonic).toList ++ i.tailText.toList) := by
  have address : Text.cut? [':', ' '] i.text.toList =
      some ((Text.Numeral.flushRight 5 i.addr.toNat).toList,
        i.opcode.mnemonic.toList ++ i.tailText.toList) := by
    have whole := (instruction i).toList_text
    rw [text, addr, body] at whole
    rw [whole]
    exact Text.cut?_append (Text.Numeral.notMem_flushRight 5 _ (by decide) (by decide))
  cases tail : i.tailText.toList with
  | nil =>
    rw [tail, List.append_nil] at address
    have mnemonic : Text.cut? [' '] i.opcode.mnemonic.toList = none :=
      Text.cut?_of_notMem i.opcode.blank_notMem_mnemonic
    have ends : EndsShown ((style.dim (Text.Numeral.flushRight 5 i.addr.toNat)).toList ++
        ([':', ' '] ++ (style.bold i.opcode.mnemonic).toList)) := .append (.append bold)
    have blank : ∀ c ∈ [' '], isBlank c := by simp [isBlank]
    simpa [line, address, mnemonic] using ends.trimEnd_append blank
  | cons c rest =>
    obtain rfl : c = ' ' := i.stops_tailText c (by rw [tail]; rfl)
    rw [tail] at address
    have mnemonic : Text.cut? [' '] (i.opcode.mnemonic.toList ++ ' ' :: rest) =
        some (i.opcode.mnemonic.toList, rest) :=
      Text.cut?_append i.opcode.blank_notMem_mnemonic
    have last : EndsShown (' ' :: rest) := tail ▸ Instruction.endsShown_tailText (by simp [tail])
    have ends : EndsShown ((style.dim (Text.Numeral.flushRight 5 i.addr.toNat)).toList ++
        ([':', ' '] ++ ((style.bold i.opcode.mnemonic).toList ++ ' ' :: rest))) :=
      .append (.append (.append last))
    simpa [line, address, mnemonic] using ends.trimEnd

theorem toList_line_data (addr word : Word) :
    ((data addr word).line style).toList =
      (style.dim (Text.Numeral.flushRight 5 addr.toNat)).toList ++
        ':' :: ' ' :: (style.yellow (".word " ++ word.toNat.repr)).toList := by
  simp [line]

theorem line_plain (entry : Listing) : entry.line .plain = entry.text := by
  rw [← String.toList_inj, toList_text]
  cases entry with
  | instruction i => exact toList_line_instruction i.opcode.endsShown_mnemonic
  | data addr word =>
    rw [toList_line_data]
    simp [Style.plain, Listing.addr, body]

theorem shown_line (wraps : style.Wrapping) (entry : Listing) :
    Text.shown .text (entry.line style).toList = entry.text.toList := by
  have address (a : Word) : '\x1b' ∉ (Text.Numeral.flushRight 5 a.toNat).toList :=
    Text.Numeral.notMem_flushRight 5 _ (by decide) (by decide)
  have colon (back : List Char) :
      Text.shown .text (':' :: ' ' :: back) = ':' :: ' ' :: Text.shown .text back := rfl
  rw [toList_text]
  cases entry with
  | instruction i =>
    have mnemonic := i.opcode.escape_notMem_mnemonic
    rw [toList_line_instruction (wraps.bold.endsShown mnemonic), wraps.dim.shown (address _),
      colon, wraps.bold.shown mnemonic, Text.shown_eq_self i.escape_notMem_tailText]
    rfl
  | data addr word =>
    have digits : '\x1b' ∉ word.toNat.repr.toList := fun among =>
      absurd (Text.Numeral.isDigit_of_mem_repr among) (by decide)
    have whole : '\x1b' ∉ (".word " ++ word.toNat.repr).toList := by
      simpa using digits
    rw [toList_line_data, wraps.dim.shown (address _), colon,
      ← List.append_nil (style.yellow _).toList, wraps.yellow.shown whole]
    simp [Text.shown, Listing.addr, body]

/-- Nothing but styles stands between a line and the text of its entry. A terminal shows the text,
and a line without styles is the text. -/
theorem styled_line_shows_text (wraps : style.Wrapping) (entry : Listing) :
    entry.line .plain = entry.text ∧
      Text.shown .text (entry.line style).toList = entry.text.toList :=
  ⟨entry.line_plain, entry.shown_line wraps⟩

/-- An instruction without operands, whose line is trimmed behind the mnemonic. -/
theorem styled_line_shows_text_ret :
    let entry : Listing := .instruction ⟨7, .ret, #v[]⟩
    Style.terminal.Wrapping ∧ entry.line .plain = "    7: ret" ∧
      entry.line .terminal = "\x1b[2m    7\x1b[0m: \x1b[1mret\x1b[0m" ∧
      Text.shown .text (entry.line .terminal).toList = "    7: ret".toList := by
  intro entry
  have whole : entry.text = "    7: ret" := by rfl
  obtain ⟨plain, shows⟩ := styled_line_shows_text Style.wrapping_terminal entry
  exact ⟨Style.wrapping_terminal, whole ▸ plain, by decide +kernel, whole ▸ shows⟩

end Listing

end WordMachine

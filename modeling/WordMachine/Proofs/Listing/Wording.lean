import WordMachine.Inspector.Style

/-!
What a listing entry says. Its text is an address, a colon, a word and what follows it
(`toList_text`), and its words can be told apart by the blanks between them. Since an address, a
mnemonic and an operand are each known by their texts, so is the entry; and so it is by its JSON
(`entry_known_by_wording`).
-/

namespace WordMachine

namespace Opcode

theorem blank_notMem_mnemonic (op : Opcode) : ' ' ∉ op.mnemonic.toList := by
  cases op <;> decide

theorem mnemonic_ne_word (op : Opcode) : op.mnemonic ≠ ".word" := by
  cases op <;> decide

end Opcode

theorem Text.Numeral.notMem_flushRight {c : Char} (width n : Nat) (digit : ¬ c.isDigit)
    (blank : c ≠ ' ') : c ∉ (flushRight width n).toList := by
  intro among
  rw [toList_flushRight, List.mem_append, List.mem_replicate] at among
  obtain ⟨-, same⟩ | numeral := among
  · exact blank same
  · exact digit (isDigit_of_mem_repr numeral)

namespace Instruction

variable {w w' : Word} {c : Char}

/-- The number alone, or between brackets that tell a register from a word that names nothing. -/
theorem toList_operandText (w : Word) :
    (operandText w).toList = w.toNat.repr.toList ∨
      (∃ r : Reg, w = r.word ∧ (operandText w).toList = '[' :: (r.val.repr.toList ++ [']'])) ∨
      (operandText w).toList = '<' :: (w.toNat.repr.toList ++ ['>']) := by
  unfold operandText
  cases named : Operand.ofWord? w with
  | none => simp
  | some o =>
    have word := Operand.word_of_ofWord? named
    cases o with
    | literal value =>
      cases word
      exact .inl rfl
    | register r => exact .inr (.inl ⟨r, word.symm, by simp [Operand.text, Reg.text]⟩)

theorem mem_operandText (h : c ∈ (operandText w).toList) :
    c.isDigit ∨ c ∈ ['[', ']', '<', '>'] := by
  obtain whole | ⟨r, -, whole⟩ | whole := toList_operandText w
  · rw [whole] at h
    exact .inl (Text.Numeral.isDigit_of_mem_repr h)
  all_goals
    simp only [whole, List.mem_cons, List.mem_append, List.not_mem_nil, or_false] at h
    obtain rfl | digit | rfl := h
    · exact .inr (by decide)
    · exact .inl (Text.Numeral.isDigit_of_mem_repr digit)
    · exact .inr (by decide)

theorem operandText_injective (h : operandText w = operandText w') : w = w' := by
  have unlike {c : Char} {n : Nat} {rest : List Char} (other : ¬ c.isDigit) :
      n.repr.toList ≠ c :: rest := by
    intro same
    exact other (Text.Numeral.isDigit_of_mem_repr (n := n) (same ▸ List.mem_cons_self))
  have number {m n : Nat} {first last : Char}
      (same : first :: (m.repr.toList ++ [last]) = first :: (n.repr.toList ++ [last])) : m = n :=
    Nat.repr_inj.1 (String.toList_inj.1 (List.append_cancel_right (List.cons.inj same).2))
  rw [← String.toList_inj] at h
  obtain here | ⟨r, rfl, here⟩ | here := toList_operandText w <;>
    obtain there | ⟨r', rfl, there⟩ | there := toList_operandText w' <;>
    rw [here, there] at h
  -- A number alone is like no text that begins with a bracket.
  case inl.inr.inl | inl.inr.inr => exact absurd h (unlike (by decide))
  case inr.inl.inl | inr.inr.inl => exact absurd h.symm (unlike (by decide))
  case inr.inl.inr.inr | inr.inr.inr.inl => simp at h
  case inl.inl => exact UInt16.toNat_inj.1 (Nat.repr_inj.1 (String.toList_inj.1 h))
  case inr.inl.inr.inl => rw [Fin.ext (number h)]
  case inr.inr.inr.inr => exact UInt16.toNat_inj.1 (number h)

def operandsText (ws : List Word) : List Char := ws.flatMap fun w => ' ' :: (operandText w).toList

def noteText (i : Instruction) : List Char :=
  match i.note? with
  | some ch => ' ' :: ' ' :: ';' :: ' ' :: (Text.Quoted.char ch).toList
  | none => []

theorem toList_tailText (i : Instruction) :
    i.tailText.toList = operandsText i.operands.toList ++ i.noteText := by
  have fold (ws : List Word) (front : String) :
      (ws.foldl (fun text w => text ++ " " ++ operandText w) front).toList =
        front.toList ++ operandsText ws := by
    induction ws generalizing front with
    | nil => simp [operandsText]
    | cons w ws ih => simp [ih, operandsText]
  have operands := fold i.operands.toList ""
  rw [Vector.foldl_toList] at operands
  unfold tailText noteText
  cases i.note? with
  | none => simp [operands]
  | some ch => simp [operands]

theorem stops_noteText (i : Instruction) : ∀ c ∈ i.noteText.head?, c = ' ' := by
  unfold noteText
  cases i.note? with
  | none => nofun
  | some ch => simp

theorem stops_operandsText {ws : List Word} {note : List Char} (stops : ∀ c ∈ note.head?, c = ' ') :
    ∀ c ∈ (operandsText ws ++ note).head?, c = ' ' := by
  cases ws with
  | nil => exact stops
  | cons w ws => simp [operandsText]

theorem stops_tailText (i : Instruction) : ∀ c ∈ i.tailText.toList.head?, c = ' ' := by
  rw [toList_tailText]
  exact stops_operandsText i.stops_noteText

theorem blank_notMem_operandText (w : Word) : ' ' ∉ (operandText w).toList := by
  intro among
  obtain digit | bracket := mem_operandText among
  · cases digit
  · exact absurd bracket (by decide)

/-- Operands of one number are told apart, whatever notes stand behind them. -/
theorem operandsText_injective {ws ws' : List Word} {note note' : List Char}
    (length : ws.length = ws'.length) (stops : ∀ c ∈ note.head?, c = ' ')
    (stops' : ∀ c ∈ note'.head?, c = ' ')
    (same : operandsText ws ++ note = operandsText ws' ++ note') : ws = ws' := by
  induction ws generalizing ws' with
  | nil => exact (List.length_eq_zero_iff.1 length.symm).symm
  | cons w ws ih =>
    obtain _ | ⟨w', ws'⟩ := ws'
    · cases length
    · simp only [operandsText, List.flatMap_cons, List.cons_append, List.append_assoc,
        List.cons.injEq, true_and] at same
      obtain ⟨word, rest⟩ := Text.append_inj_of_stops (blank_notMem_operandText w)
        (blank_notMem_operandText w') (stops_operandsText stops) (stops_operandsText stops') same
      rw [operandText_injective (String.toList_inj.1 word), ih (Nat.succ.inj length) rest]

end Instruction

namespace Listing

/-- What the text says behind the address. -/
def body : Listing → List Char
  | instruction i => i.opcode.mnemonic.toList ++ i.tailText.toList
  | data _ word => ".word".toList ++ ' ' :: word.toNat.repr.toList

theorem toList_text (entry : Listing) :
    entry.text.toList =
      (Text.Numeral.flushRight 5 entry.addr.toNat).toList ++ ':' :: ' ' :: entry.body := by
  cases entry with
  | instruction i => simp [text, Instruction.text, addr, body]
  | data a word => simp [text, addr, body]

theorem body_injective {entry entry' : Listing} (place : entry.addr = entry'.addr)
    (same : entry.body = entry'.body) : entry = entry' := by
  have data_ne_instruction {word : Word} {i : Instruction} :
      ".word".toList ++ ' ' :: word.toNat.repr.toList ≠
        i.opcode.mnemonic.toList ++ i.tailText.toList := by
    intro same
    obtain ⟨word, -⟩ := Text.append_inj_of_stops (by decide) i.opcode.blank_notMem_mnemonic
      (by simp) i.stops_tailText same
    exact i.opcode.mnemonic_ne_word (String.toList_inj.1 word).symm
  cases entry with
  | data a word =>
    cases entry' with
    | data a' word' =>
      obtain rfl : a = a' := place
      have digits : word.toNat.repr.toList = word'.toNat.repr.toList :=
        (List.cons.inj (List.append_cancel_left same)).2
      rw [UInt16.toNat_inj.1 (Nat.repr_inj.1 (String.toList_inj.1 digits))]
    | instruction i => exact absurd same data_ne_instruction
  | instruction i =>
    cases entry' with
    | data a word => exact absurd same.symm data_ne_instruction
    | instruction j =>
      obtain ⟨mnemonic, tail⟩ := Text.append_inj_of_stops i.opcode.blank_notMem_mnemonic
        j.opcode.blank_notMem_mnemonic i.stops_tailText j.stops_tailText same
      rw [i.toList_tailText, j.toList_tailText] at tail
      obtain ⟨a, op, ws⟩ := i
      obtain ⟨a', op', ws'⟩ := j
      obtain rfl : a = a' := place
      obtain rfl : op = op' := Opcode.mnemonic_injective (String.toList_inj.1 mnemonic)
      have operands : ws.toList = ws'.toList := Instruction.operandsText_injective (by simp)
        (Instruction.stops_noteText _) (Instruction.stops_noteText _) tail
      rw [Vector.toList_inj.1 operands]

/-- The first colon is the one behind the address. -/
theorem text_injective {entry entry' : Listing} (h : entry.text = entry'.text) :
    entry = entry' := by
  rw [← String.toList_inj, toList_text, toList_text] at h
  have colon (n : Nat) : ':' ∉ (Text.Numeral.flushRight 5 n).toList :=
    Text.Numeral.notMem_flushRight 5 n (by decide) (by decide)
  obtain ⟨place, rest⟩ :=
    Text.append_inj_of_stops (colon _) (colon _) (by simp) (by simp) h
  have addr : entry.addr = entry'.addr :=
    UInt16.toNat_inj.1 (Text.Numeral.flushRight_injective (String.toList_inj.1 place))
  simp only [List.cons.injEq, true_and] at rest
  exact body_injective addr rest

theorem operandJson_injective {w w' : Word} (h : operandJson w = operandJson w') : w = w' := by
  unfold operandJson at h
  cases here : Operand.ofWord? w with
  | none =>
    cases there : Operand.ofWord? w' with
    | none =>
      simp only [here, there, Json.object.injEq, List.cons.injEq, Prod.mk.injEq,
        Json.natural.injEq] at h
      exact UInt16.toNat_inj.1 h.1.2
    | some o' => cases o' <;> simp [here, there] at h
  | some o =>
    cases there : Operand.ofWord? w' with
    | none => cases o <;> simp [here, there] at h
    | some o' =>
      have same : o = o' := by
        cases o <;> cases o' <;> simp [here, there, UInt16.toNat_inj, Fin.val_inj] at h
        · rw [h]
        · rw [h]
      rw [← Operand.word_of_ofWord? here, ← Operand.word_of_ofWord? there, same]

theorem json_injective {entry entry' : Listing} (h : entry.json = entry'.json) :
    entry = entry' := by
  cases entry with
  | data a word =>
    cases entry' with
    | data a' word' =>
      simp only [json, Json.object.injEq, List.cons.injEq, Prod.mk.injEq, Json.natural.injEq,
        true_and, and_true, UInt16.toNat_inj] at h
      rw [h.1, h.2]
    | instruction i => simp [json] at h
  | instruction i =>
    cases entry' with
    | data a word => simp [json] at h
    | instruction j =>
      obtain ⟨a, op, ws⟩ := i
      obtain ⟨a', op', ws'⟩ := j
      simp only [json, Json.object.injEq, List.cons.injEq, Prod.mk.injEq, Json.natural.injEq,
        Json.string.injEq, Json.array.injEq, true_and, and_true, UInt16.toNat_inj] at h
      obtain ⟨rfl, mnemonic, operands⟩ := h
      obtain rfl : op = op' := Opcode.mnemonic_injective mnemonic
      rw [List.map_inj_right fun _ _ => operandJson_injective, Vector.toList_inj] at operands
      rw [operands]

/-- Entries that read alike are one and the same, with one address and one data word, or one opcode
and the same operand words. The JSON of an entry says as much as its text. -/
theorem entry_known_by_wording : Function.Injective text ∧ Function.Injective json :=
  ⟨fun _ _ => text_injective, fun _ _ => json_injective⟩

/-- The note holds a colon of its own. -/
theorem entry_known_by_wording_colon :
    let entry : Listing := .instruction ⟨0, .output, #v[58]⟩
    entry.text = "    0: out 58  ; ':'" ∧
      ∀ other : Listing, other.text = "    0: out 58  ; ':'" → other = entry := by
  intro entry
  have quoted : Text.Quoted.char ':' = "':'" := by
    rw [Text.Quoted.char, Text.Quoted.escape_of_visible (by decide) (by decide)]
    rfl
  have printed : entry.text = "    0: out 58  ; ':'" := by
    change "    0" ++ ": " ++ "out" ++ (" 58" ++ "  ; " ++ Text.Quoted.char ':') = _
    rw [quoted]
    rfl
  refine ⟨printed, fun other reads => ?_⟩
  exact entry_known_by_wording.1 (reads.trans printed.symm)

end Listing

end WordMachine

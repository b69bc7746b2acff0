import WordMachine.Snapshot.Encoding

/-!
The bytes of an encoding, field by field. A `Layout` holds the fields as they stand in the bytes,
with every list and text short enough for a word to count it. `encode_of_encodable` and
`encode_of_oversized` say which snapshots have a layout, and what becomes of the others.
-/

namespace WordMachine.Snapshot

theorem bind_eq_ok {x : Except ε α} {f : α → Except ε β} {b : β} :
    x >>= f = .ok b ↔ ∃ a, x = .ok a ∧ f a = .ok b := by
  cases x with
  | error e => simp [bind, Except.bind]
  | ok a => simp [bind, Except.bind]

theorem ok_bind (a : α) (f : α → Except ε β) : Except.ok a >>= f = f a := rfl

def countedWords (ws : List Word) : List UInt8 :=
  Bytes.ofWord (UInt16.ofNat ws.length) ++ ws.flatMap Bytes.ofWord

/-- The length counts bytes, not characters. -/
def countedText (text : String) : List UInt8 :=
  Bytes.ofWord (UInt16.ofNat text.utf8ByteSize) ++ Text.Utf8.encode text

theorem encodeWords_eq (field : SnapshotField) (ws : List Word) :
    encodeWords field ws =
      if ws.length ≤ maxLength then .ok (countedWords ws)
      else .error (.tooLong field ws.length) := by
  unfold encodeWords encodeLength
  split <;> rfl

theorem encodeText_eq (field : SnapshotField) (text : String) :
    encodeText field text =
      if text.utf8ByteSize ≤ maxLength then .ok (countedText text)
      else .error (.tooLong field text.utf8ByteSize) := by
  unfold encodeText encodeLength
  split <;> rfl

/-- The changes stand as two lists, of the addresses and of their values. -/
@[ext]
structure Layout where
  pc : Word
  registers : Registers
  stack : List Word
  keys : List Word
  values : List Word
  input : String
  echo : String
  output : String
  stackFits : stack.length ≤ maxLength
  keysFit : keys.length ≤ maxLength
  paired : keys.length = values.length
  inputFits : input.utf8ByteSize ≤ maxLength
  echoFits : echo.utf8ByteSize ≤ maxLength
  outputFits : output.utf8ByteSize ≤ maxLength

namespace Layout

def bytes (l : Layout) : List UInt8 :=
  Bytes.ofWord l.pc ++ (l.registers.toList.flatMap Bytes.ofWord ++
    (countedWords l.stack ++ (countedWords l.keys ++ (countedWords l.values ++
      (countedText l.input ++ (countedText l.echo ++ countedText l.output))))))

def snapshot (l : Layout) : Snapshot where
  pc := l.pc
  registers := l.registers
  stack := l.stack.toArray
  changed := changesOf l.keys l.values
  input := l.input
  echo := l.echo
  output := l.output

theorem valuesFit (l : Layout) : l.values.length ≤ maxLength := l.paired ▸ l.keysFit

end Layout

/-- Snapshots whose lengths are words. -/
structure Encodable (s : Snapshot) : Prop where
  stack : s.stack.size ≤ maxLength
  changed : s.changed.size ≤ maxLength
  input : s.input.utf8ByteSize ≤ maxLength
  echo : s.echo.utf8ByteSize ≤ maxLength
  output : s.output.utf8ByteSize ≤ maxLength

/-- The fields that are counted, in the order of their bytes. The values are as many as the keys. -/
def lengths (s : Snapshot) : List (SnapshotField × Nat) :=
  [(.stack, s.stack.size), (.keys, s.changed.size), (.input, s.input.utf8ByteSize),
    (.echo, s.echo.utf8ByteSize), (.output, s.output.utf8ByteSize)]

def oversized? (s : Snapshot) : Option (SnapshotField × Nat) :=
  s.lengths.find? fun counted => maxLength < counted.2

theorem encodable_iff (s : Snapshot) : s.Encodable ↔ s.oversized? = none := by
  simp only [oversized?, lengths, List.find?_eq_none, List.forall_mem_cons, List.not_mem_nil,
    decide_eq_true_eq, Nat.not_lt]
  constructor
  · rintro ⟨stack, changed, input, echo, output⟩
    exact ⟨stack, changed, input, echo, output, nofun⟩
  · rintro ⟨stack, changed, input, echo, output, -⟩
    exact ⟨stack, changed, input, echo, output⟩

def layout (s : Snapshot) (h : s.Encodable) : Layout where
  pc := s.pc
  registers := s.registers
  stack := s.stack.toList
  keys := s.changed.toList.map Prod.fst
  values := s.changed.toList.map Prod.snd
  input := s.input
  echo := s.echo
  output := s.output
  stackFits := by simpa using h.stack
  keysFit := by simpa using h.changed
  paired := by simp
  inputFits := h.input
  echoFits := h.echo
  outputFits := h.output

theorem encode_of_encodable {s : Snapshot} (h : s.Encodable) :
    s.encode = .ok (s.layout h).bytes := by
  simp only [encode, encodeWords_eq, encodeText_eq, Array.length_toList, List.length_map,
    Std.ExtTreeMap.length_toList, h.stack, h.changed, h.input, h.echo, h.output, if_true]
  rfl

theorem encode_of_oversized {s : Snapshot} {field : SnapshotField} {length : Nat}
    (h : s.oversized? = some (field, length)) : s.encode = .error (.tooLong field length) := by
  simp only [oversized?, lengths, List.find?_cons, List.find?_nil] at h
  simp only [encode, encodeWords_eq, encodeText_eq, Array.length_toList, List.length_map,
    Std.ExtTreeMap.length_toList]
  -- Field by field: it exceeds, and the encoding stops there, or it fits, and the encoding goes on.
  repeat
    split at h
    · rename_i exceeds
      cases h
      have exceeds := Nat.not_le.2 (of_decide_eq_true exceeds)
      simp only [exceeds, if_false]
      rfl
    rename_i fits
    have fits := Nat.not_lt.1 (of_decide_eq_false fits)
    simp only [fits, if_true, ok_bind]
  cases h

end WordMachine.Snapshot

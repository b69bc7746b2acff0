import Mathlib.Tactic.IntervalCases
import WordMachine.Proofs.Snapshot.Layout

/-!
Encoded snapshots read back. Each reader takes the bytes of its field and leaves what follows them;
`decode_bytes_append` puts the fields together, and `encoding_round_trips` says which snapshots are
encoded, and what the others fail with.
-/

namespace WordMachine.Snapshot

namespace Reader

/-- The reader reads the value from just these bytes, whatever follows them. -/
def Takes (r : Reader α) (bytes : List UInt8) (a : α) : Prop :=
  ∀ offset rest, r.run ⟨offset, bytes ++ rest⟩ = .ok (a, ⟨offset + bytes.length, rest⟩)

theorem Takes.bind {r : Reader α} {f : α → Reader β} {front back : List UInt8} {a : α} {b : β}
    (first : Takes r front a) (second : Takes (f a) back b) :
    Takes (r >>= f) (front ++ back) b := by
  intro offset rest
  rw [StateT.run_bind, List.append_assoc, first offset (back ++ rest)]
  change (f a).run ⟨offset + front.length, back ++ rest⟩ = _
  rw [second, List.length_append, Nat.add_assoc]

theorem takes_pure (a : α) : Takes (pure a : Reader α) [] a := fun _ _ => rfl

theorem takes_word (w : Word) : Takes word (Bytes.ofWord w) w := by
  intro offset rest
  change Except.ok (Bytes.toWord w.toUInt8 (UInt8.ofNat (w.toNat / 256)), _) = _
  rw [Bytes.toWord_ofWord]
  rfl

theorem toNat_length {n : Nat} (h : n ≤ maxLength) : (UInt16.ofNat n).toNat = n := by
  apply UInt16.toNat_ofNat_of_lt'
  simp only [maxLength, UInt16.size] at *
  omega

theorem takes_wordsOnto (read : Array Word) (ws : List Word) :
    Takes (wordsOnto read ws.length) (ws.flatMap Bytes.ofWord) (read ++ ws.toArray) := by
  induction ws generalizing read with
  | nil => simpa [wordsOnto] using takes_pure read
  | cons w ws ih =>
    have rest := ih (read.push w)
    have joined : read.push w ++ ws.toArray = read ++ (w :: ws).toArray := by
      apply Array.ext'
      simp
    rw [joined] at rest
    exact (takes_word w).bind rest

theorem takes_words {ws : List Word} (fits : ws.length ≤ maxLength) :
    Takes words (countedWords ws) ws.toArray := by
  apply (takes_word _).bind
  rw [toNat_length fits]
  simpa using takes_wordsOnto #[] ws

theorem takes_bytes {bytes : List UInt8} {n : Nat} (h : bytes.length = n) :
    Takes (Reader.bytes n) bytes bytes := by
  subst h
  intro offset rest
  simp [StateT.run, Reader.bytes]

theorem takes_text (field : SnapshotField) {text : String} (fits : text.utf8ByteSize ≤ maxLength) :
    Takes (Reader.text field) (countedText text) text := by
  apply (takes_word _).bind
  rw [toNat_length fits, ← List.append_nil (Text.Utf8.encode text)]
  apply (takes_bytes (Text.Utf8.length_encode text)).bind
  rw [Text.Utf8.decode_encode]
  exact takes_pure text

end Reader

theorem changesOf_toList (changed : Changes) :
    changesOf (changed.toList.map Prod.fst) (changed.toList.map Prod.snd) = changed := by
  have pairs : changed.toList = (changed.toList.map Prod.fst).zip (changed.toList.map Prod.snd) :=
    List.zip_of_prod rfl rfl
  rw [changesOf, ← pairs, ← Std.ExtTreeMap.insertMany_list_eq_foldl]
  apply Std.ExtTreeMap.ext_getElem?
  intro a
  cases entry : changed[a]? with
  | some value =>
    apply Std.ExtTreeMap.getElem?_insertMany_list_of_mem (k := a) (by simp)
      Std.ExtTreeMap.distinct_keys_toList
    exact Std.ExtTreeMap.mem_toList_iff_getElem?_eq_some.2 entry
  | none =>
    have outside : a ∉ changed := by simp [← Std.ExtTreeMap.isSome_getElem?_iff_mem, entry]
    have absent : (changed.toList.map Prod.fst).contains a = false := by simpa using outside
    rw [Std.ExtTreeMap.getElem?_insertMany_list_of_contains_eq_false absent]
    simp

theorem exists_eight (v : Vector α 8) :
    ∃ a₀ a₁ a₂ a₃ a₄ a₅ a₆ a₇, v = #v[a₀, a₁, a₂, a₃, a₄, a₅, a₆, a₇] := by
  refine ⟨v[0], v[1], v[2], v[3], v[4], v[5], v[6], v[7], ?_⟩
  apply Vector.ext
  intro i h
  interval_cases i <;> rfl

theorem run_finish (offset : Nat) (rest : List UInt8) :
    Reader.finish.run ⟨offset, rest⟩ =
      if rest.isEmpty then .ok ((), ⟨offset, rest⟩) else .error (.trailing rest.length) := rfl

/-- The fields are read in the order in which they stand, and nothing may follow them. -/
theorem decode_bytes_append (l : Layout) (rest : List UInt8) :
    decode (l.bytes ++ rest) =
      if rest.isEmpty then .ok l.snapshot else .error (.trailing rest.length) := by
  have stack := Reader.takes_words l.stackFits
  have keys := Reader.takes_words l.keysFit
  have values := Reader.takes_words l.valuesFit
  have input := Reader.takes_text .input l.inputFits
  have echo := Reader.takes_text .echo l.echoFits
  have output := Reader.takes_text .output l.outputFits
  obtain ⟨r₀, r₁, r₂, r₃, r₄, r₅, r₆, r₇, registers⟩ := exists_eight l.registers
  simp only [Layout.bytes, registers, Vector.toList_mk, List.flatMap_cons, List.flatMap_nil,
    List.append_nil, List.append_assoc]
  -- A reader's law rewrites its run once the bytes in front of it are gone.
  simp only [decode, reader, StateT.run_bind, ok_bind, Reader.takes_word _ _ _, stack _ _, keys _ _,
    values _ _]
  simp only [List.size_toArray, l.paired, ne_eq, not_true_eq_false, if_false, StateT.run_bind,
    ok_bind, input _ _, echo _ _, output _ _, run_finish]
  split
  · simp only [Layout.snapshot, registers]
    rfl
  · rfl

theorem decode_bytes (l : Layout) : decode l.bytes = .ok l.snapshot := by
  simpa using decode_bytes_append l []

theorem snapshot_layout {s : Snapshot} (h : s.Encodable) : (s.layout h).snapshot = s := by
  simp only [Layout.snapshot, layout, changesOf_toList]

theorem encodable_of_encode {s : Snapshot} {bytes : List UInt8} (h : s.encode = .ok bytes) :
    s.Encodable := by
  rw [encodable_iff]
  cases oversized : s.oversized? with
  | none => rfl
  | some counted =>
    rw [encode_of_oversized oversized] at h
    cases h

theorem decode_encode {s : Snapshot} {bytes : List UInt8} (h : s.encode = .ok bytes) :
    decode bytes = .ok s := by
  have fits := encodable_of_encode h
  rw [encode_of_encodable fits] at h
  cases h
  rw [decode_bytes, snapshot_layout]

/-- A snapshot is encoded, and then reads back, just when its lengths are words; else the encoding
names the first length that is none. -/
theorem encoding_round_trips (s : Snapshot) :
    ((∃ bytes, s.encode = .ok bytes) ↔ s.Encodable) ∧
    (∀ bytes, s.encode = .ok bytes → decode bytes = .ok s) ∧
    ∀ error, s.encode = .error error ↔
      ∃ field length, s.oversized? = some (field, length) ∧ error = .tooLong field length := by
  refine ⟨⟨fun ⟨bytes, h⟩ => encodable_of_encode h, fun fits => ⟨_, encode_of_encodable fits⟩⟩,
    fun bytes => decode_encode, fun error => ?_⟩
  constructor
  · intro fails
    cases oversized : s.oversized? with
    | none =>
      rw [encode_of_encodable ((encodable_iff s).2 oversized)] at fails
      cases fails
    | some counted =>
      rw [encode_of_oversized oversized] at fails
      cases fails
      exact ⟨counted.1, counted.2, rfl, rfl⟩
  · rintro ⟨field, length, oversized, rfl⟩
    exact encode_of_oversized oversized

theorem encoding_round_trips_multibyte :
    let changed : Changes := Std.ExtTreeMap.insert ∅ 40000 1
    let s : Snapshot := { pc := 7, stack := #[10, 20], changed, output := "Thé" }
    let t : Snapshot := { s with stack := Array.replicate 65536 0 }
    (∃ bytes, s.encode = .ok bytes ∧ decode bytes = .ok s) ∧
      t.encode = .error (.tooLong .stack 65536) := by
  intro changed s t
  obtain ⟨encodes, decodes, -⟩ := encoding_round_trips s
  have fits : s.Encodable := ⟨by decide, by decide, by decide, by decide, by decide⟩
  obtain ⟨bytes, encoded⟩ := encodes.2 fits
  refine ⟨⟨bytes, encoded, decodes bytes encoded⟩, ?_⟩
  obtain ⟨-, -, fails⟩ := encoding_round_trips t
  have oversized : t.oversized? = some (.stack, 65536) := by
    simp only [oversized?, lengths, t, Array.size_replicate]
    rfl
  exact (fails _).2 ⟨.stack, 65536, oversized, rfl⟩

end WordMachine.Snapshot

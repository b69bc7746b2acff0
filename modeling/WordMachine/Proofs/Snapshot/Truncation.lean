import WordMachine.Proofs.Snapshot.RoundTrip

/-!
Encodings that are cut short or go on. A reader whose bytes are cut short says which piece it lacks,
be the cut in a number, in a list or in a character (`Reader.Lacks`), and fields put together lack
what the first field that is cut lacks. So no encoding begins another one (`encoding_prefix_free`).
-/

namespace WordMachine.Snapshot

namespace Reader

/-- Wherever these bytes are cut short, the reader fails for want of a piece that the cut falls
into. -/
def Lacks (r : Reader α) (bytes : List UInt8) : Prop :=
  ∀ start k, k < bytes.length → ∃ offset needed,
    r.run ⟨start, bytes.take k⟩ = .error (.truncated offset needed) ∧
      offset ≤ start + k ∧ start + k < offset + needed

/-- The reader reads the value from just these bytes, and from no fewer. -/
structure Delimits (r : Reader α) (bytes : List UInt8) (a : α) : Prop where
  takes : Takes r bytes a
  lacks : Lacks r bytes

theorem lacks_nil (r : Reader α) : Lacks r [] := by
  intro start k inside
  exact absurd inside (Nat.not_lt_zero k)

theorem Delimits.lacks_bind {r : Reader α} {f : α → Reader β} {front back : List UInt8} {a : α}
    (first : Delimits r front a) (rest : Lacks (f a) back) : Lacks (r >>= f) (front ++ back) := by
  intro start k inside
  rw [List.length_append] at inside
  rw [StateT.run_bind]
  by_cases early : k < front.length
  · obtain ⟨offset, needed, fails, before, behind⟩ := first.lacks start k early
    refine ⟨offset, needed, ?_, before, behind⟩
    rw [List.take_append_of_le_length early.le, fails]
    rfl
  · have whole : (front ++ back).take k = front ++ back.take (k - front.length) := by
      rw [List.take_append, List.take_of_length_le (Nat.not_lt.1 early)]
    obtain ⟨offset, needed, fails, before, behind⟩ :=
      rest (start + front.length) (k - front.length) (by omega)
    refine ⟨offset, needed, ?_, by omega, by omega⟩
    rw [whole, first.takes]
    exact fails

theorem delimits_word (w : Word) : Delimits word (Bytes.ofWord w) w where
  takes := takes_word w
  lacks start k inside := by
    have few : k = 0 ∨ k = 1 := by
      simp only [Bytes.ofWord, List.length_cons, List.length_nil] at inside
      omega
    refine ⟨start, 2, ?_, by omega, by omega⟩
    obtain rfl | rfl := few <;> rfl

/-- Words are counted before they are read, and each is missed when its turn comes. -/
theorem lacks_wordsOnto (read : Array Word) (ws : List Word) :
    Lacks (wordsOnto read ws.length) (ws.flatMap Bytes.ofWord) := by
  induction ws generalizing read with
  | nil => exact lacks_nil _
  | cons w ws ih => exact (delimits_word w).lacks_bind (ih (read.push w))

theorem delimits_words {ws : List Word} (fits : ws.length ≤ maxLength) :
    Delimits words (countedWords ws) ws.toArray where
  takes := takes_words fits
  lacks := by
    apply (delimits_word _).lacks_bind
    rw [toNat_length fits]
    exact lacks_wordsOnto #[] ws

theorem delimits_bytes {bytes : List UInt8} {n : Nat} (h : bytes.length = n) :
    Delimits (Reader.bytes n) bytes bytes where
  takes := takes_bytes h
  lacks start k inside := by
    have short : ((bytes.take k).take n).length ≠ n := by
      simp only [List.length_take]
      omega
    refine ⟨start, n, ?_, by omega, by omega⟩
    simp only [StateT.run, Reader.bytes, short, if_false]

/-- Whether bytes are good UTF-8 is not asked before all of them are there. -/
theorem delimits_text (field : SnapshotField) {text : String}
    (fits : text.utf8ByteSize ≤ maxLength) :
    Delimits (Reader.text field) (countedText text) text where
  takes := takes_text field fits
  lacks := by
    apply (delimits_word _).lacks_bind
    rw [toNat_length fits, ← List.append_nil (Text.Utf8.encode text)]
    exact (delimits_bytes (Text.Utf8.length_encode text)).lacks_bind (lacks_nil _)

end Reader

theorem lacks_reader (l : Layout) : Reader.Lacks reader l.bytes := by
  obtain ⟨r₀, r₁, r₂, r₃, r₄, r₅, r₆, r₇, registers⟩ := exists_eight l.registers
  simp only [Layout.bytes, registers, Vector.toList_mk, List.flatMap_cons, List.flatMap_nil,
    List.append_nil, List.append_assoc]
  rw [← List.append_nil (countedText l.output)]
  -- The program counter and the eight registers.
  iterate 9 apply (Reader.delimits_word _).lacks_bind
  apply (Reader.delimits_words l.stackFits).lacks_bind
  apply (Reader.delimits_words l.keysFit).lacks_bind
  apply (Reader.delimits_words l.valuesFit).lacks_bind
  -- Both lists of changes are there by now, so they are found to be paired.
  simp only [List.size_toArray, l.paired, ne_eq, not_true_eq_false, if_false]
  apply (Reader.delimits_text .input l.inputFits).lacks_bind
  apply (Reader.delimits_text .echo l.echoFits).lacks_bind
  apply (Reader.delimits_text .output l.outputFits).lacks_bind
  exact Reader.lacks_nil _

theorem decode_take (l : Layout) {k : Nat} (inside : k < l.bytes.length) :
    ∃ offset needed, decode (l.bytes.take k) = .error (.truncated offset needed) ∧
      offset ≤ k ∧ k < offset + needed := by
  obtain ⟨offset, needed, fails, before, behind⟩ := lacks_reader l 0 k inside
  rw [Nat.zero_add] at before behind
  refine ⟨offset, needed, ?_, before, behind⟩
  rw [decode, fails]
  rfl

/-- An encoding that is cut short is found to be truncated, at a piece that the cut falls into; one
that goes on is refused with the number of bytes that are too many. So none begins another one. -/
theorem encoding_prefix_free {s : Snapshot} {bytes : List UInt8} (h : s.encode = .ok bytes) :
    (∀ k < bytes.length, ∃ offset needed,
      decode (bytes.take k) = .error (.truncated offset needed) ∧
        offset ≤ k ∧ k < offset + needed) ∧
    (∀ extra, extra ≠ [] → decode (bytes ++ extra) = .error (.trailing extra.length)) ∧
    ∀ (t : Snapshot) (bytes' : List UInt8), t.encode = .ok bytes' → bytes <+: bytes' → t = s := by
  have fits := encodable_of_encode h
  rw [encode_of_encodable fits] at h
  cases h
  have goesOn (extra : List UInt8) (more : extra ≠ []) :
      decode ((s.layout fits).bytes ++ extra) = .error (.trailing extra.length) := by
    rw [decode_bytes_append, if_neg (by simpa using more)]
  refine ⟨fun k inside => decode_take _ inside, goesOn, ?_⟩
  rintro t _ encoded ⟨extra, rfl⟩
  have decoded := decode_encode encoded
  by_cases more : extra = []
  · rw [more, List.append_nil, decode_bytes, snapshot_layout] at decoded
    exact (Except.ok.inj decoded).symm
  · rw [goesOn extra more] at decoded
    cases decoded

/-- A cut between the two lists of changes, one inside a character, and a byte too many. -/
theorem encoding_prefix_free_multibyte :
    let s : Snapshot :=
      { pc := 7, stack := #[10], changed := Std.ExtTreeMap.insert ∅ 40000 1, output := "é" }
    ∃ bytes, s.encode = .ok bytes ∧
      (∃ offset needed, decode (bytes.take 26) = .error (.truncated offset needed) ∧
        offset ≤ 26 ∧ 26 < offset + needed) ∧
      (∃ offset needed, decode (bytes.take 37) = .error (.truncated offset needed) ∧
        offset ≤ 37 ∧ 37 < offset + needed) ∧
      decode (bytes ++ [0]) = .error (.trailing 1) := by
  intro s
  have fits : s.Encodable := ⟨by decide, by decide, by decide, by decide, by decide⟩
  have encoded := encode_of_encodable fits
  have length : (s.layout fits).bytes.length = 38 := rfl
  obtain ⟨cut, goesOn, -⟩ := encoding_prefix_free encoded
  exact ⟨_, encoded, cut 26 (by omega), cut 37 (by omega), goesOn [0] (by simp)⟩

end WordMachine.Snapshot

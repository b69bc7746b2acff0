import Mathlib.Data.List.Sort
import WordMachine.Proofs.Snapshot.RoundTrip

/-!
The bytes that decode. They are the layouts, and each layout reads as the snapshot that it
describes (`decodes_exactly_layouts`): whatever is read was put together from the fields of a
layout, and two layouts with the same bytes are one. The addresses of a layout may come in any order
and more than once; it is the encoding of its snapshot just when they ascend.
-/

namespace WordMachine.Snapshot

namespace Reader

variable {source left : Source}

theorem rest_of_word {w : Word} (h : word.run source = .ok (w, left)) :
    source.rest = Bytes.ofWord w ++ left.rest := by
  simp only [StateT.run, word] at h
  split at h
  · rename_i low high rest bytes
    cases h
    rw [Bytes.ofWord_toWord, bytes]
    rfl
  · cases h

theorem rest_of_wordsOnto {read ws : Array Word} {n : Nat}
    (h : (wordsOnto read n).run source = .ok (ws, left)) :
    ∃ new : List Word, new.length = n ∧ ws.toList = read.toList ++ new ∧
      source.rest = new.flatMap Bytes.ofWord ++ left.rest := by
  induction n generalizing read source with
  | zero =>
    cases h
    exact ⟨[], rfl, by simp, by simp⟩
  | succ n ih =>
    simp only [wordsOnto, StateT.run_bind, bind_eq_ok] at h
    obtain ⟨⟨w, between⟩, first, h⟩ := h
    obtain ⟨new, length, words, rest⟩ := ih h
    refine ⟨w :: new, by rw [List.length_cons, length], by simp [words], ?_⟩
    rw [rest_of_word first, rest, List.flatMap_cons, List.append_assoc]

theorem rest_of_words {ws : Array Word} (h : words.run source = .ok (ws, left)) :
    ws.size ≤ maxLength ∧ source.rest = countedWords ws.toList ++ left.rest := by
  simp only [words, StateT.run_bind, bind_eq_ok] at h
  obtain ⟨⟨length, between⟩, first, h⟩ := h
  obtain ⟨new, number, same, rest⟩ := rest_of_wordsOnto h
  have size : ws.toList.length = length.toNat := by simp [same, number]
  have bound := length.toNat_lt
  constructor
  · rw [← Array.length_toList, size, maxLength]
    omega
  · rw [rest_of_word first, rest, countedWords, size, UInt16.ofNat_toNat, List.append_assoc, same]
    simp

theorem rest_of_bytes {n : Nat} {bytes : List UInt8}
    (h : (Reader.bytes n).run source = .ok (bytes, left)) :
    bytes.length = n ∧ source.rest = bytes ++ left.rest := by
  simp only [StateT.run, Reader.bytes] at h
  split at h
  · rename_i length
    cases h
    exact ⟨length, (List.take_append_drop n source.rest).symm⟩
  · cases h

theorem rest_of_text {field : SnapshotField} {text : String}
    (h : (Reader.text field).run source = .ok (text, left)) :
    text.utf8ByteSize ≤ maxLength ∧ source.rest = countedText text ++ left.rest := by
  simp only [Reader.text, StateT.run_bind, bind_eq_ok] at h
  obtain ⟨⟨length, between⟩, first, ⟨bytes, between'⟩, second, h⟩ := h
  obtain ⟨size, rest⟩ := rest_of_bytes second
  cases decoded : Text.Utf8.decode bytes with
  | error fault =>
    rw [decoded] at h
    cases h
  | ok text =>
    rw [decoded] at h
    cases h
    have bound := length.toNat_lt
    replace size : text.utf8ByteSize = length.toNat := by
      rw [← Text.Utf8.length_encode, Text.Utf8.encode_of_decode decoded, size]
    constructor
    · rw [size, maxLength]
      omega
    · rw [rest_of_word first, rest, countedText, size, UInt16.ofNat_toNat, List.append_assoc,
        Text.Utf8.encode_of_decode decoded]

theorem rest_of_finish {u : Unit} (h : finish.run source = .ok (u, left)) : source.rest = [] := by
  simp only [StateT.run, finish] at h
  split at h
  · rename_i empty
    exact List.isEmpty_iff.1 empty
  · cases h

/-- What is read does not depend on what stands behind it. -/
theorem Takes.unique {r : Reader α} {front front' back back' : List UInt8} {a a' : α}
    (h : Takes r front a) (h' : Takes r front' a') (same : front ++ back = front' ++ back') :
    a = a' ∧ back = back' := by
  have run := h 0 back
  rw [same, h' 0 back'] at run
  injection run with read
  injection read with value source
  injection source with _ rest
  exact ⟨value.symm, rest.symm⟩

end Reader

theorem layout_of_decode {bytes : List UInt8} {s : Snapshot} (h : decode bytes = .ok s) :
    ∃ l : Layout, l.bytes = bytes ∧ l.snapshot = s := by
  cases run : reader.run ⟨0, bytes⟩ with
  | error e =>
    rw [decode, run] at h
    cases h
  | ok read =>
  rw [decode, run] at h
  cases h
  obtain ⟨s, left⟩ := read
  simp only [reader, StateT.run_bind, bind_eq_ok] at run
  obtain ⟨⟨pc, s₀⟩, pcRead, ⟨r₀, s₁⟩, read₀, ⟨r₁, s₂⟩, read₁, ⟨r₂, s₃⟩, read₂, ⟨r₃, s₄⟩, read₃,
    ⟨r₄, s₅⟩, read₄, ⟨r₅, s₆⟩, read₅, ⟨r₆, s₇⟩, read₆, ⟨r₇, s₈⟩, read₇, ⟨stack, s₉⟩, stackRead,
    ⟨keys, s₁₀⟩, keysRead, ⟨values, s₁₁⟩, valuesRead, run⟩ := run
  obtain ⟨stackFits, stackRest⟩ := Reader.rest_of_words stackRead
  obtain ⟨keysFit, keysRest⟩ := Reader.rest_of_words keysRead
  obtain ⟨-, valuesRest⟩ := Reader.rest_of_words valuesRead
  by_cases paired : keys.size = values.size
  · simp only [paired, ne_eq, not_true_eq_false, if_false, StateT.run_bind, bind_eq_ok] at run
    obtain ⟨⟨input, s₁₂⟩, inputRead, ⟨echo, s₁₃⟩, echoRead, ⟨output, s₁₄⟩, outputRead,
      ⟨u, s₁₅⟩, finished, run⟩ := run
    obtain ⟨inputFits, inputRest⟩ := Reader.rest_of_text inputRead
    obtain ⟨echoFits, echoRest⟩ := Reader.rest_of_text echoRead
    obtain ⟨outputFits, outputRest⟩ := Reader.rest_of_text outputRead
    cases run
    let l : Layout :=
      { pc, registers := #v[r₀, r₁, r₂, r₃, r₄, r₅, r₆, r₇], stack := stack.toList,
        keys := keys.toList, values := values.toList, input, echo, output,
        stackFits, keysFit, paired, inputFits, echoFits, outputFits }
    refine ⟨l, ?_, rfl⟩
    change l.bytes = (⟨0, bytes⟩ : Source).rest
    rw [Reader.rest_of_word pcRead, Reader.rest_of_word read₀, Reader.rest_of_word read₁,
      Reader.rest_of_word read₂, Reader.rest_of_word read₃, Reader.rest_of_word read₄,
      Reader.rest_of_word read₅, Reader.rest_of_word read₆, Reader.rest_of_word read₇, stackRest,
      keysRest, valuesRest, inputRest, echoRest, outputRest, Reader.rest_of_finish finished]
    simp [Layout.bytes, l]
  · simp only [paired, ne_eq, not_false_eq_true, if_true] at run
    cases run

theorem takes_registers (registers : Registers) :
    Reader.Takes (Reader.wordsOnto #[] 8) (registers.toList.flatMap Bytes.ofWord)
      registers.toList.toArray := by
  have takes := Reader.takes_wordsOnto #[] registers.toList
  rw [Vector.length_toList] at takes
  simpa using takes

theorem bytes_injective {l l' : Layout} (same : l.bytes = l'.bytes) : l = l' := by
  obtain ⟨pc, same⟩ := (Reader.takes_word l.pc).unique (Reader.takes_word l'.pc) same
  obtain ⟨registers, same⟩ :=
    (takes_registers l.registers).unique (takes_registers l'.registers) same
  obtain ⟨stack, same⟩ :=
    (Reader.takes_words l.stackFits).unique (Reader.takes_words l'.stackFits) same
  obtain ⟨keys, same⟩ :=
    (Reader.takes_words l.keysFit).unique (Reader.takes_words l'.keysFit) same
  obtain ⟨values, same⟩ :=
    (Reader.takes_words l.valuesFit).unique (Reader.takes_words l'.valuesFit) same
  obtain ⟨input, same⟩ :=
    (Reader.takes_text .input l.inputFits).unique (Reader.takes_text .input l'.inputFits) same
  obtain ⟨echo, same⟩ :=
    (Reader.takes_text .echo l.echoFits).unique (Reader.takes_text .echo l'.echoFits) same
  rw [← List.append_nil (countedText l.output), ← List.append_nil (countedText l'.output)] at same
  obtain ⟨output, -⟩ :=
    (Reader.takes_text .output l.outputFits).unique (Reader.takes_text .output l'.outputFits) same
  exact Layout.ext pc (Vector.toList_inj.1 (List.toArray_inj registers)) (List.toArray_inj stack)
    (List.toArray_inj keys) (List.toArray_inj values) input echo output

namespace Layout

/-- The value is the one at the last place of the address. -/
def Assigns (l : Layout) (a value : Word) : Prop :=
  ∃ front back, l.keys.zip l.values = front ++ (a, value) :: back ∧ ∀ pair ∈ back, pair.1 ≠ a

/-- The snapshot has the fields of the layout, and its changes are those that the layout assigns. -/
structure Describes (l : Layout) (s : Snapshot) : Prop where
  pc : s.pc = l.pc
  registers : s.registers = l.registers
  stack : s.stack.toList = l.stack
  changed : ∀ a value, s.changed[a]? = some value ↔ l.Assigns a value
  input : s.input = l.input
  echo : s.echo = l.echo
  output : s.output = l.output

theorem getElem?_changesOf (l : Layout) (a value : Word) :
    (changesOf l.keys l.values)[a]? = some value ↔ l.Assigns a value := by
  rw [changesOf, ← Std.ExtTreeMap.insertMany_list_eq_foldl, Std.ExtTreeMap.getElem?_insertMany_list,
    List.findSomeRev?_eq_findSome?_reverse, Assigns]
  simp only [Std.ExtTreeMap.getElem?_empty, Option.or_none, List.findSome?_eq_some_iff,
    Std.LawfulEqCmp.compare_eq_iff_eq, ite_eq_right_iff, reduceCtorEq, imp_false]
  constructor
  · rintro ⟨back, ⟨b, w⟩, front, places, found, last⟩
    obtain ⟨rfl, rfl⟩ : b = a ∧ w = value := by simpa using found
    refine ⟨front.reverse, back.reverse, ?_, fun pair later => last pair (List.mem_reverse.1 later)⟩
    rw [← List.reverse_reverse (l.keys.zip l.values), places]
    simp
  · rintro ⟨front, back, places, last⟩
    refine ⟨back.reverse, (a, value), front.reverse, ?_, by simp,
      fun pair later => last pair (List.mem_reverse.1 later)⟩
    rw [places]
    simp

theorem describes_iff (l : Layout) (s : Snapshot) : l.Describes s ↔ l.snapshot = s := by
  constructor
  · intro h
    have changed : l.snapshot.changed = s.changed := by
      apply Std.ExtTreeMap.ext_getElem?
      intro a
      apply Option.ext
      intro value
      exact (l.getElem?_changesOf a value).trans (h.changed a value).symm
    have stack : l.snapshot.stack = s.stack := Array.ext' h.stack.symm
    calc l.snapshot = { l.snapshot with stack := s.stack, changed := s.changed } := by
          rw [← stack, ← changed]
      _ = s := by simp only [snapshot, ← h.pc, ← h.registers, ← h.input, ← h.echo, ← h.output]
  · rintro rfl
    exact ⟨rfl, rfl, rfl, l.getElem?_changesOf, rfl, rfl, rfl⟩

theorem assigns_iff_of_nodup {l : Layout} (distinct : l.keys.Nodup) (a value : Word) :
    l.Assigns a value ↔ (a, value) ∈ l.keys.zip l.values := by
  constructor
  · rintro ⟨front, back, places, -⟩
    simp [places]
  · intro place
    obtain ⟨front, back, places⟩ := List.append_of_mem place
    refine ⟨front, back, places, ?_⟩
    rw [← List.map_fst_zip l.paired.le, places, List.map_append, List.map_cons] at distinct
    have last := (List.nodup_cons.1 (List.nodup_append.1 distinct).2.1).1
    exact fun pair later same => last (List.mem_map.2 ⟨pair, later, same⟩)

/-- Both lists ascend and have the same pairs. -/
theorem toList_changesOf {l : Layout} (ascending : l.keys.Pairwise (· < ·)) :
    (changesOf l.keys l.values).toList = l.keys.zip l.values := by
  have pairs : (l.keys.zip l.values).Pairwise fun p q => p.1 < q.1 := by
    rwa [← List.map_fst_zip l.paired.le, List.pairwise_map] at ascending
  have ordered : (changesOf l.keys l.values).toList.Pairwise fun p q => p.1 < q.1 :=
    Std.ExtTreeMap.ordered_keys_toList.imp Std.compare_eq_lt.1
  have apart {ps : List (Word × Word)} (h : ps.Pairwise fun p q => p.1 < q.1) : ps.Nodup :=
    h.imp fun below => mt (congrArg Prod.fst) (UInt16.ne_of_lt below)
  apply List.Perm.eq_of_pairwise _ ordered pairs
  · rw [List.perm_ext_iff_of_nodup (apart ordered) (apart pairs)]
    rintro ⟨a, value⟩
    rw [Std.ExtTreeMap.mem_toList_iff_getElem?_eq_some, getElem?_changesOf,
      assigns_iff_of_nodup (ascending.imp UInt16.ne_of_lt)]
  · intro p q _ _ below above
    exact absurd (UInt16.lt_trans below above) (UInt16.lt_irrefl _)

theorem encode_snapshot {l : Layout} (ascending : l.keys.Pairwise (· < ·)) :
    l.snapshot.encode = .ok l.bytes := by
  have pairs : l.snapshot.changed.toList = l.keys.zip l.values := toList_changesOf ascending
  have counted : l.snapshot.changed.size = l.keys.length := by
    rw [← Std.ExtTreeMap.length_toList, pairs, List.length_zip, l.paired, Nat.min_self]
  have fits : l.snapshot.Encodable :=
    ⟨l.stackFits, counted ▸ l.keysFit, l.inputFits, l.echoFits, l.outputFits⟩
  have keys : (l.snapshot.layout fits).keys = l.keys :=
    (congrArg (List.map Prod.fst) pairs).trans (List.map_fst_zip l.paired.le)
  have values : (l.snapshot.layout fits).values = l.values :=
    (congrArg (List.map Prod.snd) pairs).trans (List.map_snd_zip l.paired.ge)
  have same : l.snapshot.layout fits = l := Layout.ext rfl rfl rfl keys values rfl rfl rfl
  rw [encode_of_encodable fits, same]

theorem ascending_of_encode {l : Layout} (h : l.snapshot.encode = .ok l.bytes) :
    l.keys.Pairwise (· < ·) := by
  have fits := encodable_of_encode h
  rw [encode_of_encodable fits] at h
  have same : l.snapshot.layout fits = l := bytes_injective (Except.ok.inj h)
  rw [← same, layout, List.pairwise_map]
  exact Std.ExtTreeMap.ordered_keys_toList.imp Std.compare_eq_lt.1

end Layout

/-- The bytes that decode are the layouts, and among the layouts of a snapshot its encoding is the
one whose addresses ascend. -/
theorem decodes_exactly_layouts (bytes : List UInt8) (s : Snapshot) :
    (decode bytes = .ok s ↔ ∃ l : Layout, bytes = l.bytes ∧ l.Describes s) ∧
    ∀ l : Layout, bytes = l.bytes → l.Describes s →
      (s.encode = .ok bytes ↔ l.keys.Pairwise (· < ·)) := by
  refine ⟨⟨fun decodes => ?_, ?_⟩, ?_⟩
  · obtain ⟨l, rfl, same⟩ := layout_of_decode decodes
    exact ⟨l, rfl, (l.describes_iff s).2 same⟩
  · rintro ⟨l, rfl, describes⟩
    obtain rfl := (l.describes_iff s).1 describes
    exact decode_bytes l
  · rintro l rfl describes
    obtain rfl := (l.describes_iff s).1 describes
    exact ⟨Layout.ascending_of_encode, Layout.encode_snapshot⟩

/-- An address stands twice; the later value is read, and the bytes are not the encoding. -/
theorem decodes_exactly_layouts_repeated :
    let l : Layout :=
      { pc := 7, registers := Bank.fill 0, stack := [10, 20], keys := [5, 3, 5],
        values := [1, 2, 9], input := "", echo := "", output := "Thé", stackFits := by decide,
        keysFit := by decide, paired := rfl, inputFits := by decide, echoFits := by decide,
        outputFits := by decide }
    ∃ s, decode l.bytes = .ok s ∧ s.changed[(5 : Word)]? = some 9 ∧ s.encode ≠ .ok l.bytes := by
  intro l
  have describes : l.Describes l.snapshot := (l.describes_iff l.snapshot).2 rfl
  obtain ⟨accepts, canonical⟩ := decodes_exactly_layouts l.bytes l.snapshot
  refine ⟨l.snapshot, accepts.2 ⟨l, rfl, describes⟩, ?_, ?_⟩
  · exact (describes.changed 5 9).2 ⟨[(5, 1), (3, 2)], [], rfl, nofun⟩
  · rw [ne_eq, canonical l rfl describes]
    decide

end WordMachine.Snapshot

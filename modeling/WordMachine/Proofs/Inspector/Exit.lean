import WordMachine.Proofs.Inspector.Save
import WordMachine.Proofs.Snapshot.Grammar

/-!
How the inspector ends. What it gives up for is a fault of its input, a file or an address in one
(`blamesInput_report`): the one failure of another kind, a save without a content address, cannot
come up, because the lengths that were read from an archive are lengths that can be written
(`encodable_of_ofArchive`).
-/

namespace WordMachine

namespace Snapshot

/-- A repeated address counts once. -/
theorem size_changesOf_le (keys values : List Word) :
    (changesOf keys values).size ≤ keys.length := by
  rw [changesOf, ← Std.ExtTreeMap.insertMany_list_eq_foldl]
  calc (Std.ExtTreeMap.insertMany ∅ (keys.zip values) : Changes).size
      ≤ (∅ : Changes).size + (keys.zip values).length := Std.ExtTreeMap.size_insertMany_list_le
    _ ≤ keys.length := by
      rw [Std.ExtTreeMap.size_empty, List.length_zip]
      omega

theorem Layout.encodable (l : Layout) : l.snapshot.Encodable where
  stack := by simpa [Layout.snapshot] using l.stackFits
  changed := (size_changesOf_le l.keys l.values).trans l.keysFit
  input := l.inputFits
  echo := l.echoFits
  output := l.outputFits

theorem encodable_of_decode {raw : List UInt8} {s : Snapshot} (h : decode raw = .ok s) :
    s.Encodable := by
  obtain ⟨l, -, rfl⟩ := layout_of_decode h
  exact l.encodable

theorem encodable_of_ofArchive {saved : List UInt8} {s : Snapshot} (h : ofArchive saved = .ok s) :
    s.Encodable := by
  simp only [ofArchive, bind_eq_ok, Inspector.mapError_eq_ok] at h
  obtain ⟨raw, -, decoded⟩ := h
  exact encodable_of_decode decoded

theorem Layout.length_bytes_le (l : Layout) : l.bytes.length ≤ 30 + 9 * maxLength := by
  have registers : l.registers.toList.length = 8 := Vector.length_toList
  have := l.stackFits
  have := l.keysFit
  have := l.valuesFit
  have := l.inputFits
  have := l.echoFits
  have := l.outputFits
  simp only [bytes, countedWords, countedText, List.length_append, length_flatMap_ofWord, registers,
    Text.Utf8.length_encode, Bytes.ofWord, List.length_cons, List.length_nil]
  omega

/-- Any layout may stand in an archive, also one that no machine writes. -/
theorem ofArchive_single (l : Layout) :
    ofArchive (Zip.single entryName l.bytes) = .ok l.snapshot := by
  have nameLength : (Text.Utf8.encode entryName).length = 9 := by
    rw [Text.Utf8.length_encode]
    rfl
  have length := l.length_bytes_le
  have packedLength := Deflate.length_store_le l.bytes
  have fits : Zip.Fits (Text.Utf8.encode entryName) l.bytes := by
    constructor
    · rw [nameLength]
      decide
    · rw [Zip.length_entryBytes, nameLength, Zip.plainLimit]
      rw [maxLength] at length
      omega
  rw [ofArchive, Zip.extract_single fits]
  simp only [Except.mapError, ok_bind, decode_bytes]

end Snapshot

namespace Inspector

/-- Whatever goes wrong is a fault of the input. -/
def BlamesInput (x : Except Failure α) : Prop :=
  ∀ failure, x = .error failure → failure.exitCode = 2

theorem blamesInput_ok (a : α) : BlamesInput (.ok a) := nofun

theorem blamesInput_mapError {x : Except ε α} {f : ε → Failure} (h : ∀ e, (f e).exitCode = 2) :
    BlamesInput (x.mapError f) := by
  intro failure fails
  cases x with
  | error e =>
    cases fails
    exact h e
  | ok a => cases fails

theorem BlamesInput.bind {x : Except Failure α} {f : α → Except Failure β} (first : BlamesInput x)
    (next : ∀ a, x = .ok a → BlamesInput (f a)) : BlamesInput (x >>= f) := by
  intro failure fails
  cases x with
  | error e =>
    cases fails
    exact first _ rfl
  | ok a => exact next a rfl failure fails

theorem blamesInput_readFile (files : Files) (path : String) : BlamesInput (readFile files path) :=
  blamesInput_mapError fun _ => rfl

theorem blamesInput_loadMachine (files : Files) (text : Bool) (path : String) :
    BlamesInput (loadMachine files text path) := by
  refine (blamesInput_readFile files path).bind fun bytes _ => ?_
  cases text with
  | true =>
    exact (blamesInput_mapError fun _ => rfl).bind fun _ _ => blamesInput_mapError fun _ => rfl
  | false => exact blamesInput_mapError fun _ => rfl

theorem blamesInput_saveListing (files : Files) (text : Bool) (s : Snapshot) (window : Nat)
    (image : Option String) : BlamesInput (saveListing files text s window image) := by
  cases image with
  | none => exact blamesInput_ok _
  | some path => exact (blamesInput_loadMachine files text path).bind fun _ _ => blamesInput_ok _

theorem blamesInput_contentAddress {s : Snapshot} (h : s.Encodable) :
    BlamesInput (s.contentAddress.mapError Failure.noAddress) := by
  rw [Snapshot.contentAddress_of_encode (Snapshot.encode_of_encodable h)]
  exact blamesInput_ok _

theorem blamesInput_report (files : Files) (color : Bool) (invocation : Invocation) :
    BlamesInput (report files color invocation) := by
  obtain ⟨text, json, command⟩ := invocation
  cases command with
  | dump image start count =>
    exact (blamesInput_loadMachine files text image).bind fun _ _ => blamesInput_ok _
  | decode image addr =>
    refine (blamesInput_loadMachine files text image).bind fun m _ => ?_
    exact (blamesInput_mapError fun _ => rfl).bind fun _ _ => blamesInput_ok _
  | save archive image window =>
    refine (blamesInput_readFile files archive).bind fun bytes _ => ?_
    refine (blamesInput_mapError fun _ => rfl).bind fun s decoded => ?_
    have fits := Snapshot.encodable_of_ofArchive (mapError_eq_ok.1 decoded)
    refine (blamesInput_contentAddress fits).bind fun address _ => ?_
    refine (blamesInput_saveListing files text s window image).bind fun entries _ => ?_
    cases json <;> exact blamesInput_ok _

/-- A command is answered, with code zero, or given up for a fault of its input, with code two. For
any bytes from which a snapshot is read, in whatever order its addresses stand and however often,
the snapshot is encoded again, and so has a content address. -/
theorem exits_with_zero_or_two (files : Files) (color : Bool) (invocation : Invocation) :
    ((∃ out, report files color invocation = .ok out ∧
        exitCode (report files color invocation) = 0) ∨
      ∃ failure, report files color invocation = .error failure ∧
        exitCode (report files color invocation) = 2) ∧
    ∀ (saved : List UInt8) (s : Snapshot), Snapshot.ofArchive saved = .ok s →
      ∃ raw, s.encode = .ok raw ∧ Snapshot.decode raw = .ok s ∧
        s.contentAddress = .ok ("b3:" ++ Blake3.hexDigest raw) := by
  constructor
  · have blames := blamesInput_report files color invocation
    cases answer : report files color invocation with
    | ok out => exact .inl ⟨out, rfl, rfl⟩
    | error failure => exact .inr ⟨failure, rfl, blames failure answer⟩
  · intro saved s read
    have encoded := Snapshot.encode_of_encodable (Snapshot.encodable_of_ofArchive read)
    exact ⟨_, encoded, Snapshot.decode_encode encoded, Snapshot.contentAddress_of_encode encoded⟩

/-- The stack is as long as a word can count, and an address stands twice, also behind a larger
one. -/
theorem exits_with_zero_or_two_maximal :
    let l : Snapshot.Layout :=
      { pc := 7, registers := Bank.fill 0, stack := List.replicate 65535 1, keys := [5, 3, 5],
        values := [1, 2, 9], input := "", echo := "", output := "Thé"
        stackFits := by rw [List.length_replicate, Snapshot.maxLength]
        keysFit := by decide, paired := rfl, inputFits := by decide, echoFits := by decide,
        outputFits := by decide }
    let saved := Zip.single Snapshot.entryName l.bytes
    let files : Files := fun _ => .ok saved
    Snapshot.ofArchive saved = .ok l.snapshot ∧ (∃ raw, l.snapshot.encode = .ok raw) ∧
      exitCode (report files false ⟨false, true, .save "slot" none 8⟩) = 0 ∧
      exitCode (report files false ⟨false, false, .dump "slot" 0 none⟩) ≠ 1 := by
  intro l saved files
  have read : Snapshot.ofArchive saved = .ok l.snapshot := Snapshot.ofArchive_single l
  obtain ⟨-, again⟩ := exits_with_zero_or_two files false ⟨false, true, .save "slot" none 8⟩
  obtain ⟨raw, encoded, -, addressed⟩ := again saved l.snapshot read
  obtain ⟨ends, -⟩ := exits_with_zero_or_two files false ⟨false, false, .dump "slot" 0 none⟩
  refine ⟨read, ⟨raw, encoded⟩, ?_, ?_⟩
  · have stored : files "slot" = .ok saved := rfl
    rw [report_save stored read addressed rfl]
    rfl
  · rcases ends with ⟨_, -, zero⟩ | ⟨_, -, two⟩
    · rw [zero]
      decide
    · rw [two]
      decide

end Inspector

end WordMachine

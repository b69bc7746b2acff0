import WordMachine.Proofs.Archive.Single
import WordMachine.Proofs.Operation
import WordMachine.Proofs.Snapshot.RoundTrip
import WordMachine.Snapshot.Archive

/-!
Restoring a machine to a snapshot, and to a saved state. `restore_exact` says what the machine is
afterwards, and that it does not depend on what the machine was before besides its image. A saved
state reads back because an encoding is short enough for an archive to hold it.
-/

namespace WordMachine

namespace Snapshot

theorem length_encodeLength {field : SnapshotField} {length : Nat} {bytes : List UInt8}
    (h : encodeLength field length = .ok bytes) : length ≤ maxLength ∧ bytes.length = 2 := by
  unfold encodeLength at h
  split at h
  · cases h
    exact ⟨by assumption, rfl⟩
  · cases h

theorem length_flatMap_ofWord (words : List Word) :
    (words.flatMap Bytes.ofWord).length = 2 * words.length := by
  induction words with
  | nil => rfl
  | cons w words ih =>
    rw [List.flatMap_cons, List.length_append, ih, List.length_cons]
    simp only [Bytes.ofWord, List.length_cons, List.length_nil]
    omega

theorem length_encodeWords_le {field : SnapshotField} {words : List Word} {bytes : List UInt8}
    (h : encodeWords field words = .ok bytes) : bytes.length ≤ 2 * maxLength + 2 := by
  simp only [encodeWords, bind_eq_ok, pure, Except.pure, Except.ok.injEq] at h
  obtain ⟨head, counted, rfl⟩ := h
  have short := length_encodeLength counted
  rw [List.length_append, length_flatMap_ofWord]
  omega

theorem length_encodeText_le {field : SnapshotField} {text : String} {bytes : List UInt8}
    (h : encodeText field text = .ok bytes) : bytes.length ≤ maxLength + 2 := by
  simp only [encodeText, bind_eq_ok, pure, Except.pure, Except.ok.injEq] at h
  obtain ⟨head, counted, rfl⟩ := h
  have short := length_encodeLength counted
  rw [List.length_append, Text.Utf8.length_encode]
  omega

/-- Nine words, three lists of words and three texts. -/
theorem length_encode_le {s : Snapshot} {bytes : List UInt8} (h : s.encode = .ok bytes) :
    bytes.length ≤ 18 + 3 * (2 * maxLength + 2) + 3 * (maxLength + 2) := by
  simp only [encode, bind_eq_ok, pure, Except.pure, Except.ok.injEq] at h
  obtain ⟨b₁, stacked, b₂, keyed, b₃, valued, b₄, inputted, b₅, echoed, b₆, outputted, rfl⟩ := h
  have stackLength := length_encodeWords_le stacked
  have keysLength := length_encodeWords_le keyed
  have valuesLength := length_encodeWords_le valued
  have inputLength := length_encodeText_le inputted
  have echoLength := length_encodeText_le echoed
  have outputLength := length_encodeText_le outputted
  have pcLength : (Bytes.ofWord s.pc).length = 2 := rfl
  have registersLength : s.registers.toList.length = 8 := Vector.length_toList
  simp only [List.length_append, length_flatMap_ofWord, registersLength, pcLength]
  omega

/-- What an archive gives back unchanged is read as the snapshot that was encoded. -/
theorem ofArchive_of_extract {s : Snapshot} {raw bytes : List UInt8} (h : s.encode = .ok raw)
    (kept : (Zip.read bytes >>= (·.extract entryName)) = .ok raw) : ofArchive bytes = .ok s := by
  unfold ofArchive
  rw [kept]
  simp only [Except.mapError, ok_bind, decode_encode h]

theorem extract_toArchive {s : Snapshot} {bytes : List UInt8} (h : s.toArchive = .ok bytes) :
    ∃ raw, s.encode = .ok raw ∧ (Zip.read bytes >>= (·.extract entryName)) = .ok raw := by
  unfold toArchive at h
  cases encoded : s.encode with
  | error e => simp [encoded, Except.map] at h
  | ok raw =>
    rw [encoded] at h
    cases h
    refine ⟨raw, rfl, ?_⟩
    have nameLength : (Text.Utf8.encode entryName).length = 9 := by
      rw [Text.Utf8.length_encode]
      rfl
    have rawLength := length_encode_le encoded
    have packedLength := Deflate.length_store_le raw
    apply Zip.extract_single
    constructor
    · rw [nameLength]
      decide
    · rw [Zip.length_entryBytes, nameLength, Zip.plainLimit]
      rw [maxLength] at rawLength
      omega

end Snapshot

namespace Machine

/-- What is promised of a machine restored to a snapshot over an image. -/
structure RestoredTo (image : Array Word) (s : Snapshot) (m : Machine) : Prop where
  read : ∀ a, m.memory.read a = s.changed.getD a (image.getD a.toNat 0)
  pc : m.pc = s.pc
  registers : m.registers = s.registers
  stack : m.stack = s.stack
  input : m.console.input = s.input
  echo : m.console.echo = s.echo
  output : m.console.output = s.output
  lines : m.console.lines = #[]
  checkpoint : m.checkpoint = none
  branch : m.branch = none
  snapshot : m.snapshot =
    { s with changed := s.changed.filter fun a value => value != image.getD a.toNat 0 }

theorem restoredTo_restore (n : Machine) (s : Snapshot) :
    RestoredTo n.memory.image s (n.restore s) where
  read a := Memory.read_replaceChanged n.memory s.changed a
  pc := rfl
  registers := rfl
  stack := rfl
  input := by simp [restore, Console.input]
  echo := rfl
  output := rfl
  lines := rfl
  checkpoint := rfl
  branch := rfl
  snapshot := snapshot_restore n s

theorem restore_eq_of_image {n n' : Machine} (h : n'.memory.image = n.memory.image)
    (s : Snapshot) : n'.restore s = n.restore s := by
  have memory : n'.memory.replaceChanged s.changed = n.memory.replaceChanged s.changed := by
    have image : (n'.memory.replaceChanged s.changed).image =
      (n.memory.replaceChanged s.changed).image := h
    apply Memory.ext_read image
    intro a
    have loaded : n'.memory.loaded a = n.memory.loaded a := by simp [Memory.loaded, h]
    rw [Memory.read_replaceChanged, Memory.read_replaceChanged, loaded]
  simp only [restore, memory]

/-- The archive gives back the encoding of the machine's state, whichever way it is packed. -/
def SavedIn (m : Machine) (saved : List UInt8) : Prop :=
  ∃ raw, m.snapshot.encode = .ok raw ∧
    (Zip.read saved >>= (·.extract Snapshot.entryName)) = .ok raw

theorem resume_of_savedIn {m n : Machine} (h : m.memory.image = n.memory.image)
    {saved : List UInt8} (kept : m.SavedIn saved) : n.resume saved = .ok m.fork := by
  obtain ⟨raw, encoded, extracted⟩ := kept
  rw [resume, Snapshot.ofArchive_of_extract encoded extracted, ← restore_snapshot h]
  rfl

/-- A restored machine is the snapshot over its own image, and a saved state comes back whole. -/
theorem restore_exact (n : Machine) :
    (∀ s, RestoredTo n.memory.image s (n.restore s)) ∧
    (∀ (n' : Machine) s, n'.memory.image = n.memory.image → n'.restore s = n.restore s) ∧
    (∀ (m : Machine) saved, m.memory.image = n.memory.image →
      m.save = .ok saved ∨ m.SavedIn saved →
      ∃ r, n.resume saved = .ok r ∧ r.snapshot = m.snapshot ∧
        (∀ a, r.memory.read a = m.memory.read a) ∧ r.memory.extent = m.memory.extent) := by
  refine ⟨restoredTo_restore n, fun n' s h => restore_eq_of_image h s, ?_⟩
  intro m saved same h
  have kept : m.SavedIn saved := h.elim Snapshot.extract_toArchive id
  exact ⟨m.fork, resume_of_savedIn same kept, rfl, fun a => rfl, rfl⟩

/-- One machine changed a cell of the image, the other a cell past it. -/
theorem restore_exact_diverged :
    let m := ({ memory := Memory.ofImage [7, 8], pc := 3 } : Machine).write 1 9
    let n := ({ memory := Memory.ofImage [7, 8] } : Machine).write 9 2
    ∃ saved r, m.memory.image = n.memory.image ∧ m.save = .ok saved ∧ n.resume saved = .ok r ∧
      r.snapshot = m.snapshot ∧ r.memory.read 1 = 9 ∧ r.memory.read 9 = 0 := by
  intro m n
  have same : m.memory.image = n.memory.image := rfl
  obtain ⟨saved, h⟩ : ∃ saved, m.save = .ok saved := ⟨_, rfl⟩
  obtain ⟨r, resumed, snapshot, read, -⟩ := (restore_exact n).2.2 m saved same (.inl h)
  refine ⟨saved, r, same, h, resumed, snapshot, ?_, ?_⟩
  · rw [read]
    rfl
  · rw [read]
    rfl

end Machine

end WordMachine

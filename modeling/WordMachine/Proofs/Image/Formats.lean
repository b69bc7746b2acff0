import Mathlib.Data.Set.Function
import WordMachine.Machine
import WordMachine.Proofs.Image.Grammar

/-!
The two forms of an image, as decimal numerals and as raw bytes, lead to the same image or the same
error (`image_formats_agree`). The numerals may stand among any blanks, while an image has just one
form in bytes, and the bytes of images are all those of even number up to the limit.
-/

namespace WordMachine

namespace Image

open Text (isBlank Trims)

/-- The word in decimal, with any blanks around it. -/
def Padded (piece : List Char) (w : Word) : Prop :=
  ∃ front back, piece = front ++ w.toNat.repr.toList ++ back ∧ ∀ c ∈ front ++ back, isBlank c

/-- The words in decimal with commas between them. Of no words nothing but blanks is left. -/
def Written (words : List Word) (text : List Char) : Prop :=
  (words = [] ∧ ∀ c ∈ text, isBlank c) ∨
    words ≠ [] ∧ ∃ pieces, text = [','].intercalate pieces ∧ List.Forall₂ Padded pieces words

theorem Padded.spells {piece : List Char} {w : Word} (h : Padded piece w) : Spells piece w := by
  obtain ⟨front, back, rfl, blanks⟩ := h
  have shows : ∀ c ∈ w.toNat.repr.toList, ¬ isBlank c := fun c among =>
    Text.not_isBlank_of_isDigit (Text.Numeral.isDigit_of_mem_repr among)
  refine ⟨w.toNat.repr.toList, ⟨front, back, rfl, blanks, ?_, ?_⟩, Text.Numeral.denotes_repr _⟩
  · exact fun c first => shows c (List.mem_of_head? first)
  · exact fun c last => shows c (List.mem_of_getLast? last)

theorem Padded.comma_notMem {piece : List Char} {w : Word} (h : Padded piece w) : ',' ∉ piece := by
  obtain ⟨front, back, rfl, blanks⟩ := h
  intro among
  obtain (before | digit) | behind := (List.mem_append.1 among).imp_left List.mem_append.1
  · exact absurd (blanks ',' (List.mem_append_left back before)) (by decide)
  · exact absurd (Text.Numeral.isDigit_of_mem_repr digit) (by decide)
  · exact absurd (blanks ',' (List.mem_append_right front behind)) (by decide)

/-- The pieces of a written image are the padded words, for no comma stands in them. -/
theorem forall₂_spells_of_padded {pieces : List (List Char)} {words : List Word}
    (some : words ≠ []) (padded : List.Forall₂ Padded pieces words) :
    List.Forall₂ Spells (([','].intercalate pieces).splitOn ',') words := by
  have nonempty : pieces ≠ [] := by
    rintro rfl
    cases padded
    exact some rfl
  have unbroken : ∀ piece ∈ pieces, ',' ∉ piece := by
    clear some nonempty
    induction padded with
    | nil => simp
    | cons first _ ih => exact List.forall_mem_cons.2 ⟨first.comma_notMem, ih⟩
  rw [List.splitOn_intercalate ',' unbroken nonempty]
  exact padded.imp fun _ _ => Padded.spells

theorem ofText_of_written {words : List Word} {text : String} (h : Written words text.toList) :
    ofText text = checkSize words := by
  obtain ⟨rfl, blank⟩ | ⟨some, pieces, whole, padded⟩ := h
  · rw [ofText_of_blank blank]
    rfl
  · apply ofText_of_spells
    rw [whole]
    exact forall₂_spells_of_padded some padded

theorem ofBytes_succeeds_iff {bytes : List UInt8} :
    (∃ words, ofBytes bytes = .ok words) ↔ bytes.length % 2 = 0 ∧ bytes.length ≤ 65536 := by
  constructor
  · rintro ⟨words, read⟩
    obtain ⟨fits, rfl⟩ := ofBytes_eq_ok_iff.1 read
    rw [maxWords] at fits
    rw [length_toBytes]
    omega
  · rintro ⟨even, small⟩
    obtain ⟨words, rfl⟩ := Bytes.exists_words even
    refine ⟨words, ofBytes_eq_ok_iff.2 ⟨?_, rfl⟩⟩
    change (toBytes words).length ≤ 65536 at small
    rw [length_toBytes] at small
    rw [maxWords]
    omega

theorem bijOn_toBytes :
    Set.BijOn toBytes {words | words.length ≤ maxWords}
      {bytes | bytes.length % 2 = 0 ∧ bytes.length ≤ 65536} := by
  refine ⟨fun words fits => ?_, fun words _ words' _ same => ?_, fun bytes sound => ?_⟩
  · exact ofBytes_succeeds_iff.1 ⟨words, ofBytes_eq_ok_iff.2 ⟨fits, rfl⟩⟩
  · rw [← Bytes.pairs_flatMap_ofWord words, ← Bytes.pairs_flatMap_ofWord words']
    exact congrArg Bytes.pairs same
  · obtain ⟨words, read⟩ := ofBytes_succeeds_iff.2 sound
    exact ⟨words, ofBytes_eq_ok_iff.1 read⟩

/-- Both forms of an image are read alike, into equal machines, and with one limit. What is read as
bytes are the bytes of images, one for each. -/
theorem image_formats_agree (words : List Word) (bytes : List UInt8) :
    let image := if words.length ≤ 32768 then .ok words else .error (.tooLarge words.length)
    ofBytes (toBytes words) = image ∧
    (∀ text : String, Written words text.toList →
      ofText text = image ∧ Machine.ofText text = Machine.ofBytes (toBytes words) ∧
      (words.length ≤ 32768 → Machine.ofText text = .ok { memory := Memory.ofImage words })) ∧
    ((∃ read, ofBytes bytes = .ok read) ↔ bytes.length % 2 = 0 ∧ bytes.length ≤ 65536) ∧
    (∀ read, ofBytes bytes = .ok read → toBytes read = bytes) ∧
    Set.BijOn toBytes {words | words.length ≤ 32768}
      {bytes | bytes.length % 2 = 0 ∧ bytes.length ≤ 65536} := by
  intro image
  have fromBytes : ofBytes (toBytes words) = image := ofBytes_toBytes words
  refine ⟨fromBytes, fun text written => ?_, ofBytes_succeeds_iff,
    fun read same => (ofBytes_eq_ok_iff.1 same).2, bijOn_toBytes⟩
  have fromText : ofText text = image := ofText_of_written written
  refine ⟨fromText, ?_, fun fits => ?_⟩
  · rw [Machine.ofText, Machine.ofBytes, fromText, fromBytes]
  · have whole : image = .ok words := if_pos fits
    have loads : checkSize words = .ok words := whole
    rw [Machine.ofText, fromText, whole]
    change Machine.ofImage words = _
    rw [Machine.ofImage, loads]
    rfl

/-- Blanks stand around the numerals, and the text ends with a newline. -/
theorem image_formats_agree_spaced :
    Written [9, 32768, 4] " 9, 32768 ,4\n".toList ∧
      Machine.ofText " 9, 32768 ,4\n" = Machine.ofBytes [9, 0, 0, 128, 4, 0] ∧
      Machine.ofText " 9, 32768 ,4\n" = .ok { memory := Memory.ofImage [9, 32768, 4] } := by
  have written : Written [9, 32768, 4] " 9, 32768 ,4\n".toList := by
    refine .inr ⟨nofun, [[' ', '9'], [' ', '3', '2', '7', '6', '8', ' '], ['4', '\n']], rfl, ?_⟩
    have blank {gaps : List Char} (h : gaps.all isBlank = true) : ∀ c ∈ gaps, isBlank c :=
      List.all_eq_true.1 h
    exact .cons ⟨[' '], [], rfl, blank rfl⟩ (.cons ⟨[' '], [' '], rfl, blank rfl⟩
      (.cons ⟨[], ['\n'], rfl, blank rfl⟩ .nil))
  obtain ⟨-, texts, -⟩ := image_formats_agree [9, 32768, 4] []
  obtain ⟨-, alike, loads⟩ := texts _ written
  exact ⟨written, alike, loads (by decide)⟩

end Image

end WordMachine

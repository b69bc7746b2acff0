import Mathlib.Data.List.Forall2
import WordMachine.Image

/-!
The texts that are images. A text is cut at its commas, and each piece must spell a word: blanks,
a numeral, blanks (`word?_eq_some_iff`). The pieces are read from the left up to the first that
spells none (`mapM_readPiece_of_spells`, `mapM_readPiece_of_bad`), so `text_read_by_grammar` says of
every text which words or which error it gives.
-/

namespace WordMachine.Image

open Text (isBlank Trims)

/-- The piece is a numeral for the word, between blanks. -/
def Spells (piece : List Char) (w : Word) : Prop :=
  ∃ numeral, Trims piece numeral ∧ Text.Numeral.Denotes numeral w.toNat

theorem word?_eq_some_iff {piece : List Char} {w : Word} :
    word? piece = some w ↔ Spells piece w := by
  simp only [word?, Option.map_eq_some_iff, Text.Numeral.read?_eq_some_iff, Spells,
    ← Text.trim_eq_iff, exists_eq_left']
  constructor
  · rintro ⟨n, ⟨denotes, small⟩, rfl⟩
    rwa [UInt16.toNat_ofNat_of_lt' (Nat.lt_succ_of_le small)]
  · intro denotes
    exact ⟨w.toNat, ⟨denotes, Nat.le_of_lt_succ w.toNat_lt⟩, UInt16.ofNat_toNat⟩

theorem word?_eq_none_iff {piece : List Char} :
    word? piece = none ↔ ¬ ∃ w, Spells piece w := by
  simp [Option.eq_none_iff_forall_ne_some, word?_eq_some_iff]

theorem pieces_eq_splitOn (text : List Char) : pieces text = text.splitOn ',' := by
  induction text with
  | nil => rfl
  | cons c text ih =>
    obtain ⟨first, rest, nonempty⟩ := List.exists_cons_of_ne_nil (List.splitOn_ne_nil ',' text)
    rw [nonempty] at ih
    rw [List.splitOn_cons_eq_if_modifyHead, nonempty]
    simp only [pieces] at ih
    simp only [pieces, List.foldr_cons, ih, beq_iff_eq, List.modifyHead_cons]

section Pieces

variable {pieces front back : List (List Char)} {piece bad : List Char} {words : List Word}
  {k : Nat}

theorem readPiece_of_spells {w : Word} (h : Spells piece w) : readPiece (piece, k) = .ok w := by
  rw [readPiece, word?_eq_some_iff.2 h]

theorem readPiece_of_not_spells (h : ¬ ∃ w, Spells piece w) :
    readPiece (piece, k) = .error (.invalidWord k (String.ofList (Text.trim piece))) := by
  rw [readPiece, word?_eq_none_iff.2 h]

theorem mapM_readPiece_of_spells (h : List.Forall₂ Spells pieces words) :
    (pieces.zipIdx k).mapM readPiece = .ok words := by
  induction h generalizing k with
  | nil => rfl
  | cons spells _ ih =>
    rw [List.zipIdx_cons, List.mapM_cons, readPiece_of_spells spells, ih]
    rfl

/-- What stands behind the leftmost bad piece is not looked at. -/
theorem mapM_readPiece_of_bad (good : ∀ piece ∈ front, ∃ w, Spells piece w)
    (ill : ¬ ∃ w, Spells bad w) :
    ((front ++ bad :: back).zipIdx k).mapM readPiece =
      .error (.invalidWord (k + front.length) (String.ofList (Text.trim bad))) := by
  induction front generalizing k with
  | nil =>
    rw [List.nil_append, List.zipIdx_cons, List.mapM_cons, readPiece_of_not_spells ill]
    rfl
  | cons piece front ih =>
    obtain ⟨⟨w, spells⟩, good⟩ := List.forall_mem_cons.1 good
    rw [List.cons_append, List.zipIdx_cons, List.mapM_cons, readPiece_of_spells spells, ih good,
      List.length_cons, Nat.add_comm front.length, ← Nat.add_assoc]
    rfl

theorem spells_or_bad (pieces : List (List Char)) :
    (∃ words, List.Forall₂ Spells pieces words) ∨
      ∃ front bad back, pieces = front ++ bad :: back ∧
        (∀ piece ∈ front, ∃ w, Spells piece w) ∧ ¬ ∃ w, Spells bad w := by
  induction pieces with
  | nil => exact .inl ⟨[], .nil⟩
  | cons piece pieces ih =>
    by_cases spells : ∃ w, Spells piece w
    · obtain ⟨words, all⟩ | ⟨front, bad, back, rfl, good, ill⟩ := ih
      · exact .inl ⟨spells.choose :: words, .cons spells.choose_spec all⟩
      · exact .inr ⟨piece :: front, bad, back, rfl, List.forall_mem_cons.2 ⟨spells, good⟩, ill⟩
    · exact .inr ⟨[], piece, pieces, rfl, by simp, spells⟩

theorem exists_of_forall₂_spells (h : List.Forall₂ Spells pieces words) :
    ∀ piece ∈ pieces, ∃ w, Spells piece w := by
  induction h with
  | nil => simp
  | cons spells _ ih => exact List.forall_mem_cons.2 ⟨⟨_, spells⟩, ih⟩

end Pieces

/-- A blank text is one piece, which spells no word. -/
theorem not_forall₂_spells_of_blank {text : List Char} {words : List Word}
    (blank : ∀ c ∈ text, isBlank c) : ¬ List.Forall₂ Spells (text.splitOn ',') words := by
  have comma : ',' ∉ text := fun among => absurd (blank _ among) (by decide)
  have nothing : Trims text [] := ⟨text, [], by simp, by simpa using blank, nofun, nofun⟩
  rw [List.splitOn_eq_singleton comma]
  rintro (_ | ⟨⟨numeral, trims, digits, signed, some, -⟩, -⟩)
  rw [← Text.trim_eq_iff] at trims nothing
  rw [nothing] at trims
  subst trims
  obtain rfl | signed := signed
  · exact some rfl
  · cases signed

section Whole

variable {text : String} {words : List Word}

theorem ofText_of_blank (blank : ∀ c ∈ text.toList, isBlank c) : ofText text = .ok [] := by
  rw [ofText, if_pos (List.all_eq_true.2 blank)]

theorem ofText_of_not_blank (shows : ¬ ∀ c ∈ text.toList, isBlank c) :
    ofText text = (text.toList.splitOn ',').zipIdx.mapM readPiece >>= checkSize := by
  rw [ofText, if_neg (mt List.all_eq_true.1 shows), pieces_eq_splitOn]

theorem ofText_of_spells (all : List.Forall₂ Spells (text.toList.splitOn ',') words) :
    ofText text = checkSize words := by
  have shows := fun blank => not_forall₂_spells_of_blank blank all
  rw [ofText_of_not_blank shows, mapM_readPiece_of_spells all]
  rfl

theorem ofText_of_bad {front back : List (List Char)} {bad : List Char}
    (shows : ¬ ∀ c ∈ text.toList, isBlank c) (cut : text.toList.splitOn ',' = front ++ bad :: back)
    (good : ∀ piece ∈ front, ∃ w, Spells piece w) (ill : ¬ ∃ w, Spells bad w) :
    ofText text =
      .error (.invalidWord front.length (String.ofList (Text.trim bad))) := by
  rw [ofText_of_not_blank shows, cut, mapM_readPiece_of_bad good ill, Nat.zero_add]
  rfl

end Whole

/-- A text is an image just when it is blank or its pieces spell words that fit. Otherwise the
leftmost piece that spells no word is reported, and the number of pieces only if all do. -/
theorem text_read_by_grammar (text : String) :
    let blank := ∀ c ∈ text.toList, isBlank c
    let tokens := text.toList.splitOn ','
    (∀ words, ofText text = .ok words ↔
      (blank ∧ words = []) ∨
        (1 ≤ words.length ∧ words.length ≤ 32768 ∧ List.Forall₂ Spells tokens words)) ∧
    ∀ error, ofText text = .error error ↔
      (∃ front bad back core, ¬ blank ∧ tokens = front ++ bad :: back ∧
        (∀ token ∈ front, ∃ w, Spells token w) ∧ (¬ ∃ w, Spells bad w) ∧ Trims bad core ∧
        error = .invalidWord front.length (String.ofList core)) ∨
      ((∀ token ∈ tokens, ∃ w, Spells token w) ∧ 32768 < tokens.length ∧
        error = .tooLarge tokens.length) := by
  intro blank tokens
  refine ⟨fun words => ⟨fun read => ?_, ?_⟩, fun error => ⟨fun read => ?_, ?_⟩⟩
  · by_cases empty : blank
    · rw [ofText_of_blank empty] at read
      cases read
      exact .inl ⟨empty, rfl⟩
    · obtain ⟨found, all⟩ | ⟨front, bad, back, cut, good, ill⟩ := spells_or_bad tokens
      · rw [ofText_of_spells all, checkSize_eq_ok_iff] at read
        obtain ⟨fits, rfl⟩ := read
        have some : 0 < tokens.length := List.length_pos_of_ne_nil (List.splitOn_ne_nil ',' _)
        rw [all.length_eq] at some
        exact .inr ⟨some, fits, all⟩
      · rw [ofText_of_bad empty cut good ill] at read
        cases read
  · rintro (⟨empty, rfl⟩ | ⟨-, fits, all⟩)
    · exact ofText_of_blank empty
    · exact (ofText_of_spells all).trans (checkSize_eq_ok_iff.2 ⟨fits, rfl⟩)
  · by_cases empty : blank
    · rw [ofText_of_blank empty] at read
      cases read
    · obtain ⟨found, all⟩ | ⟨front, bad, back, cut, good, ill⟩ := spells_or_bad tokens
      · rw [ofText_of_spells all, checkSize_eq_error_iff, ← all.length_eq] at read
        exact .inr ⟨exists_of_forall₂_spells all, read⟩
      · rw [ofText_of_bad empty cut good ill] at read
        cases read
        exact .inl ⟨front, bad, back, _, empty, cut, good, ill, Text.trims_trim bad, rfl⟩
  · rintro (⟨front, bad, back, core, shows, cut, good, ill, trims, rfl⟩ | ⟨all, large, rfl⟩)
    · rw [ofText_of_bad shows cut good ill, Text.trim_eq_iff.2 trims]
    · obtain ⟨words, spelt⟩ | ⟨front, bad, back, cut, -, ill⟩ := spells_or_bad tokens
      · rw [ofText_of_spells spelt, checkSize_eq_error_iff, ← spelt.length_eq]
        exact ⟨large, rfl⟩
      · exact absurd (all bad (cut ▸ by simp)) ill

/-- The second piece is a word in spite of its blanks, sign and zeros; the third is one too large,
so the fourth does not count. -/
theorem text_read_by_grammar_third :
    ofText "8,\u3000+007\t,65536,x" = .error (.invalidWord 2 "65536") := by
  have eight : Spells ['8'] 8 := word?_eq_some_iff.1 (by decide)
  have seven : Spells ['\u3000', '+', '0', '0', '7', '\t'] 7 := word?_eq_some_iff.1 (by decide)
  have large : ¬ ∃ w, Spells ['6', '5', '5', '3', '6'] w := word?_eq_none_iff.1 (by decide)
  have shows : ¬ ∀ c ∈ "8,\u3000+007\t,65536,x".toList, isBlank c := fun blank =>
    absurd (blank '8' (by simp)) (by decide)
  obtain ⟨-, errors⟩ := text_read_by_grammar "8,\u3000+007\t,65536,x"
  refine (errors _).2 (.inl ⟨[['8'], ['\u3000', '+', '0', '0', '7', '\t']],
    ['6', '5', '5', '3', '6'], [['x']], _, shows, rfl, ?_, large, Text.trim_eq_iff.1 rfl, rfl⟩)
  simpa using ⟨⟨8, eight⟩, 7, seven⟩

end WordMachine.Image

import WordMachine.Bytes
import WordMachine.Text.Blank
import WordMachine.Text.Numeral
import WordMachine.Text.Quoted

/-!
Program images: lists of at most 32768 words, written as decimal numerals between commas or as raw
bytes. `ofBytes_toBytes` says that an image of allowed size reads back from its bytes, and
`ofBytes_eq_ok_iff` that nothing else is read.
-/

namespace WordMachine

inductive ImageError where
  | invalidWord (index : Nat) (token : String)
  | oddLength (bytes : Nat)
  | tooLarge (words : Nat)
deriving DecidableEq

namespace Image

def maxWords : Nat := 32768

end Image

namespace ImageError

def message : ImageError → String
  | invalidWord index token =>
    s!"invalid word {Text.Quoted.string token} at position {index}"
  | oddLength bytes => s!"odd image length: {bytes} bytes"
  | tooLarge words =>
    s!"image of {words} words exceeds the {Image.maxWords}-word address space"

end ImageError

namespace Image

def checkSize (words : List Word) : Except ImageError (List Word) :=
  if words.length ≤ maxWords then .ok words else .error (.tooLarge words.length)

theorem checkSize_eq_ok_iff {words image : List Word} :
    checkSize words = .ok image ↔ words.length ≤ maxWords ∧ words = image := by
  unfold checkSize
  split
  · rename_i fits
    simp [fits]
  · rename_i large
    simp [large]

theorem checkSize_eq_error_iff {words : List Word} {error : ImageError} :
    checkSize words = .error error ↔
      maxWords < words.length ∧ error = .tooLarge words.length := by
  unfold checkSize
  split
  · rename_i fits
    simp [Nat.not_lt_of_le fits]
  · rename_i large
    simp [Nat.lt_of_not_le large, eq_comm]

/-- The pieces of a text between commas, in order; a text without one is a single piece. -/
def pieces (text : List Char) : List (List Char) :=
  text.foldr
    (fun c parts =>
      if c = ',' then [] :: parts
      else match parts with
        | [] => [[c]]
        | first :: rest => (c :: first) :: rest)
    [[]]

def word? (piece : List Char) : Option Word :=
  (Text.Numeral.read? 65535 (Text.trim piece)).map UInt16.ofNat

/-- Reads the piece at the given position. -/
def readPiece (piece : List Char × Nat) : Except ImageError Word :=
  match word? piece.1 with
  | some w => .ok w
  | none => .error (.invalidWord piece.2 (String.ofList (Text.trim piece.1)))

/-- A text of blanks is the empty image; otherwise each piece must be a word. The leftmost bad piece
is reported before the size. -/
def ofText (text : String) : Except ImageError (List Word) :=
  if text.toList.all Text.isBlank then .ok []
  else (pieces text.toList).zipIdx.mapM readPiece >>= checkSize

def ofBytes (bytes : List UInt8) : Except ImageError (List Word) :=
  if bytes.length % 2 = 0 then checkSize (Bytes.pairs bytes)
  else .error (.oddLength bytes.length)

def toBytes (words : List Word) : List UInt8 := words.flatMap Bytes.ofWord

theorem length_toBytes (words : List Word) : (toBytes words).length = 2 * words.length := by
  induction words with
  | nil => rfl
  | cons w ws ih =>
    simp only [toBytes, List.flatMap_cons, List.length_append, List.length_cons] at *
    rw [ih]
    simp only [Bytes.ofWord, List.length_cons, List.length_nil]
    omega

theorem ofBytes_toBytes (words : List Word) : ofBytes (toBytes words) = checkSize words := by
  have : (toBytes words).length % 2 = 0 := by rw [length_toBytes]; omega
  rw [ofBytes, if_pos this, toBytes, Bytes.pairs_flatMap_ofWord]

theorem ofBytes_eq_ok_iff {bytes : List UInt8} {words : List Word} :
    ofBytes bytes = .ok words ↔ words.length ≤ maxWords ∧ toBytes words = bytes := by
  constructor
  · intro read
    by_cases even : bytes.length % 2 = 0
    · obtain ⟨found, rfl⟩ := Bytes.exists_words even
      obtain ⟨fits, rfl⟩ := checkSize_eq_ok_iff.1 ((ofBytes_toBytes found).symm.trans read)
      exact ⟨fits, rfl⟩
    · rw [ofBytes, if_neg even] at read
      cases read
  · rintro ⟨fits, rfl⟩
    exact (ofBytes_toBytes words).trans (checkSize_eq_ok_iff.2 ⟨fits, rfl⟩)

end Image

end WordMachine

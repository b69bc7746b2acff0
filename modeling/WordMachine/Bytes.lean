import WordMachine.Word

/-!
Words as bytes, low byte first. `pairs_flatMap_ofWord` says that the bytes of a list of words read
back as that list, and `exists_words` that any bytes of even number are such.
-/

namespace WordMachine.Bytes

def ofWord (w : Word) : List UInt8 := [w.toUInt8, UInt8.ofNat (w.toNat / 256)]

def toWord (low high : UInt8) : Word := UInt16.ofNat (low.toNat + 256 * high.toNat)

/-- Reads the bytes two by two. -/
def pairs (bytes : List UInt8) : List Word :=
  go [] bytes
where
  go (read : List Word) : List UInt8 → List Word
    | low :: high :: rest => go (toWord low high :: read) rest
    | _ => read.reverse

theorem toWord_ofWord (w : Word) : toWord w.toUInt8 (UInt8.ofNat (w.toNat / 256)) = w := by
  have := w.toNat_lt
  apply UInt16.toNat_inj.1
  simp only [toWord, UInt16.toNat_toUInt8, UInt8.toNat_ofNat', UInt16.toNat_ofNat']
  omega

theorem ofWord_toWord (low high : UInt8) : ofWord (toWord low high) = [low, high] := by
  have := low.toNat_lt
  have := high.toNat_lt
  have number : (toWord low high).toNat = low.toNat + 256 * high.toNat := by
    simp only [toWord, UInt16.toNat_ofNat']
    omega
  simp only [ofWord, number]
  congr 1
  · apply UInt8.toNat_inj.1
    rw [UInt16.toNat_toUInt8, number]
    omega
  · congr 1
    apply UInt8.toNat_inj.1
    rw [UInt8.toNat_ofNat']
    omega

theorem pairs_go (read : List Word) (ws : List Word) :
    pairs.go read (ws.flatMap ofWord) = read.reverse ++ ws := by
  induction ws generalizing read with
  | nil => simp [pairs.go]
  | cons w ws ih => simp [ofWord, pairs.go, toWord_ofWord, ih]

theorem pairs_flatMap_ofWord (ws : List Word) : pairs (ws.flatMap ofWord) = ws := by
  simp [pairs, pairs_go]

/-- Bytes of even number are those of some words. -/
theorem exists_words {bytes : List UInt8} (h : bytes.length % 2 = 0) :
    ∃ ws : List Word, ws.flatMap ofWord = bytes := by
  match bytes with
  | [] => exact ⟨[], rfl⟩
  | low :: high :: rest =>
    have even : rest.length % 2 = 0 := by
      simp only [List.length_cons] at h
      omega
    obtain ⟨ws, rfl⟩ := exists_words even
    exact ⟨toWord low high :: ws, by simp [ofWord_toWord]⟩

end WordMachine.Bytes

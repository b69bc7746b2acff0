/-!
Bytes as lower-case hexadecimal, two digits each, so that no two lists of bytes have one numeral
(`encode_injective`).
-/

namespace WordMachine.Text.Hex

def digits (b : UInt8) : List Char :=
  [Nat.digitChar (b.toNat / 16), Nat.digitChar (b.toNat % 16)]

def encode (bytes : List UInt8) : String := String.ofList (bytes.flatMap digits)

theorem digitChar_injective :
    ∀ x < 16, ∀ y < 16, Nat.digitChar x = Nat.digitChar y → x = y := by
  decide

theorem digits_injective {b c : UInt8} (h : digits b = digits c) : b = c := by
  have := b.toNat_lt
  have := c.toNat_lt
  simp only [digits, List.cons.injEq, and_true] at h
  have high := digitChar_injective _ (by omega) _ (by omega) h.1
  have low := digitChar_injective _ (by omega) _ (by omega) h.2
  apply UInt8.toNat_inj.1
  omega

theorem flatMap_digits_injective {bytes bytes' : List UInt8}
    (h : bytes.flatMap digits = bytes'.flatMap digits) : bytes = bytes' := by
  induction bytes generalizing bytes' with
  | nil =>
    cases bytes' with
    | nil => rfl
    | cons c rest => simp [digits] at h
  | cons b rest ih =>
    cases bytes' with
    | nil => simp [digits] at h
    | cons c rest' =>
      rw [List.flatMap_cons, List.flatMap_cons] at h
      obtain ⟨first, others⟩ := List.append_inj h rfl
      rw [digits_injective first, ih others]

theorem encode_injective {bytes bytes' : List UInt8} (h : encode bytes = encode bytes') :
    bytes = bytes' :=
  flatMap_digits_injective (String.ofList_injective h)

end WordMachine.Text.Hex

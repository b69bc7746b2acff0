/-!
Text as UTF-8 bytes, and reading it back with the place of the first fault. A lead byte fixes the
ranges in which the following bytes must fall; a byte outside its range ends the sequence before it.
`decode_encode` and `encode_of_decode` say that a text and its bytes determine each other.
-/

namespace WordMachine.Text.Utf8

/-- Where the first bad sequence starts, and how many bytes of it are bad. `length` is `none` if the
bytes end inside a sequence that was good so far. -/
structure Fault where
  index : Nat
  length : Option Nat
deriving DecidableEq

structure Range where
  low : UInt8
  high : UInt8
deriving DecidableEq

def Range.contains (r : Range) (b : UInt8) : Bool := r.low ≤ b && b ≤ r.high

def Range.continuation : Range := ⟨0x80, 0xbf⟩

/-- The ranges of the bytes after a lead byte; `none` if no sequence starts so. The narrower first
ranges keep out overlong forms, surrogates and numbers past the last character. -/
def following (lead : UInt8) : Option (List Range) :=
  let any := Range.continuation
  if lead < 0x80 then some []
  else if lead < 0xc2 then none
  else if lead < 0xe0 then some [any]
  else if lead = 0xe0 then some [⟨0xa0, 0xbf⟩, any]
  else if lead = 0xed then some [⟨0x80, 0x9f⟩, any]
  else if lead < 0xf0 then some [any, any]
  else if lead = 0xf0 then some [⟨0x90, 0xbf⟩, any, any]
  else if lead < 0xf4 then some [any, any, any]
  else if lead = 0xf4 then some [⟨0x80, 0x8f⟩, any, any]
  else none

/-- Scans from inside a sequence that began at `start`, of which `read` bytes are past and
`expected` are to come. -/
def faultFrom (start read : Nat) : List Range → List UInt8 → Option Fault
  | [], [] => none
  | _ :: _, [] => some ⟨start, none⟩
  | [], b :: bytes =>
    match following b with
    | none => some ⟨start, some 1⟩
    | some [] => faultFrom (start + 1) 0 [] bytes
    | some expected => faultFrom start 1 expected bytes
  | range :: expected, b :: bytes =>
    if !range.contains b then some ⟨start, some read⟩
    else if expected.isEmpty then faultFrom (start + read + 1) 0 [] bytes
    else faultFrom start (read + 1) expected bytes

def fault? (bytes : List UInt8) : Option Fault := faultFrom 0 0 [] bytes

def decode (bytes : List UInt8) : Except Fault String :=
  if h : bytes.toByteArray.IsValidUTF8 then .ok (String.fromUTF8 bytes.toByteArray h)
  else .error ((fault? bytes).getD ⟨0, none⟩)

/-- Reads at most so many stretches of good text; each bad sequence becomes a replacement
character. -/
def lossyFrom : (budget : Nat) → List UInt8 → String
  | 0, _ => ""
  | budget + 1, bytes =>
    match decode bytes with
    | .ok text => text
    | .error fault =>
      let good := ((decode (bytes.take fault.index)).toOption.getD "").push '\ufffd'
      match fault.length with
      | some n => good ++ lossyFrom budget (bytes.drop (fault.index + n))
      | none => good

/-- Each bad sequence takes at least a byte, which bounds the number of stretches. -/
def decodeLossy (bytes : List UInt8) : String := lossyFrom (bytes.length + 1) bytes

def encode (text : String) : List UInt8 := text.toUTF8.data.toList

def Fault.message (f : Fault) : String :=
  match f.length with
  | some n => s!"invalid utf-8 sequence of {n} bytes from index {f.index}"
  | none => s!"incomplete utf-8 byte sequence from index {f.index}"

@[simp]
theorem length_encode (text : String) : (encode text).length = text.utf8ByteSize := by
  simp [encode, ByteArray.size_data]

theorem toByteArray_encode (text : String) : (encode text).toByteArray = text.toByteArray := by
  apply ByteArray.ext
  simp [encode]

theorem decode_encode (text : String) : decode (encode text) = .ok text := by
  have valid : (encode text).toByteArray.IsValidUTF8 := by
    rw [toByteArray_encode]
    exact text.isValidUTF8
  rw [decode, dif_pos valid]
  congr 1
  apply String.toByteArray_inj.1
  exact toByteArray_encode text

theorem encode_of_decode {bytes : List UInt8} {text : String} (h : decode bytes = .ok text) :
    encode text = bytes := by
  unfold decode at h
  split at h
  · cases h
    simp [encode, String.fromUTF8]
  · cases h

example : fault? [0x31, 0xff, 0x32] = some ⟨1, some 1⟩ := by decide

example : fault? [0x31, 0xe2, 0x82] = some ⟨1, none⟩ := by decide

example : fault? [0xf0, 0x9f, 0x98, 0x28] = some ⟨0, some 3⟩ := by decide

end WordMachine.Text.Utf8

import WordMachine.Archive.Zip.Record
import WordMachine.Digest.Crc32
import WordMachine.Text.Utf8

/-!
Extra fields of a directory entry. Each has a kind and a length; six kinds say more about the
entry, and the others are passed over. A field that says something impossible spoils the archive;
one that is cut off ends the list.
-/

namespace WordMachine.Zip

/-- What a directory entry says and its extra fields may change. -/
structure Description where
  name : List UInt8
  /-- The comment as UTF-8. -/
  comment : List UInt8
  method : Nat
  packedSize : Nat
  size : Nat
  /-- Where the entry begins, counted from the beginning of the archive proper. -/
  offset : Nat
  /-- The entry needs a password. -/
  locked : Bool := false
deriving DecidableEq

/-- Why the reading of a field ends. -/
inductive ExtraStop where
  /-- The bytes end. What was read so far counts. -/
  | cut (description : Description)
  | invalid
deriving DecidableEq

namespace Description

/-- The largest number of 32 bits stands for one that is given in an extra field. -/
def wideMark : Nat := 0xffffffff

def cutUnless (d : Description) : Option α → Except ExtraStop α
  | some a => .ok a
  | none => .error (.cut d)

def require (condition : Bool) : Except ExtraStop Unit :=
  if condition then .ok () else .error .invalid

/-- Reads a number of 64 bits if it is given. The place moves behind it. -/
def wideNumber (given : Bool) (set : Description → Nat → Description) (bytes : List UInt8)
    (state : Description × Nat) : Except ExtraStop (Description × Nat) :=
  if given then do
    let n ← state.1.cutUnless (field? bytes state.2 8)
    return (set state.1 n, state.2 + 8)
  else return state

/-- Sizes and offset in 64 bits: those that the entry marks, or all if the field has room. -/
def wide (d : Description) (length : Nat) (bytes : List UInt8) : Except ExtraStop Description := do
  let all := 24 ≤ length
  let state := (d, 0)
  let state ← wideNumber (all || d.size == wideMark) (fun d n => { d with size := n }) bytes state
  let state ← wideNumber (all || d.packedSize == wideMark)
    (fun d n => { d with packedSize := n }) bytes state
  let (d, read) ← wideNumber (all || d.offset == wideMark)
    (fun d n => { d with offset := n }) bytes state
  require (read ≤ length)
  return d

/-- Times in units of a file system: a reserved number, then one attribute of 24 bytes. -/
def fineTimes (d : Description) (length : Nat) (bytes : List UInt8) :
    Except ExtraStop Description := do
  require (length == 32)
  require ((← d.cutUnless (field? bytes 4 2)) == 1)
  require ((← d.cutUnless (field? bytes 6 2)) == 24)
  return d

/-- Times in seconds. The first byte says which of three are given; the directory may give the first
one alone. -/
def times (d : Description) (length : Nat) (bytes : List UInt8) : Except ExtraStop Description := do
  let flags ← d.cutUnless (field? bytes 0 1)
  require (flags < 8 && (length == 5 || length == 1 + 4 * (flags % 2 + flags / 2 % 2 + flags / 4)))
  return d

/-- Encryption with a block cipher: the true method stands here, and the entry is locked. -/
def cipher (d : Description) (length : Nat) (bytes : List UInt8) :
    Except ExtraStop Description := do
  require (length == 7)
  let version ← d.cutUnless (field? bytes 0 2)
  let vendor ← d.cutUnless (field? bytes 2 2)
  let strength ← d.cutUnless (field? bytes 4 1)
  let method ← d.cutUnless (field? bytes 5 2)
  require (vendor == 0x4541)
  require (version == 1 || version == 2)
  require (1 ≤ strength && strength ≤ 3)
  return { d with method, locked := true }

/-- A text in UTF-8 that takes the place of another one, whose checksum it gives. -/
def replacement (d : Description) (replaced : List UInt8) (length : Nat) (bytes : List UInt8) :
    Except ExtraStop (List UInt8) := do
  let checksum ← d.cutUnless (field? bytes 1 4)
  require (5 ≤ length)
  let text ← d.cutUnless (slice? bytes 5 (length - 5))
  require (checksum == (Crc32.checksum replaced).toNat)
  require (Text.Utf8.fault? text).isNone
  return text

/-- Reads the content of one field, which stands at the beginning of the bytes. -/
def field (d : Description) (kind length : Nat) (bytes : List UInt8) :
    Except ExtraStop Description := do
  let d ←
    if kind = 0x0001 then d.wide length bytes
    else if kind = 0x000a then d.fineTimes length bytes
    else if kind = 0x5455 then d.times length bytes
    else if kind = 0x9901 then d.cipher length bytes
    else if kind = 0x6375 then do
      return { d with comment := ← d.replacement d.comment length bytes }
    else if kind = 0x7075 then do
      return { d with name := ← d.replacement d.name length bytes }
    else return d
  let _ ← d.cutUnless (slice? bytes 0 length)
  return d

/-- Reads fields to the end of the bytes. -/
def withExtra (d : Description) (bytes : List UInt8) : Option Description :=
  match bytes with
  | k₀ :: k₁ :: n₀ :: n₁ :: rest =>
    let length := value [n₀, n₁]
    match d.field (value [k₀, k₁]) length rest with
    | .ok d => d.withExtra (rest.drop length)
    | .error (.cut d) => some d
    | .error .invalid => none
  | _ => some d
termination_by bytes.length
decreasing_by simp only [List.length_drop, List.length_cons]; omega

end Description

end WordMachine.Zip

/-!
Records of an archive: numbers, low byte first, at fixed places behind a signature. `field?_number`
says that a number that was written is read back.
-/

namespace WordMachine.Zip

/-- A number of so many bytes, low byte first. -/
def number : (width value : Nat) → List UInt8
  | 0, _ => []
  | width + 1, value => UInt8.ofNat value :: number width (value / 256)

/-- How many numbers there are of so many bytes. -/
def range : Nat → Nat
  | 0 => 1
  | width + 1 => 256 * range width

def value (bytes : List UInt8) : Nat := bytes.foldr (fun b n => b.toNat + 256 * n) 0

/-- So many bytes from the given place of a record, if it has them. -/
def slice? (record : List UInt8) (start length : Nat) : Option (List UInt8) :=
  let bytes := (record.drop start).take length
  if bytes.length = length then some bytes else none

/-- The number at a place in a record. -/
def field? (record : List UInt8) (start width : Nat) : Option Nat :=
  (slice? record start width).map value

/-- The places of a signature, each with the bytes from there on, the last one first. -/
def places (signature : List UInt8) (bytes : List UInt8) : List (Nat × List UInt8) :=
  go bytes 0 []
where
  go : List UInt8 → Nat → List (Nat × List UInt8) → List (Nat × List UInt8)
    | [], _, found => found
    | b :: rest, place, found =>
      go rest (place + 1)
        (if signature.isPrefixOf (b :: rest) then (place, b :: rest) :: found else found)

/-- The first place of a signature, counted on from the place where the bytes stand. -/
def firstPlace? (signature : List UInt8) (place : Nat) : List UInt8 → Option Nat
  | [] => none
  | b :: rest =>
    if signature.isPrefixOf (b :: rest) then some place
    else firstPlace? signature (place + 1) rest

@[simp]
theorem length_number (width n : Nat) : (number width n).length = width := by
  induction width generalizing n with
  | zero => rfl
  | succ width ih => simp [number, ih]

theorem value_number (width n : Nat) : value (number width n) = n % range width := by
  induction width generalizing n with
  | zero => simp [number, value, range, Nat.mod_one]
  | succ width ih =>
    have h : value (number (width + 1) n) = n % 256 + 256 * value (number width (n / 256)) := by
      simp [number, value]
    rw [h, ih, range, Nat.mod_mul]

theorem field?_number (front back : List UInt8) (width n : Nat) :
    field? (front ++ (number width n ++ back)) front.length width =
      some (n % range width) := by
  simp [field?, slice?, value_number]

end WordMachine.Zip

import WordMachine.Archive.PrefixCode
import WordMachine.Bytes

/-!
The deflate format: blocks of stored bytes, or of literals and repetitions under a fixed or a
transmitted pair of prefix codes. Reading knows all three kinds of block; writing stores.
-/

namespace WordMachine.Deflate

/-- The shortest length of each length symbol from 257 on, and its number of extra bits. -/
def lengthBases : Array (Nat × Nat) :=
  #[(3, 0), (4, 0), (5, 0), (6, 0), (7, 0), (8, 0), (9, 0), (10, 0), (11, 1), (13, 1), (15, 1),
    (17, 1), (19, 2), (23, 2), (27, 2), (31, 2), (35, 3), (43, 3), (51, 3), (59, 3), (67, 4),
    (83, 4), (99, 4), (115, 4), (131, 5), (163, 5), (195, 5), (227, 5), (258, 0)]

/-- The shortest distance of each distance symbol, and its number of extra bits. -/
def distanceBases : Array (Nat × Nat) :=
  #[(1, 0), (2, 0), (3, 0), (4, 0), (5, 1), (7, 1), (9, 2), (13, 2), (17, 3), (25, 3), (33, 4),
    (49, 4), (65, 5), (97, 5), (129, 6), (193, 6), (257, 7), (385, 7), (513, 8), (769, 8),
    (1025, 9), (1537, 9), (2049, 10), (3073, 10), (4097, 11), (6145, 11), (8193, 12), (12289, 12),
    (16385, 13), (24577, 13)]

/-- The order in which the lengths of the code-length code are transmitted. -/
def lengthOrder : List Nat := [16, 17, 18, 0, 8, 7, 9, 6, 10, 5, 11, 4, 12, 3, 13, 2, 14, 1, 15]

def fixedLengths : List Nat :=
  List.replicate 144 8 ++ List.replicate 112 9 ++ List.replicate 24 7 ++ List.replicate 8 8

def codeOf (lengths : List Nat) : Inflate Code :=
  match Code.ofLengths? lengths with
  | some code => return code
  | none => throw .corrupt

def amount (bases : Array (Nat × Nat)) (symbol : Nat) : Inflate Nat :=
  match bases[symbol]? with
  | some (base, extra) => return base + (← bits extra)
  | none => throw .corrupt

/-- Reads literals and repetitions up to the end of the block, at most so many. -/
def compressed (literals distances : Code) : Nat → Inflate Unit
  | 0 => throw .corrupt
  | budget + 1 => do
    let symbol ← literals.symbol
    if symbol < 256 then
      emit (UInt8.ofNat symbol)
      compressed literals distances budget
    else if symbol = 256 then return
    else
      let length ← amount lengthBases (symbol - 257)
      let distance ← amount distanceBases (← distances.symbol)
      repeatBack distance length
      compressed literals distances budget

/-- Reads so many code lengths behind those already read. -/
def lengthsOnto (code : Code) (total : Nat) : (budget : Nat) → List Nat → Inflate (List Nat)
  | 0, _ => throw .corrupt
  | budget + 1, read => do
    if total ≤ read.length then
      if total = read.length then return read.reverse else throw .corrupt
    else
      let symbol ← code.symbol
      if symbol < 16 then lengthsOnto code total budget (symbol :: read)
      else if symbol = 16 then
        match read with
        | [] => throw .corrupt
        | previous :: _ =>
          let count := 3 + (← bits 2)
          lengthsOnto code total budget (List.replicate count previous ++ read)
      else
        let (shortest, extra) := if symbol = 17 then (3, 3) else (11, 7)
        let count := shortest + (← bits extra)
        lengthsOnto code total budget (List.replicate count 0 ++ read)

/-- Reads the lengths of the code-length code in their order of transmission. -/
def headLengths : List Nat → Inflate (List (Nat × Nat))
  | [] => return []
  | place :: places => do
    let length ← bits 3
    return (place, length) :: (← headLengths places)

/-- Reads a transmitted pair of codes. -/
def transmitted : Inflate (Code × Code) := do
  let literals := 257 + (← bits 5)
  let distances := 1 + (← bits 5)
  let heads := 4 + (← bits 4)
  if 286 < literals ∨ 30 < distances then throw .corrupt
  let placed ← headLengths (lengthOrder.take heads)
  let code ← codeOf ((List.range 19).map fun place => (placed.lookup place).getD 0)
  if !code.isComplete then throw .corrupt
  let lengths ← lengthsOnto code (literals + distances) (literals + distances + 1) []
  return (← codeOf (lengths.take literals), ← codeOf (lengths.drop literals))

def copyBytes : Nat → Inflate Unit
  | 0 => return
  | n + 1 => do
    emit (← byte)
    copyBytes n

def stored : Inflate Unit := do
  align
  let length := Bytes.toWord (← byte) (← byte)
  let check := Bytes.toWord (← byte) (← byte)
  if check = ~~~length then copyBytes length.toNat else throw .corrupt

/-- Reads blocks up to the last one, at most so many. -/
def blocks (bitCount : Nat) : (budget : Nat) → Inflate Unit
  | 0 => throw .corrupt
  | budget + 1 => do
    let last ← bit
    let kind ← bits 2
    if kind = 0 then stored
    else if kind = 1 then
      compressed (← codeOf fixedLengths) (← codeOf (List.replicate 32 5)) (bitCount + 1)
    else if kind = 2 then
      let (literals, distances) ← transmitted
      compressed literals distances (bitCount + 1)
    else throw .corrupt
    if last = 1 then return else blocks bitCount budget

/-- The bytes that a stream holds. Each block and each symbol takes at least a bit, which bounds
their number. -/
def inflate? (bytes : List UInt8) : Option (List UInt8) :=
  let bitCount := 8 * bytes.length
  match (blocks bitCount (bitCount + 1)).run { rest := bytes } with
  | .ok _ s => some s.out.toList
  | .error _ _ => none

/-- The most bytes that go into one block when storing. -/
def blockSize : Nat := 8192

/-- Cuts bytes into blocks, behind those already cut; the last block is given by itself. A block
also ends behind the letters PK, with which the signatures of an archive begin, so that none of them
stands in what is stored. -/
def cutOnto (done : Array (List UInt8)) (block : List UInt8) (length : Nat) :
    List UInt8 → Array (List UInt8) × List UInt8
  | [] => (done, block.reverse)
  | b :: rest =>
    if length + 1 = blockSize ∨ (b = 0x4b ∧ block.head? = some 0x50) then
      cutOnto (done.push (b :: block).reverse) [] 0 rest
    else cutOnto done (b :: block) (length + 1) rest

def cut (bytes : List UInt8) : List (List UInt8) × List UInt8 :=
  let (done, last) := cutOnto #[] [] 0 bytes
  (done.toList, last)

def storedBlock (last : Bool) (bytes : List UInt8) : List UInt8 :=
  let length := UInt16.ofNat bytes.length
  (if last then 1 else 0) :: (Bytes.ofWord length ++ (Bytes.ofWord (~~~length) ++ bytes))

/-- Writes bytes as stored blocks. -/
def store (bytes : List UInt8) : List UInt8 :=
  let (done, last) := cut bytes
  done.flatMap (storedBlock false) ++ storedBlock true last

end WordMachine.Deflate

import WordMachine.Text.Hex

/-!
The BLAKE3 hash with its default output of 32 bytes. The input is cut into chunks of 1024 bytes,
each chunk is folded block by block into a node, and nodes are joined in pairs, level by level,
until one is left. A node without a partner goes up a level unchanged, so every left subtree is
complete.
-/

namespace WordMachine.Blake3

abbrev Chain := Vector UInt32 8

abbrev Block := Vector UInt32 16

def initial : Chain :=
  #v[0x6a09e667, 0xbb67ae85, 0x3c6ef372, 0xa54ff53a, 0x510e527f, 0x9b05688c, 0x1f83d9ab, 0x5be0cd19]

/-- Marks of a compression, to be added up. -/
def chunkStart : UInt32 := 1

def chunkEnd : UInt32 := 2

def parent : UInt32 := 4

def root : UInt32 := 8

@[inline]
def rotateRight (w n : UInt32) : UInt32 := (w >>> n) ||| (w <<< (32 - n))

/-- Mixes two message words into four words of the state. -/
@[inline]
def mix (s : Block) (a b c d : Fin 16) (x y : UInt32) : Block :=
  let va := s[a] + s[b] + x
  let vd := rotateRight (s[d] ^^^ va) 16
  let vc := s[c] + vd
  let vb := rotateRight (s[b] ^^^ vc) 12
  let va := va + vb + y
  let vd := rotateRight (vd ^^^ va) 8
  let vc := vc + vd
  let vb := rotateRight (vb ^^^ vc) 7
  (((s.set a va).set b vb).set c vc).set d vd

/-- Mixes the columns of the state, then its diagonals. -/
def round (s m : Block) : Block :=
  let s := mix s 0 4 8 12 m[0] m[1]
  let s := mix s 1 5 9 13 m[2] m[3]
  let s := mix s 2 6 10 14 m[4] m[5]
  let s := mix s 3 7 11 15 m[6] m[7]
  let s := mix s 0 5 10 15 m[8] m[9]
  let s := mix s 1 6 11 12 m[10] m[11]
  let s := mix s 2 7 8 13 m[12] m[13]
  mix s 3 4 9 14 m[14] m[15]

/-- The order of the message words in the next round. -/
def permute (m : Block) : Block :=
  #v[m[2], m[6], m[3], m[10], m[7], m[0], m[4], m[13],
    m[1], m[11], m[12], m[5], m[9], m[14], m[15], m[8]]

def rounds : Nat → Block → Block → Block
  | 0, s, _ => s
  | n + 1, s, m => rounds n (round s m) (permute m)

/-- The input of one compression. -/
structure Node where
  chain : Chain
  block : Block
  counter : UInt64
  length : UInt32
  marks : UInt32

def Node.compress (n : Node) : Chain :=
  let h := n.chain
  let s : Block :=
    #v[h[0], h[1], h[2], h[3], h[4], h[5], h[6], h[7],
      initial[0], initial[1], initial[2], initial[3],
      n.counter.toUInt32, (n.counter >>> 32).toUInt32, n.length, n.marks]
  let s := rounds 7 s n.block
  #v[s[0] ^^^ s[8], s[1] ^^^ s[9], s[2] ^^^ s[10], s[3] ^^^ s[11],
    s[4] ^^^ s[12], s[5] ^^^ s[13], s[6] ^^^ s[14], s[7] ^^^ s[15]]

@[inline]
def byteAt (bytes : ByteArray) (i : Nat) : UInt32 :=
  if h : i < bytes.size then bytes[i].toUInt32 else 0

/-- The word whose low byte is at the given position; past the end the bytes are zero. -/
def wordAt (bytes : ByteArray) (i : Nat) : UInt32 :=
  byteAt bytes i ||| (byteAt bytes (i + 1) <<< 8) ||| (byteAt bytes (i + 2) <<< 16) |||
    (byteAt bytes (i + 3) <<< 24)

def blockAt (bytes : ByteArray) (start : Nat) : Block :=
  Vector.ofFn fun i => wordAt bytes (start + 4 * i.val)

/-- The last node of a chunk of which `length` bytes, from `start` on, are left. -/
def chunkFrom (bytes : ByteArray) (counter : UInt64) :
    (blocks : Nat) → (start length : Nat) → (chain : Chain) → (marks : UInt32) → Node
  | 0, start, length, chain, marks =>
    ⟨chain, blockAt bytes start, counter, UInt32.ofNat length, marks + chunkEnd⟩
  | blocks + 1, start, length, chain, marks =>
    let node : Node := ⟨chain, blockAt bytes start, counter, 64, marks⟩
    chunkFrom bytes counter blocks (start + 64) (length - 64) node.compress 0

def chunk (bytes : ByteArray) (index : Nat) : Node :=
  let start := 1024 * index
  let length := min 1024 (bytes.size - start)
  chunkFrom bytes (UInt64.ofNat index) ((length - 1) / 64) start length initial chunkStart

def chunks (bytes : ByteArray) : List Node :=
  (List.range (max 1 ((bytes.size + 1023) / 1024))).map (chunk bytes)

def join (left right : Node) : Node :=
  ⟨initial, (left.compress ++ right.compress : Vector UInt32 16), 0, 64, parent⟩

/-- One level up the tree. -/
def level : List Node → List Node
  | left :: right :: rest => join left right :: level rest
  | nodes => nodes

theorem length_level_le : ∀ nodes : List Node, (level nodes).length ≤ nodes.length
  | [] => Nat.le_refl _
  | [_] => Nat.le_refl _
  | _ :: _ :: rest => by
    have := length_level_le rest
    simp only [level, List.length_cons]
    omega

/-- The top of the tree over a first node and those after it. -/
def top (first : Node) : List Node → Node
  | [] => first
  | second :: rest => top (join first second) (level rest)
termination_by rest => rest.length
decreasing_by
  have := length_level_le rest
  simp only [List.length_cons]
  omega

def wordBytes (w : UInt32) : List UInt8 :=
  [w.toUInt8, (w >>> 8).toUInt8, (w >>> 16).toUInt8, (w >>> 24).toUInt8]

def hash (bytes : List UInt8) : List UInt8 :=
  match chunks bytes.toByteArray with
  | [] => []
  | first :: rest =>
    let node := top first rest
    { node with marks := node.marks + root }.compress.toList.flatMap wordBytes

def hexDigest (bytes : List UInt8) : String := Text.Hex.encode (hash bytes)

end WordMachine.Blake3

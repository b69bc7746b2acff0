import WordMachine.Bytes
import WordMachine.Snapshot
import WordMachine.Text.Utf8

/-!
The raw encoding of a snapshot. All numbers are words, low byte first: the program counter, the
eight registers, then the stack, the changed addresses, their values, and the three texts in UTF-8,
each behind its length in words or bytes. Nothing may follow.
-/

namespace WordMachine

inductive SnapshotField where
  | stack | keys | values | input | echo | output
deriving DecidableEq

def SnapshotField.name : SnapshotField → String
  | stack => "stack"
  | keys => "diff keys"
  | values => "diff values"
  | input => "input"
  | echo => "echo"
  | output => "output"

inductive EncodingError where
  | truncated (offset needed : Nat)
  | trailing (count : Nat)
  /-- The lists of changed addresses and of their values differ in length. -/
  | unpaired (keys values : Nat)
  | invalidUtf8 (field : SnapshotField)
  | tooLong (field : SnapshotField) (length : Nat)
deriving DecidableEq

namespace EncodingError

def message : EncodingError → String
  | truncated offset needed =>
    s!"truncated snapshot: {needed} bytes needed at offset {offset}"
  | trailing count => s!"{count} trailing bytes after snapshot"
  | unpaired keys values => s!"diff lists differ in length: {keys} keys, {values} values"
  | invalidUtf8 field => s!"invalid utf-8 in {field.name} buffer"
  | tooLong field length => s!"{field.name} too long to encode: {length}"

end EncodingError

namespace Snapshot

/-- The longest list or text that a word can count. -/
def maxLength : Nat := 65535

def encodeLength (field : SnapshotField) (length : Nat) : Except EncodingError (List UInt8) :=
  if length ≤ maxLength then .ok (Bytes.ofWord (UInt16.ofNat length))
  else .error (.tooLong field length)

def encodeWords (field : SnapshotField) (words : List Word) : Except EncodingError (List UInt8) :=
  return (← encodeLength field words.length) ++ words.flatMap Bytes.ofWord

def encodeText (field : SnapshotField) (text : String) : Except EncodingError (List UInt8) :=
  return (← encodeLength field text.utf8ByteSize) ++ Text.Utf8.encode text

def encode (s : Snapshot) : Except EncodingError (List UInt8) := do
  let stack ← encodeWords .stack s.stack.toList
  let keys ← encodeWords .keys (s.changed.toList.map Prod.fst)
  let values ← encodeWords .values (s.changed.toList.map Prod.snd)
  let input ← encodeText .input s.input
  let echo ← encodeText .echo s.echo
  let output ← encodeText .output s.output
  return Bytes.ofWord s.pc ++ (s.registers.toList.flatMap Bytes.ofWord ++
    (stack ++ (keys ++ (values ++ (input ++ (echo ++ output))))))

/-- The bytes still to be read, and the number of those that have been. -/
structure Source where
  offset : Nat
  rest : List UInt8

abbrev Reader := StateT Source (Except EncodingError)

namespace Reader

def word : Reader Word := fun s =>
  match s.rest with
  | low :: high :: rest => .ok (Bytes.toWord low high, ⟨s.offset + 2, rest⟩)
  | _ => .error (.truncated s.offset 2)

/-- Reads so many words behind those already read. -/
def wordsOnto (read : Array Word) : Nat → Reader (Array Word)
  | 0 => return read
  | n + 1 => do
    let w ← word
    wordsOnto (read.push w) n

def words : Reader (Array Word) := do
  let length ← word
  wordsOnto #[] length.toNat

def bytes (n : Nat) : Reader (List UInt8) := fun s =>
  let taken := s.rest.take n
  if taken.length = n then .ok (taken, ⟨s.offset + n, s.rest.drop n⟩)
  else .error (.truncated s.offset n)

def text (field : SnapshotField) : Reader String := do
  let length ← word
  match Text.Utf8.decode (← bytes length.toNat) with
  | .ok text => return text
  | .error _ => throw (.invalidUtf8 field)

def finish : Reader Unit := fun s =>
  if s.rest.isEmpty then .ok ((), s) else .error (.trailing s.rest.length)

end Reader

/-- Pairs addresses with values; a later pair replaces an earlier one of the same address. -/
def changesOf (keys values : List Word) : Changes :=
  (keys.zip values).foldl (fun changed pair => changed.insert pair.1 pair.2) ∅

def reader : Reader Snapshot := do
  let pc ← Reader.word
  let registers := #v[← Reader.word, ← Reader.word, ← Reader.word, ← Reader.word,
    ← Reader.word, ← Reader.word, ← Reader.word, ← Reader.word]
  let stack ← Reader.words
  let keys ← Reader.words
  let values ← Reader.words
  if keys.size ≠ values.size then
    throw (.unpaired keys.size values.size)
  let input ← Reader.text .input
  let echo ← Reader.text .echo
  let output ← Reader.text .output
  Reader.finish
  return { pc, registers, stack, changed := changesOf keys.toList values.toList,
           input, echo, output }

def decode (bytes : List UInt8) : Except EncodingError Snapshot :=
  (reader.run ⟨0, bytes⟩).map Prod.fst

end Snapshot

end WordMachine

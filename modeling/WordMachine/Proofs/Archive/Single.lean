import WordMachine.Archive.Zip
import WordMachine.Proofs.Archive.Stored

/-!
An archive with a single entry reads back: `extract_single` says that the entry comes out as it went
in. What has to be seen on the way is that the end record is found where it was put. It is found
last, because the numbers in it are too small to spell its signature again.
-/

namespace WordMachine.Zip

/-- A step of a reading whose result is known. -/
theorem bind_of_some {x : Option α} {a : α} (h : x = some a) (f : α → Option β) :
    (x >>= f) = f a := by
  rw [h]
  rfl

theorem guard_bind {p : Prop} [Decidable p] (h : p) (f : Unit → Option β) :
    (guard p >>= f) = f () := by
  have passed : (guard p : Option Unit) = some () := if_pos h
  exact bind_of_some passed f

/-! ### Numbers at fixed places -/

theorem slice?_here (bytes rest : List UInt8) :
    slice? (bytes ++ rest) 0 bytes.length = some bytes := by
  simp [slice?]

theorem slice?_none (record : List UInt8) (start : Nat) : slice? record start 0 = some [] := by
  simp [slice?]

/-- A place behind a number is counted from its end. -/
theorem slice?_skip {w start : Nat} (h : w ≤ start) (n : Nat) (rest : List UInt8) (length : Nat) :
    slice? (number w n ++ rest) start length = slice? rest (start - w) length := by
  have drop : (number w n ++ rest).drop start = rest.drop (start - w) := by
    rw [List.drop_append, List.drop_eq_nil_of_le (by simpa using h), length_number,
      List.nil_append]
  simp only [slice?, drop]

theorem field?_skip {w start : Nat} (h : w ≤ start) (n : Nat) (rest : List UInt8) (width : Nat) :
    field? (number w n ++ rest) start width = field? rest (start - w) width := by
  rw [field?, slice?_skip h, field?]

theorem field?_here (width n : Nat) (rest : List UInt8) :
    field? (number width n ++ rest) 0 width = some (n % range width) :=
  field?_number [] rest width n

/-! ### The three parts of the archive -/

def entryBytes (name : List UInt8) (content : List UInt8) : List UInt8 :=
  number 4 entrySignature ++ description name content (Deflate.store content) ++ name ++
    Deflate.store content

def directoryBytes (name : List UInt8) (content : List UInt8) : List UInt8 :=
  number 4 directorySignature ++ number 2 20 ++ description name content (Deflate.store content) ++
    number 2 0 ++ number 2 0 ++ number 2 0 ++ number 4 0 ++ number 4 0 ++ name

def endRecord (size offset : Nat) : List UInt8 :=
  number 4 endSignature ++ number 2 0 ++ number 2 0 ++ number 2 1 ++ number 2 1 ++
    number 4 size ++ number 4 offset ++ number 2 0

def archiveBytes (name : List UInt8) (content : List UInt8) : List UInt8 :=
  entryBytes name content ++ directoryBytes name content ++
    endRecord (directoryBytes name content).length (entryBytes name content).length

theorem single_eq (name : String) (content : List UInt8) :
    single name content = archiveBytes (Text.Utf8.encode name) content := rfl

theorem length_description (name content packed : List UInt8) :
    (description name content packed).length = 26 := by
  simp only [description, List.length_append, length_number]

theorem length_entryBytes (name content : List UInt8) :
    (entryBytes name content).length = name.length + (Deflate.store content).length + 30 := by
  simp only [entryBytes, List.length_append, length_number, length_description]
  omega

theorem length_directoryBytes (name content : List UInt8) :
    (directoryBytes name content).length = name.length + 46 := by
  simp only [directoryBytes, List.length_append, length_number, length_description]
  omega

/-! ### The end record -/

theorem endRecord_fields (size : Nat) {offset : Nat} (h : offset < range 4) :
    EndRecord.ofBytes? (endRecord size offset) = some ⟨0, 0, 1, 1, offset⟩ := by
  have comment : field? (endRecord size offset) 20 2 = some 0 := rfl
  have whole : slice? (endRecord size offset) 0 (22 + 0) = some (endRecord size offset) := rfl
  have disk : field? (endRecord size offset) 4 2 = some 0 := rfl
  have directoryDisk : field? (endRecord size offset) 6 2 = some 0 := rfl
  have count : field? (endRecord size offset) 8 2 = some 1 := rfl
  have total : field? (endRecord size offset) 10 2 = some 1 := rfl
  have last : field? (endRecord size offset) 16 4 = some offset := by
    simp [endRecord, field?_skip, field?_here, Nat.mod_eq_of_lt h]
  unfold EndRecord.ofBytes?
  rw [bind_of_some comment, bind_of_some whole, bind_of_some disk, bind_of_some directoryDisk,
    bind_of_some count, bind_of_some total, bind_of_some last]
  rfl

/-- The search goes over what stands before the end record, and keeps what it finds there behind
what comes later. -/
theorem places_go_append (signature front back : List UInt8) (place : Nat)
    (found : List (Nat × List UInt8)) :
    ∃ earlier, places.go signature (front ++ back) place found =
      places.go signature back (place + front.length) earlier := by
  induction front generalizing place found with
  | nil => exact ⟨found, rfl⟩
  | cons b front ih =>
    obtain ⟨earlier, h⟩ := ih (place + 1) (if signature.isPrefixOf (b :: (front ++ back)) then
      (place, b :: (front ++ back)) :: found else found)
    refine ⟨earlier, ?_⟩
    rw [List.cons_append, places.go, h, List.length_cons]
    congr 1
    omega

/-- A number below this has a high byte below 5, and none such occurs in the signature of an end
record. -/
def plainLimit : Nat := 0x05000000

theorem high_ne {n m : Nat} (fits : n < plainLimit) (large : 5 ≤ m) (byte : m < 256) :
    UInt8.ofNat m ≠ UInt8.ofNat (n / 256 / 256 / 256) := by
  intro same
  have nats := congrArg UInt8.toNat same
  rw [UInt8.toNat_ofNat', UInt8.toNat_ofNat', Nat.mod_eq_of_lt byte] at nats
  unfold plainLimit at fits
  omega

/-- No signature begins where its first byte is missing. -/
theorem places_go_plain {b : UInt8} {plain : List UInt8} (absent : b ∉ plain)
    (signature rest : List UInt8) (place : Nat) (found : List (Nat × List UInt8)) :
    places.go (b :: signature) (plain ++ rest) place found =
      places.go (b :: signature) rest (place + plain.length) found := by
  induction plain generalizing place with
  | nil => rfl
  | cons c plain ih =>
    rw [List.mem_cons, not_or] at absent
    have ne : (b == c) = false := by simpa using absent.1
    rw [List.cons_append, places.go, List.isPrefixOf_cons_cons, ne, Bool.false_and,
      if_neg Bool.false_ne_true, ih absent.2, List.length_cons]
    congr 1
    omega

/-- A signature that begins in the two numbers has one of four bytes in a high place. -/
theorem places_go_numbers {s₃ o₃ : UInt8} (six : 6 ≠ s₃) (five : 5 ≠ s₃) (k : 75 ≠ s₃)
    (p : 80 ≠ s₃) (offsetSix : 6 ≠ o₃) (s₀ s₁ s₂ o₀ o₁ o₂ : UInt8) (place : Nat)
    (found : List (Nat × List UInt8)) :
    places.go [80, 75, 5, 6] [s₀, s₁, s₂, s₃, o₀, o₁, o₂, o₃, 0, 0] place found = found := by
  simp [places.go, six, five, k, p, offsetSix]

theorem places_endRecord {size offset : Nat} (sizeFits : size < plainLimit)
    (offsetFits : offset < plainLimit) (front : List UInt8) :
    ∃ earlier, places (number 4 endSignature) (front ++ endRecord size offset) =
      (front.length, endRecord size offset) :: earlier := by
  obtain ⟨earlier, h⟩ := places_go_append (number 4 endSignature) front (endRecord size offset) 0 []
  have plain : (80 : UInt8) ∉ [75, 5, 6, 0, 0, 0, 0, 1, 0, 1, 0] := by decide
  have numbers := places_go_numbers (high_ne sizeFits (m := 6) (by omega) (by omega))
    (high_ne sizeFits (m := 5) (by omega) (by omega))
    (high_ne sizeFits (m := 75) (by omega) (by omega))
    (high_ne sizeFits (m := 80) (by omega) (by omega))
    (high_ne offsetFits (m := 6) (by omega) (by omega))
  refine ⟨earlier, ?_⟩
  rw [places, h, Nat.zero_add]
  exact (places_go_plain plain _ _ _ _).trans (numbers _ _ _ _ _ _ _ _)

/-- The end record leads to a directory that stands at its offset. -/
theorem endRecord_place (size : Nat) {offset : Nat} (offsetFits : offset < plainLimit)
    {bytes : List UInt8} (signed : number 4 directorySignature <+: bytes.drop offset)
    {recordAt : Nat} (before : offset < recordAt) :
    DirectoryPlace.ofEndRecord? bytes recordAt (endRecord size offset) = some ⟨0, offset, 1⟩ := by
  have inRange : offset < range 4 := Nat.lt_of_lt_of_le offsetFits (by decide)
  have narrow : (⟨0, 0, 1, 1, offset⟩ : EndRecord).mayBeWide = false := by
    unfold plainLimit at offsetFits
    simp only [EndRecord.mayBeWide, Bool.or_eq_false_iff, beq_eq_false_iff_ne, ne_eq]
    omega
  have found : firstPlace? (number 4 directorySignature) offset (bytes.drop offset) =
      some offset := by
    obtain ⟨tail, h⟩ := signed
    rw [← h]
    simp [number, directorySignature, firstPlace?]
  unfold DirectoryPlace.ofEndRecord?
  rw [bind_of_some (endRecord_fields size inRange), narrow, if_neg Bool.false_ne_true]
  change EndRecord.place? ⟨0, 0, 1, 1, offset⟩ bytes recordAt = _
  unfold EndRecord.place?
  rw [guard_bind rfl, if_neg Nat.one_ne_zero, bind_of_some found, guard_bind before, Nat.sub_self]
  rfl

/-! ### The entry -/

/-- What the directory says of the entry. -/
def soleEntry (name content : List UInt8) : Entry where
  name := name
  encrypted := false
  method := deflatedMethod
  checksum := (Crc32.checksum content).toNat
  packedSize := (Deflate.store content).length
  size := content.length
  place := 0

/-- An entry with a name that 16 bits can measure, and small enough for `places_endRecord`. -/
structure Fits (name content : List UInt8) : Prop where
  nameFits : name.length < range 2
  entryFits : (entryBytes name content).length < plainLimit

variable {name content : List UInt8}

theorem Fits.packed (fits : Fits name content) : (Deflate.store content).length < range 4 := by
  have small := fits.entryFits
  rw [length_entryBytes, plainLimit] at small
  simp only [range]
  omega

theorem Fits.plain (fits : Fits name content) : content.length < range 4 := by
  have packed := fits.packed
  rw [Deflate.length_store] at packed
  omega

theorem read?_directoryBytes (fits : Fits name content) (rest : List UInt8) {start : Nat}
    (ahead : 0 < start) :
    Entry.read? ⟨0, start, 1⟩ (directoryBytes name content ++ rest) =
      some (soleEntry name content, rest) := by
  have signature : field? (directoryBytes name content ++ rest) 0 4 = some directorySignature := by
    simp [directoryBytes, field?_here, directorySignature, range]
  have flags : field? (directoryBytes name content ++ rest) 8 2 = some 0 := by
    simp [directoryBytes, description, field?_skip, field?_here]
  have method : field? (directoryBytes name content ++ rest) 10 2 = some deflatedMethod := by
    simp [directoryBytes, description, field?_skip, field?_here, deflatedMethod, range]
  have checksum : field? (directoryBytes name content ++ rest) 16 4 =
      some (Crc32.checksum content).toNat := by
    have fits : (Crc32.checksum content).toNat < range 4 := UInt32.toNat_lt _
    simp [directoryBytes, description, field?_skip, field?_here, Nat.mod_eq_of_lt fits]
  have packedSize : field? (directoryBytes name content ++ rest) 20 4 =
      some (Deflate.store content).length := by
    simp [directoryBytes, description, field?_skip, field?_here, Nat.mod_eq_of_lt fits.packed]
  have size : field? (directoryBytes name content ++ rest) 24 4 = some content.length := by
    simp [directoryBytes, description, field?_skip, field?_here, Nat.mod_eq_of_lt fits.plain]
  have nameLength : field? (directoryBytes name content ++ rest) 28 2 = some name.length := by
    simp [directoryBytes, description, field?_skip, field?_here, Nat.mod_eq_of_lt fits.nameFits]
  have extraLength : field? (directoryBytes name content ++ rest) 30 2 = some 0 := by
    simp [directoryBytes, description, field?_skip, field?_here]
  have commentLength : field? (directoryBytes name content ++ rest) 32 2 = some 0 := by
    simp [directoryBytes, description, field?_skip, field?_here]
  have offset : field? (directoryBytes name content ++ rest) 42 4 = some 0 := by
    simp [directoryBytes, description, field?_skip, field?_here]
  have named : slice? (directoryBytes name content ++ rest) 46 name.length = some name := by
    simp [directoryBytes, description, slice?_skip, slice?_here]
  have behind : (directoryBytes name content ++ rest).drop (46 + name.length) = rest := by
    apply List.drop_left'
    rw [length_directoryBytes, Nat.add_comm]
  have withExtra (d : Description) : d.withExtra [] = some d := by
    rw [Description.withExtra]
    simp
  have known : deflatedMethod ≠ Entry.cipherMethod := by decide
  unfold Entry.read?
  rw [bind_of_some signature, guard_bind rfl, bind_of_some nameLength, bind_of_some extraLength,
    bind_of_some commentLength, bind_of_some flags, bind_of_some offset, bind_of_some named,
    bind_of_some (slice?_none _ _), bind_of_some (slice?_none _ _), bind_of_some method,
    bind_of_some packedSize, bind_of_some size, bind_of_some (withExtra _),
    guard_bind (.inl known)]
  refine (guard_bind ahead _).trans ?_
  rw [bind_of_some checksum, Nat.add_zero, Nat.add_zero, behind]
  rfl

/-! ### The archive -/

theorem drop_archiveBytes (name content : List UInt8) :
    (archiveBytes name content).drop (entryBytes name content).length =
      directoryBytes name content ++
        endRecord (directoryBytes name content).length (entryBytes name content).length := by
  rw [archiveBytes, List.append_assoc, List.drop_left]

theorem readAt?_archiveBytes (fits : Fits name content) :
    readAt? (archiveBytes name content)
        (entryBytes name content ++ directoryBytes name content).length
        (endRecord (directoryBytes name content).length (entryBytes name content).length) =
      some ⟨archiveBytes name content, [soleEntry name content]⟩ := by
  have nonempty : 0 < (entryBytes name content).length := by
    rw [length_entryBytes]
    omega
  have before : (entryBytes name content).length <
      (entryBytes name content ++ directoryBytes name content).length := by
    rw [List.length_append, length_directoryBytes]
    omega
  have signed : number 4 directorySignature <+:
      (archiveBytes name content).drop (entryBytes name content).length := by
    rw [drop_archiveBytes]
    simp only [directoryBytes, List.append_assoc]
    exact List.prefix_append _ _
  have place := endRecord_place (directoryBytes name content).length fits.entryFits signed before
  have entries : DirectoryPlace.entries? ⟨0, (entryBytes name content).length, 1⟩
      (archiveBytes name content) = some [soleEntry name content] := by
    simp only [DirectoryPlace.entries?, DirectoryPlace.entriesFrom?, drop_archiveBytes]
    rw [bind_of_some (read?_directoryBytes fits _ nonempty)]
    rfl
  unfold readAt?
  rw [bind_of_some place, bind_of_some entries]
  rfl

theorem read_archiveBytes (fits : Fits name content) :
    read (archiveBytes name content) =
      .ok ⟨archiveBytes name content, [soleEntry name content]⟩ := by
  have sizeFits : (directoryBytes name content).length < plainLimit := by
    have short : name.length < 65536 := fits.nameFits
    rw [length_directoryBytes, plainLimit]
    omega
  obtain ⟨earlier, candidates⟩ := places_endRecord sizeFits fits.entryFits
    (entryBytes name content ++ directoryBytes name content)
  have found := readAt?_archiveBytes fits
  rw [← archiveBytes] at candidates
  simp only [read, candidates, List.findSome?_cons, found]

theorem packed?_entryBytes (fits : Fits name content) (rest : List UInt8)
    (entries : List Entry) :
    (⟨entryBytes name content ++ rest, entries⟩ : Archive).packed? (soleEntry name content) =
      some (Deflate.store content) := by
  have signature : field? (entryBytes name content ++ rest) 0 4 = some entrySignature := by
    simp [entryBytes, field?_here, entrySignature, range]
  have nameLength : field? (entryBytes name content ++ rest) 26 2 = some name.length := by
    simp [entryBytes, description, field?_skip, field?_here, Nat.mod_eq_of_lt fits.nameFits]
  have extraLength : field? (entryBytes name content ++ rest) 28 2 = some 0 := by
    simp [entryBytes, description, field?_skip, field?_here]
  have behind : (entryBytes name content ++ rest).drop (30 + name.length + 0) =
      Deflate.store content ++ rest := by
    have split : entryBytes name content ++ rest = (number 4 entrySignature ++
        description name content (Deflate.store content) ++ name) ++
          (Deflate.store content ++ rest) := by
      simp only [entryBytes, List.append_assoc]
    rw [split]
    apply List.drop_left'
    rw [List.length_append, List.length_append, length_number, length_description]
    omega
  have atFront : (⟨entryBytes name content ++ rest, entries⟩ : Archive).bytes.drop
      (soleEntry name content).place = entryBytes name content ++ rest := rfl
  unfold Archive.packed?
  refine (bind_of_some signature _).trans ?_
  rw [atFront, guard_bind rfl, bind_of_some nameLength, bind_of_some extraLength, behind]
  change some ((Deflate.store content ++ rest).take (Deflate.store content).length) = _
  rw [List.take_left]

theorem Archive.content_of_unpack {a : Archive} {entry : Entry} {packed content : List UInt8}
    (unlocked : entry.encrypted = false) (here : a.packed? entry = some packed)
    (unpacked : unpack entry.method packed = .ok content)
    (checked : (Crc32.checksum content).toNat = entry.checksum) :
    a.content entry = .ok content := by
  unfold Archive.content
  rw [unlocked, here]
  change (unpack entry.method packed >>= _) = _
  rw [unpacked]
  exact if_pos checked

/-- The one entry comes out as it went in. -/
theorem extract_single {name : String} {content : List UInt8}
    (fits : Fits (Text.Utf8.encode name) content) :
    (read (single name content) >>= (·.extract name)) = .ok content := by
  have packed := packed?_entryBytes fits (directoryBytes (Text.Utf8.encode name) content ++
    endRecord (directoryBytes (Text.Utf8.encode name) content).length
      (entryBytes (Text.Utf8.encode name) content).length)
    [soleEntry (Text.Utf8.encode name) content]
  rw [← List.append_assoc, ← archiveBytes] at packed
  have unpacked : Archive.unpack deflatedMethod (Deflate.store content) = .ok content := by
    rw [Archive.unpack, if_neg (by decide), if_pos rfl, Deflate.inflate?_store]
  have found (bytes : List UInt8) : (⟨bytes, [soleEntry (Text.Utf8.encode name) content]⟩ :
      Archive).find? name = some (soleEntry (Text.Utf8.encode name) content) := by
    simp [Archive.find?, soleEntry]
  have kept := Archive.content_of_unpack rfl packed unpacked rfl
  rw [single_eq, read_archiveBytes fits]
  simp only [bind, Except.bind, Archive.extract, found, kept]

end WordMachine.Zip

import WordMachine.Archive.Deflate

/-!
Stored blocks read back: `inflate?_store` says that inflating what was stored gives the same bytes,
and `length_store_le` how much longer the stored form can be.
-/

namespace WordMachine.Deflate

/-- A step of a reading that succeeds hands its result and its stream on. -/
theorem bind_run {x : Inflate α} {f : α → Inflate β} {s s' : Stream} {a : α}
    (h : x s = .ok a s') : (x >>= f) s = f a s' := by
  simp only [bind, EStateM.bind, h]

theorem copyBytes_run (bytes tail : List UInt8) (out : Array UInt8) :
    copyBytes bytes.length { rest := bytes ++ tail, out } =
      .ok () { rest := tail, out := out ++ bytes.toArray } := by
  induction bytes generalizing out with
  | nil => simp [copyBytes, pure, EStateM.pure]
  | cons b bytes ih =>
    have emitted : out.push b ++ bytes.toArray = out ++ (b :: bytes).toArray := by
      apply Array.ext'
      simp
    rw [← emitted, ← ih (out.push b)]
    rfl

/-- Behind the first byte of a block, of which three bits are used, its length is read twice. -/
theorem stored_run (length : Word) (rest : List UInt8) (head : UInt8) (out : Array UInt8) :
    stored { rest := head :: (Bytes.ofWord length ++ (Bytes.ofWord (~~~length) ++ rest)),
             used := 3, out := out } = copyBytes length.toNat { rest, out } := by
  have aligned (bytes : List UInt8) : align { rest := head :: bytes, used := 3, out := out } =
      .ok () { rest := bytes, out } := rfl
  unfold stored
  rw [bind_run (aligned _)]
  simp only [Bytes.ofWord, List.cons_append, List.nil_append, byte, bind, EStateM.bind,
    Bytes.toWord_ofWord, if_true]

theorem header_run (last : Bool) (rest : List UInt8) (out : Array UInt8) :
    bit { rest := (if last then 1 else 0) :: rest, out := out } =
      .ok (if last then 1 else 0) { rest := (if last then 1 else 0) :: rest, used := 1, out } ∧
    bits 2 { rest := (if last then 1 else 0) :: rest, used := 1, out := out } =
      .ok 0 { rest := (if last then 1 else 0) :: rest, used := 3, out } := by
  cases last <;> simp [bit, bits, bind, EStateM.bind, pure, EStateM.pure]

theorem blocks_storedBlock {bytes : List UInt8} (short : bytes.length < 65536) (last : Bool)
    (tail : List UInt8) (bitCount budget : Nat) (out : Array UInt8) :
    blocks bitCount (budget + 1) { rest := storedBlock last bytes ++ tail, out := out } =
      (if last then pure () else blocks bitCount budget)
        { rest := tail, out := out ++ bytes.toArray } := by
  have length : (UInt16.ofNat bytes.length).toNat = bytes.length := UInt16.toNat_ofNat_of_lt' short
  have body := stored_run (UInt16.ofNat bytes.length) (bytes ++ tail) (if last then 1 else 0) out
  rw [length, copyBytes_run] at body
  have header := header_run last (Bytes.ofWord (UInt16.ofNat bytes.length) ++
    (Bytes.ofWord (~~~UInt16.ofNat bytes.length) ++ (bytes ++ tail))) out
  simp only [storedBlock, List.cons_append, List.append_assoc]
  rw [blocks, bind_run header.1, bind_run header.2, if_pos rfl, bind_run body]
  cases last <;> rfl

theorem blocks_stored {done : List (List UInt8)} {last : List UInt8}
    (short : ∀ block ∈ done, block.length < 65536) (lastShort : last.length < 65536)
    {budget : Nat} (enough : done.length ≤ budget) (bitCount : Nat) (out : Array UInt8) :
    blocks bitCount (budget + 1)
        { rest := done.flatMap (storedBlock false) ++ storedBlock true last, out := out } =
      .ok () { rest := [], out := out ++ (done.flatten ++ last).toArray } := by
  induction done generalizing budget out with
  | nil =>
    have h := blocks_storedBlock lastShort true [] bitCount budget out
    simpa [pure, EStateM.pure] using h
  | cons block done ih =>
    obtain ⟨budget, rfl⟩ : ∃ b, budget = b + 1 := ⟨budget - 1, by simp at enough; omega⟩
    have rest : ∀ b ∈ done, b.length < 65536 := fun b hb => short b (List.mem_cons_of_mem _ hb)
    have fits : done.length ≤ budget := by simpa using enough
    rw [List.flatMap_cons, List.append_assoc,
      blocks_storedBlock (short block List.mem_cons_self) false]
    simp only [Bool.false_eq_true, if_false]
    rw [ih rest fits]
    simp

/-- What cutting bytes gives: short blocks that join to the bytes, and no more of them than
bytes. -/
structure IsCut (bytes : List UInt8) (done : List (List UInt8)) (last : List UInt8) : Prop where
  joined : done.flatten ++ last = bytes
  short : ∀ block ∈ done, block.length ≤ blockSize
  lastShort : last.length ≤ blockSize
  count : done.length + last.length ≤ bytes.length

/-- One more byte, which ends a block. -/
theorem IsCut.close {bytes block : List UInt8} {done : List (List UInt8)}
    (h : IsCut bytes done block.reverse) (room : block.length < blockSize) (b : UInt8) :
    IsCut (bytes ++ [b]) (done ++ [(b :: block).reverse]) [] where
  joined := by
    rw [← h.joined]
    simp
  short := by
    intro c hc
    rw [List.mem_append, List.mem_singleton] at hc
    obtain earlier | rfl := hc
    · exact h.short c earlier
    · rw [List.length_reverse, List.length_cons]
      omega
  lastShort := Nat.zero_le _
  count := by
    have count := h.count
    simp only [List.length_append, List.length_reverse, List.length_cons, List.length_nil] at *
    omega

theorem IsCut.extend {bytes block : List UInt8} {done : List (List UInt8)}
    (h : IsCut bytes done block.reverse) (room : block.length < blockSize) (b : UInt8) :
    IsCut (bytes ++ [b]) done (b :: block).reverse where
  joined := by
    rw [← h.joined]
    simp
  short := h.short
  lastShort := by
    rw [List.length_reverse, List.length_cons]
    omega
  count := by
    have count := h.count
    simp only [List.length_append, List.length_reverse, List.length_cons, List.length_nil] at *
    omega

theorem isCut_cutOnto {read : List UInt8} {done : Array (List UInt8)} {block : List UInt8}
    {length : Nat} (sofar : IsCut read done.toList block.reverse) (size : block.length = length)
    (room : length < blockSize) (bytes : List UInt8) :
    IsCut (read ++ bytes) (cutOnto done block length bytes).1.toList
      (cutOnto done block length bytes).2 := by
  induction bytes generalizing read done block length with
  | nil =>
    rw [List.append_nil]
    exact sofar
  | cons b bytes ih =>
    have onward : read ++ b :: bytes = (read ++ [b]) ++ bytes := by simp
    rw [← size] at room
    rw [cutOnto, onward]
    split
    · have closed : IsCut (read ++ [b]) (done.push (b :: block).reverse).toList [] := by
        rw [Array.toList_push]
        exact sofar.close room b
      exact ih closed rfl (by decide)
    · refine ih (sofar.extend room b) ?_ ?_
      · rw [List.length_cons, size]
      · omega

theorem isCut_cut (bytes : List UInt8) : IsCut bytes (cut bytes).1 (cut bytes).2 := by
  have start : IsCut [] (#[] : Array (List UInt8)).toList [].reverse :=
    ⟨rfl, by simp, by simp, by simp⟩
  exact isCut_cutOnto start rfl (by decide) bytes

theorem length_storedBlock (last : Bool) (bytes : List UInt8) :
    (storedBlock last bytes).length = bytes.length + 5 := by
  simp [storedBlock, Bytes.ofWord]

theorem length_store (bytes : List UInt8) :
    (store bytes).length = bytes.length + 5 * ((cut bytes).1.length + 1) := by
  have joined := congrArg List.length (isCut_cut bytes).joined
  have blocks : ∀ done : List (List UInt8),
      (done.flatMap (storedBlock false)).length = done.flatten.length + 5 * done.length := by
    intro done
    induction done with
    | nil => rfl
    | cons block done ih =>
      simp only [List.flatMap_cons, List.length_append, length_storedBlock, ih,
        List.flatten_cons, List.length_cons]
      omega
  rw [List.length_append] at joined
  simp only [store, List.length_append, blocks, length_storedBlock]
  omega

theorem length_store_le (bytes : List UInt8) : (store bytes).length ≤ 6 * bytes.length + 5 := by
  have count := (isCut_cut bytes).count
  rw [length_store]
  omega

/-- Inflating what was stored gives it back. -/
theorem inflate?_store (bytes : List UInt8) : inflate? (store bytes) = some bytes := by
  have cutting := isCut_cut bytes
  have short : ∀ block ∈ (cut bytes).1, block.length < 65536 := fun block hb =>
    Nat.lt_of_le_of_lt (cutting.short block hb) (by decide)
  have lastShort : (cut bytes).2.length < 65536 :=
    Nat.lt_of_le_of_lt cutting.lastShort (by decide)
  have enough : (cut bytes).1.length ≤ 8 * (store bytes).length := by
    rw [length_store]
    omega
  have run := blocks_stored short lastShort enough (8 * (store bytes).length) #[]
  rw [cutting.joined] at run
  have stored : store bytes =
    (cut bytes).1.flatMap (storedBlock false) ++ storedBlock true (cut bytes).2 := rfl
  rw [← stored] at run
  simp only [inflate?, EStateM.run, run]
  simp

end WordMachine.Deflate

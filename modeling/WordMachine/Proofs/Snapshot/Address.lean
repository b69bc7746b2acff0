import WordMachine.Proofs.Memory.Cells
import WordMachine.Proofs.Snapshot.Future
import WordMachine.Proofs.Snapshot.RoundTrip
import WordMachine.Snapshot.Archive

/-!
Addresses computed from content. Over one image a snapshot says what a machine shows and nothing
else (`snapshot_eq_iff`), and its encoding says what the snapshot does; so machines that went
through any histories have one encoding just when they are in one state. With a hash that keeps the
two encodings apart the same goes for their addresses (`content_address_faithful`).
-/

namespace WordMachine

namespace Snapshot

variable {s t : Snapshot} {a b : List UInt8}

theorem encode_eq_iff (encodes : s.encode = .ok a) (encodes' : t.encode = .ok b) :
    a = b ↔ s = t := by
  constructor
  · rintro rfl
    have decodes := (decode_encode encodes).symm.trans (decode_encode encodes')
    cases decodes
    rfl
  · rintro rfl
    rw [encodes] at encodes'
    cases encodes'
    rfl

theorem contentAddress_of_encode (encodes : s.encode = .ok a) :
    s.contentAddress = .ok ("b3:" ++ Blake3.hexDigest a) := by
  rw [contentAddress, encodes]
  rfl

theorem contentAddress_eq_iff (encodes : s.encode = .ok a) (encodes' : t.encode = .ok b)
    (apart : Blake3.hash a = Blake3.hash b → a = b) :
    s.contentAddress = t.contentAddress ↔ a = b := by
  rw [contentAddress_of_encode encodes, contentAddress_of_encode encodes']
  constructor
  · intro same
    have digests : Blake3.hexDigest a = Blake3.hexDigest b := by simpa using same
    exact apart (Text.Hex.encode_injective digests)
  · rintro rfl
    rfl

end Snapshot

namespace Machine

/-- Machines that agree on everything but their history: on every cell and register, and on what is
waiting to be read and printed. -/
structure SameState (m n : Machine) : Prop where
  pc : m.pc = n.pc
  registers : m.registers = n.registers
  stack : m.stack = n.stack
  read : ∀ a, m.memory.read a = n.memory.read a
  pending : m.console.pending = n.console.pending
  echo : m.console.echo = n.console.echo
  output : m.console.output = n.console.output

variable {m n : Machine}

theorem snapshot_eq_iff (image : m.memory.image = n.memory.image) :
    m.snapshot = n.snapshot ↔ m.SameState n := by
  constructor
  · intro shown
    have copies : m.fork = n.fork := fork_eq_of_alike ⟨image, shown⟩
    simp only [fork, Console.fork, Machine.mk.injEq, Console.mk.injEq] at copies
    obtain ⟨memory, registers, stack, pc, ⟨pending, echo, output, -⟩, -⟩ := copies
    exact ⟨pc, registers, stack, fun a => by rw [memory], pending, echo, output⟩
  · rintro ⟨pc, registers, stack, read, pending, echo, output⟩
    have memory : m.memory = n.memory := Memory.ext_read image read
    simp only [snapshot, Console.input, pc, registers, stack, memory, pending, echo, output]

/-- The image is the one that was loaded, whatever has been done since. -/
theorem image_performAll {words : List Word} (loaded : ofImage words = .ok m)
    (history : List Operation) : (m.performAll history).memory.image = words.toArray :=
  ((Cells.mirror_ofImage loaded).performAll history).image

/-- Two machines that hold one image, after any histories, have one encoding just when they are in
one state, and one address just when they are, unless the hash takes their encodings for one. -/
theorem content_address_faithful {words : List Word} (loaded : ofImage words = .ok m)
    (loaded' : ofImage words = .ok n) (history history' : List Operation) {a b : List UInt8}
    (encodes : (m.performAll history).snapshot.encode = .ok a)
    (encodes' : (n.performAll history').snapshot.encode = .ok b) :
    (a = b ↔ (m.performAll history).SameState (n.performAll history')) ∧
    ((Blake3.hash a = Blake3.hash b → a = b) →
      ((m.performAll history).snapshot.contentAddress =
          (n.performAll history').snapshot.contentAddress ↔
        (m.performAll history).SameState (n.performAll history'))) := by
  have image := (image_performAll loaded history).trans (image_performAll loaded' history').symm
  have state : a = b ↔ (m.performAll history).SameState (n.performAll history') :=
    (Snapshot.encode_eq_iff encodes encodes').trans (snapshot_eq_iff image)
  exact ⟨state, fun apart => (Snapshot.contentAddress_eq_iff encodes encodes' apart).trans state⟩

/-- One machine wrote two cells. The other wrote a third one back, and was restored to a difference
that repeats a cell of the image. -/
theorem content_address_faithful_reverted :
    let m : Machine := { memory := Memory.ofImage [7, 8, 9] }
    let redundant : Changes := ((Std.ExtTreeMap.insert ∅ 0 7).insert 1 5).insert 9 2
    let p := m.performAll [.move (.write 1 5), .move (.write 9 2)]
    let q := m.performAll [.move (.write 2 4), .move (.write 2 9), .fork,
      .restore { changed := redundant }]
    ofImage [7, 8, 9] = .ok m ∧ p.snapshot.contentAddress = q.snapshot.contentAddress ∧
      ∃ a, p.snapshot.encode = .ok a ∧ q.snapshot.encode = .ok a := by
  intro m redundant p q
  have loaded : ofImage [7, 8, 9] = .ok m := rfl
  have state : p.SameState q := by
    refine ⟨rfl, rfl, rfl, fun addr => ?_, rfl, rfl, rfl⟩
    have written : p.memory.read addr =
        if addr = 9 then 2 else if addr = 1 then 5 else m.memory.loaded addr := by
      simp only [p, performAll, List.foldl, Operation.perform, Move.make, write, Memory.read_write]
      rfl
    have restored : q.memory.read addr = redundant.getD addr (m.memory.loaded addr) :=
      Memory.read_replaceChanged _ _ _
    rw [written, restored]
    simp only [redundant, Std.ExtTreeMap.getD_insert, Std.LawfulEqCmp.compare_eq_iff_eq,
      eq_comm (b := addr)]
    by_cases first : addr = 0
    · subst first
      rfl
    · simp [first]
  have fits : p.snapshot.Encodable := ⟨by decide, by decide, by decide, by decide, by decide⟩
  have entries : q.snapshot.changed.size ≤ Snapshot.maxLength :=
    Nat.le_trans Std.ExtTreeMap.size_filter_le_size (by decide : redundant.size ≤ _)
  have fits' : q.snapshot.Encodable := ⟨by decide, entries, by decide, by decide, by decide⟩
  have encodes := Snapshot.encode_of_encodable fits
  have encodes' := Snapshot.encode_of_encodable fits'
  obtain ⟨encodings, addresses⟩ := content_address_faithful loaded loaded _ _ encodes encodes'
  have same := encodings.2 state
  exact ⟨loaded, (addresses fun _ => same).2 state, _, encodes, same ▸ encodes'⟩

end Machine

end WordMachine

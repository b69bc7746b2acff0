import Mathlib.Data.Set.Card
import WordMachine.Inspector.Report
import WordMachine.Proofs.Inspector.Line
import WordMachine.Proofs.Inspector.Printed
import WordMachine.Proofs.Memory.Sweep
import WordMachine.Proofs.Snapshot.Address
import WordMachine.Proofs.Snapshot.Restore

/-!
What the inspector shows of a saved machine. It has two files only: it goes to the saved state from
a machine freshly loaded from the image, and comes out at a copy of the machine that was saved
(`saveListing_of_image`). So the listing is the sweep through that machine's own memory, and the
fields are its own, whatever it had done before (`save_shows_machine`).
-/

namespace WordMachine

/-- The difference has an entry for each cell that is not as it was loaded. -/
theorem Memory.ncard_differing (m : Memory) :
    {a | m.read a ≠ m.loaded a}.ncard = m.changed.size := by
  have keys : {a | m.read a ≠ m.loaded a} = ↑m.changed.keys.toFinset := by
    ext a
    rw [Set.mem_ofPred_eq, ← m.mem_changed_iff, List.coe_toFinset, Set.mem_ofPred_eq,
      Std.ExtTreeMap.mem_keys]
  rw [keys, Set.ncard_coe_finset, List.toFinset_card_of_nodup Std.ExtTreeMap.nodup_keys,
    Std.ExtTreeMap.length_keys]

namespace Inspector

open Snapshot (bind_eq_ok ok_bind)

variable {files : Files} {text : Bool} {path : String} {loaded m : Machine}

theorem mapError_eq_ok {x : Except ε α} {f : ε → ε'} {a : α} :
    x.mapError f = .ok a ↔ x = .ok a := by
  cases x <;> simp [Except.mapError]

/-- A machine that is loaded from a file is at rest before the words that are read there. -/
theorem ofImage_of_loadMachine (h : loadMachine files text path = .ok loaded) :
    ∃ words, Machine.ofImage words = .ok loaded := by
  simp only [loadMachine, bind_eq_ok] at h
  obtain ⟨bytes, -, h⟩ := h
  cases text with
  | true =>
    simp only [if_true, bind_eq_ok, mapError_eq_ok, Machine.ofText] at h
    obtain ⟨_, -, words, -, loads⟩ := h
    exact ⟨words, loads⟩
  | false =>
    simp only [Bool.false_eq_true, if_false, mapError_eq_ok, Machine.ofBytes, bind_eq_ok] at h
    obtain ⟨words, -, loads⟩ := h
    exact ⟨words, loads⟩

/-- Over the machine's own image the inspector comes to the machine's own memory. -/
theorem saveListing_of_image (loads : loadMachine files text path = .ok loaded)
    (image : m.memory.image = loaded.memory.image) (bounded : m.memory.extent ≤ 65536)
    (window : Nat) :
    saveListing files text m.snapshot window (some path) =
      .ok ((m.memory.sweep m.pc).toList.take window) := by
  have copy : (loaded.restore m.snapshot).memory = m.memory := by
    rw [Machine.restore_snapshot image]
    rfl
  have entries : (m.memory.sweep m.pc).take window = (m.memory.sweep m.pc).toList.take window :=
    Sweep.take_eq_take_toList bounded window
  simp only [saveListing, loads, ok_bind, copy, ← entries]
  rfl

theorem report_save {archive address : String} {image : Option String} {bytes : List UInt8}
    {s : Snapshot} {window : Nat} {entries : List Listing} (stored : files archive = .ok bytes)
    (decoded : Snapshot.ofArchive bytes = .ok s) (addressed : s.contentAddress = .ok address)
    (listed : saveListing files text s window image = .ok entries) (color json : Bool) :
    report files color ⟨text, json, .save archive image window⟩ =
      .ok (if json then (saveJson s address entries).pretty ++ "\n"
        else lines (saveLines (Style.ofColor color) s address entries)) := by
  simp only [report, readFile, stored, Except.mapError, ok_bind, decoded, addressed, listed]
  cases json <;> rfl

/-- The line that asks for a save is answered with the summary of the machine that was saved and the
first entries of the sweep from its program counter through its memory: as lines, or as JSON. -/
theorem save_shows_machine {image archive : String}
    (loads : loadMachine files text image = .ok loaded) (history : List Operation)
    {saved : List UInt8} (stored : files archive = .ok saved)
    (kept : (loaded.performAll history).save = .ok saved ∨
      (loaded.performAll history).SavedIn saved)
    (color : Bool) (window : Nat) :
    let m := loaded.performAll history
    let style := Style.ofColor color
    let changed := {a | m.memory.read a ≠ m.memory.loaded a}.ncard
    let entries := (m.memory.sweep m.pc).toList.take window
    let command := Command.save archive (some image) window
    let inBrackets := fun words : List Word =>
      "[" ++ ", ".intercalate (words.map fun w => w.toNat.repr) ++ "]"
    ∃ address, m.snapshot.contentAddress = .ok address ∧
      (∀ json other, Plain archive → Plain image → window < UInt64.size →
        read { image := other } (saveLine text json archive image window) =
          .ok ⟨text, json, command⟩) ∧
      report files color ⟨text, false, command⟩ = .ok (String.join (([
        style.bold "cid:" ++ " " ++ address,
        style.bold "pc:" ++ " " ++ m.pc.toNat.repr,
        style.bold "registers:" ++ " " ++ inBrackets m.registers.toList,
        style.bold "stack:" ++ " " ++ inBrackets m.stack.toList,
        style.bold "changed:" ++ " " ++ changed.repr ++ " cells",
        style.bold "pending input:" ++ " " ++ Text.Quoted.string m.console.input,
        style.bold "output buffer:" ++ " " ++ Text.Quoted.string m.console.output] ++
          entries.map (Listing.line style)).map (· ++ "\n"))) ∧
      let fields : List (String × Json) := [
        ("changed", .natural changed),
        ("cid", .string address),
        ("echo", .string m.console.echo),
        ("input", .string m.console.input),
        ("listing", .array (entries.map Listing.json)),
        ("output", .string m.console.output),
        ("pc", .natural m.pc.toNat),
        ("registers", .array (m.registers.toList.map fun w => .natural w.toNat)),
        ("stack", .array (m.stack.toList.map fun w => .natural w.toNat))]
      report files color ⟨text, true, command⟩ = .ok ((Json.object fields).pretty ++ "\n") ∧
      (Json.object fields).pretty =
        "\x7b\n  " ++ ",\n  ".intercalate (fields.map fun field =>
          Json.quote field.1 ++ ": " ++ field.2.text .pretty 1) ++ "\n\x7d" := by
  intro m style changed entries command inBrackets
  obtain ⟨words, begun⟩ := ofImage_of_loadMachine loads
  have whole : m.memory.image = loaded.memory.image := by
    rw [Machine.image_performAll begun history]
    exact (Machine.image_performAll begun []).symm
  have bounded : m.memory.extent ≤ 65536 :=
    ((Machine.Reachable.load begun).performAll history).extent_le
  obtain ⟨raw, encoded, extracted⟩ := kept.elim Snapshot.extract_toArchive id
  have decoded : Snapshot.ofArchive saved = .ok m.snapshot :=
    Snapshot.ofArchive_of_extract encoded extracted
  have addressed : m.snapshot.contentAddress = .ok ("b3:" ++ Blake3.hexDigest raw) :=
    Snapshot.contentAddress_of_encode encoded
  have listed : saveListing files text m.snapshot window (some image) = .ok entries :=
    saveListing_of_image loads whole bounded window
  have shown := report_save stored decoded addressed listed color
  have differing : changed = m.snapshot.changed.size := m.memory.ncard_differing
  refine ⟨_, addressed, ?_, ?_, ?_, ?_⟩
  · intro json other plain plain' fits
    exact read_saveLine other text json plain plain' fits
  · rw [shown, if_neg Bool.false_ne_true, lines_eq, differing]
    rfl
  · rw [shown, differing]
    rfl
  · exact Json.pretty_object (List.cons_ne_nil _ _)

/-- A `halt` was written over an `out`, and the operand behind it is now shown as data. -/
theorem save_shows_machine_patched :
    let loaded : Machine := { memory := Memory.ofImage [21, 19, 65] }
    let m := loaded.performAll [.move (.write 1 0), .move (.setPc 1), .move (.feed "\t\n")]
    ∃ (saved : List UInt8) (address : String),
      let files : Files := fun path => .ok (if path = "slot" then saved else [21, 0, 19, 0, 65, 0])
      loadMachine files false "game" = .ok loaded ∧ m.save = .ok saved ∧
      m.snapshot.contentAddress = .ok address ∧
      read {} ["save", "slot", "--image", "game", "--window", "2"] =
        .ok ⟨false, false, .save "slot" (some "game") 2⟩ ∧
      report files false ⟨false, false, .save "slot" (some "game") 2⟩ = .ok ("cid: " ++ address ++
        ("\npc: 1\nregisters: [0, 0, 0, 0, 0, 0, 0, 0]\nstack: []\nchanged: 1 cells\n" ++
          "pending input: \"\\t\\n\"\noutput buffer: \"\"\n    1: halt\n    2: .word 65\n")) ∧
      report files false ⟨false, true, .save "slot" (some "game") 2⟩ =
        .ok ("\x7b\n  \"changed\": 1,\n  \"cid\": " ++ Json.quote address ++
          (",\n  \"echo\": \"\",\n  \"input\": \"\\t\\n\",\n  \"listing\": [\n    \x7b\n" ++
            "      \"addr\": 1,\n      \"op\": \"halt\",\n      \"operands\": []\n    \x7d,\n" ++
            "    \x7b\n      \"addr\": 2,\n      \"word\": 65\n    \x7d\n  ],\n" ++
            "  \"output\": \"\",\n  \"pc\": 1,\n  \"registers\": [\n    0,\n    0,\n    0,\n" ++
            "    0,\n    0,\n    0,\n    0,\n    0\n  ],\n  \"stack\": []\n\x7d\n")) := by
  intro loaded m
  obtain ⟨saved, kept⟩ : ∃ saved, m.save = .ok saved := ⟨_, rfl⟩
  let files : Files := fun path => .ok (if path = "slot" then saved else [21, 0, 19, 0, 65, 0])
  have image : files "game" = .ok [21, 0, 19, 0, 65, 0] := congrArg Except.ok (if_neg (by decide))
  have loads : loadMachine files false "game" = .ok loaded := by
    rw [loadMachine, readFile, image]
    rfl
  have stored : files "slot" = .ok saved := rfl
  obtain ⟨address, addressed, asked, printed, json, object⟩ := save_shows_machine loads
    [.move (.write 1 0), .move (.setPc 1), .move (.feed "\t\n")] stored (.inl kept) false 2
  have asked := asked false none (by simp [Plain]) (by simp [Plain]) (by decide)
  have one : m.memory.changed.size = 1 := rfl
  have extent : m.memory.extent = 3 := by rw [Memory.extent_eq]; rfl
  have entries : (m.memory.sweep m.pc).toList.take 2 =
      [.instruction ⟨1, .halt, #v[]⟩, .data 2 65] := by
    have all : (m.memory.sweep m.pc).toList = (m.memory.sweep m.pc).take 3 :=
      congrArg (m.memory.sweep m.pc).take extent
    rw [all]
    simp only [Sweep.take, Sweep.takeOnto, Sweep.next?, Memory.sweep, Memory.instructionAt,
      Memory.extent_eq]
    rfl
  -- The address is a hash that is not computed here, so each text is cut at it.
  refine ⟨saved, address, loads, kept, addressed, asked, ?_, ?_⟩
  · have label : (Style.ofColor false).bold "cid:" ++ " " = "cid: " := by decide +kernel
    rw [printed, Memory.ncard_differing, one, entries, label, List.cons_append, List.map_cons,
      String.join_cons, String.append_assoc]
    refine congrArg (fun rest => Except.ok ("cid: " ++ address ++ rest)) ?_
    simp only [Text.Quoted.string_eq]
    decide +kernel
  · let shown := fun field : String × Json =>
      Json.quote field.1 ++ ": " ++ field.2.text .pretty 1
    have front : "\x7b\n  " ++ shown ("changed", .natural 1) ++ ",\n  " ++
        (Json.quote "cid" ++ ": ") = "\x7b\n  \"changed\": 1,\n  \"cid\": " := by
      simp only [shown, Json.quote_eq]
      decide +kernel
    have address' : (Json.string address).text .pretty 1 = Json.quote address :=
      String.empty_append
    rw [json, object, Memory.ncard_differing, one, entries, List.map_cons, List.map_cons,
      intercalate_cons, List.map_cons, String.join_cons, address', ← front]
    refine congrArg Except.ok ?_
    simp only [shown, String.append_assoc, String.append_right_inj]
    simp only [Json.text, Listing.json, List.map_cons, List.map_nil, Json.write, Json.writeItems,
      Json.writeFields, Json.quote_eq]
    decide +kernel

end Inspector

end WordMachine

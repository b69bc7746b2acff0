import Mathlib.Data.List.DropRight
import WordMachine.Proofs.Run.Chronicle

/-!
Input is consumed once and in order. A turn reads the input in one of two ways (`ReadsInput`): an
`input` that completes takes the first character of the queue and stores it, and any other turn
leaves the queue with what was supplied. Along a chronicle no character is lost, invented or moved,
and the echo is what was consumed since the latest newline (`input_consumed_in_order`).
-/

namespace WordMachine

/-- The character that the turn consumed: the one that a completed `input` has stored. -/
def Turn.consumed? (t : Turn) : Option Char := do
  let i ← t.completed?
  if i.opcode = .input then
    let r ← i.destination?
    return Char.ofNat (t.after.registers.get r).toNat
  else none

namespace Occurrence

/-- The characters that were added to the queue, by the caller or by an observer. -/
def provided : Occurrence → List Char
  | fed text => text.toList
  | turn t => t.supplied.toList

def consumed : Occurrence → List Char
  | fed _ => []
  | turn t => t.consumed?.toList

end Occurrence

namespace Console

/-- The echo of consumed characters, after an earlier echo. -/
def echoed (echo consumed : List Char) : List Char :=
  if '\n' ∈ consumed then consumed.rtakeWhile (· ≠ '\n') else echo ++ consumed

theorem echoed_concat (echo consumed : List Char) (ch : Char) :
    echoed echo (consumed ++ [ch]) = if ch = '\n' then [] else echoed echo consumed ++ [ch] := by
  by_cases newline : ch = '\n'
  · subst newline
    simp [echoed]
  · by_cases earlier : '\n' ∈ consumed
    · simp [echoed, newline, earlier]
    · simp [echoed, newline, earlier, Ne.symm newline]

theorem echoed_append (echo first rest : List Char) :
    echoed echo (first ++ rest) = echoed (echoed echo first) rest := by
  induction rest using List.reverseRecOn with
  | nil => simp [echoed]
  | append_singleton rest ch ih =>
    rw [← List.append_assoc, echoed_concat, echoed_concat, ih]

end Console

namespace Turn

/-- How a turn reads the input. -/
inductive ReadsInput (t : Turn) : Prop where
  | leaves (other : ∀ i, t.completed? = some i → i.opcode ≠ .input)
    (pending : t.after.console.pending = t.before.console.pending ++ t.supplied.toList)
    (echo : t.after.console.echo = t.before.console.echo)
    (told : t.transcript.inputs = [])
  | takes {i : Instruction} {r : Reg} {ch : Char} (completes : t.completed? = some i)
    (asks : i.opcode = .input) (destination : i.destination? = some r)
    (fits : ch.toNat < Word.modulus)
    (stored : (t.after.registers.get r).toNat = ch.toNat)
    (pending : t.before.console.pending ++ t.supplied.toList = ch :: t.after.console.pending)
    (echo : t.after.console.echo = if ch = '\n' then "" else t.before.console.echo.push ch)
    (told : t.transcript.inputs = [(t.before.pc, ch)])

variable {t : Turn}

theorem Happens.readsInput (h : t.Happens) : t.ReadsInput := by
  cases h with
  | incomplete unfinished console inputs _ =>
    refine .leaves (fun i completes => ?_) ?_ ?_ inputs
    · cases unfinished.symm.trans completes
    · rw [console, Console.pending_feed]
    · rw [console, Console.feed_eq]
  | @completed i effect completes means goes after inputs _ =>
    have console : t.after.console = effect.onConsole (t.before.console.feed t.supplied) := by
      rw [after, Machine.console_apply]
      rfl
    have yields := Effect.yields_of_meaning? means
    by_cases asks : i.opcode = .input
    -- An `input` that goes on does not wait, so it takes a character.
    · rw [asks] at yields
      obtain rfl | ⟨r, ch, rfl⟩ := Effect.wait_or_consume_of_yields yields
      · cases goes
      · obtain ⟨⟨rest, pending⟩, fits⟩ := Effect.pending_of_meaning?_consume means
        have queue : (t.before.console.feed t.supplied).pending = ch :: rest := pending
        have drained : t.after.console = (t.before.console.feed t.supplied).drain := console
        simp only [Console.drain, queue] at drained
        have destination := Effect.destination?_of_meaning? means (by simp)
        refine .takes completes asks destination fits ?_ ?_ ?_ inputs
        · have inside : ch.toNat < 2 ^ 16 := fits.trans (by decide)
          rw [after, Machine.registers_apply]
          simpa [Effect.write?, Bank.get_set] using inside
        · rw [drained, ← Console.pending_feed, queue]
        · rw [drained, Console.feed_eq]
    · have takesNone := Effect.consumed?_of_yields yields asks
      obtain ⟨pending, echo⟩ := Effect.input_onConsole takesNone (t.before.console.feed t.supplied)
      refine .leaves (fun j same => ?_) ?_ ?_ ?_
      · cases completes.symm.trans same
        exact asks
      · rw [console, pending, Console.pending_feed]
      · rw [console, echo, Console.feed_eq]
      · rw [inputs, takesNone]
        rfl

theorem ReadsInput.consumed? (h : t.ReadsInput) :
    t.consumed?.toList = t.transcript.inputs.map Prod.snd := by
  cases h with
  | leaves other _ _ told =>
    have nothing : t.consumed? = none := by
      rw [Turn.consumed?]
      cases completes : t.completed? with
      | none => rfl
      | some i => simp [other i completes]
    rw [nothing, told]
    rfl
  | takes completes asks destination _ stored _ _ told =>
    simp [Turn.consumed?, completes, asks, destination, stored, told, Char.ofNat_toNat]

/-- What is taken from the front of the queue and what is left make up what was there. -/
theorem ReadsInput.queue (h : t.ReadsInput) :
    t.consumed?.toList ++ t.after.console.pending =
      t.before.console.pending ++ t.supplied.toList := by
  rw [h.consumed?]
  cases h with
  | leaves _ pending _ told => rw [told, pending]; rfl
  | takes _ _ _ _ _ pending _ told => rw [told, pending]; rfl

theorem ReadsInput.echoed (h : t.ReadsInput) :
    t.after.console.echo.toList =
      Console.echoed t.before.console.echo.toList t.consumed?.toList := by
  rw [h.consumed?]
  cases h with
  | leaves _ _ echo told => simp [told, echo, Console.echoed]
  | @takes _ _ ch _ _ _ _ _ _ echo told =>
    rw [told, echo]
    by_cases newline : ch = '\n'
    · simp [newline, Console.echoed]
    · simp [newline, Ne.symm newline, Console.echoed]

end Turn

namespace Leads

variable {c d : Console} {chronicle : List Occurrence}

theorem queue (h : Leads c chronicle d) :
    chronicle.flatMap Occurrence.consumed ++ d.pending =
      c.pending ++ chronicle.flatMap Occurrence.provided := by
  induction h with
  | nothing => simp
  | @fed c d rest text _ ih =>
    simpa [Occurrence.consumed, Occurrence.provided] using ih
  | @turn d rest t happens _ ih =>
    calc t.consumed?.toList ++ rest.flatMap Occurrence.consumed ++ d.pending
      _ = t.consumed?.toList ++ t.after.console.pending ++ rest.flatMap Occurrence.provided := by
        rw [List.append_assoc, ih, List.append_assoc]
      _ = t.before.console.pending ++ (t.supplied.toList ++ rest.flatMap Occurrence.provided) := by
        rw [happens.readsInput.queue, List.append_assoc]

theorem echoed (h : Leads c chronicle d) :
    d.echo.toList = Console.echoed c.echo.toList (chronicle.flatMap Occurrence.consumed) := by
  induction h with
  | nothing => simp [Console.echoed]
  | @fed c d rest text _ ih =>
    rw [ih, Console.feed_eq]
    rfl
  | @turn d rest t happens _ ih =>
    rw [ih, happens.readsInput.echoed, ← Console.echoed_append]
    rfl

end Leads

namespace Machine

/-- Input is consumed exactly once and in order, whoever provides it and however the moves cut it
up. -/
theorem input_consumed_in_order (m : Machine) (moves : List Move) :
    let chronicle := m.chronicle moves
    let n := m.play moves
    let consumed := chronicle.flatMap Occurrence.consumed
    consumed ++ n.console.pending =
        m.console.pending ++ chronicle.flatMap Occurrence.provided ∧
      n.console.echo.toList = Console.echoed m.console.echo.toList consumed ∧
      ∀ t, .turn t ∈ chronicle → t.ReadsInput := by
  intro chronicle n consumed
  have leads : Leads m.console chronicle n.console := leads_play m moves
  exact ⟨leads.queue, leads.echoed, fun t occurs => (leads.happens occurs).readsInput⟩

/-- A caller feeds two characters; an observer has three more, the last of them too large. -/
theorem input_consumed_in_order_supplied :
    let config : RunConfig := { suspendOnInput := false }
    let observer : Observer String := { supply := fun text => (some text, "") }
    let m : Machine :=
      { memory := Memory.ofImage [20, 32768, 20, 32769, 20, 32770, 20, 32771, 20, 32768] }
    let moves : List Move :=
      [.feed "go", .step config observer "", .run config observer "\nn語" 8]
    let first := (m.feed "go").turn config observer ""
    let n := m.play moves
    n.console.pending = ['語'] ∧ n.console.echo.toList = ['n'] ∧
      .turn first ∈ m.chronicle moves ∧ first.ReadsInput ∧
      first.transcript.inputs = [(0, 'g')] := by
  intro config observer m moves first n
  have consumed : (m.chronicle moves).flatMap Occurrence.consumed = ['g', 'o', '\n', 'n'] := by
    unfold moves m config observer Occurrence.consumed Turn.consumed? Turn.completed?
    simp only [chronicle, Move.occurrences, Move.make, turnsFrom, turn, step, awaitsInput,
      Memory.instructionAt, Memory.extent_eq]
    rfl
  have provided :
      (m.chronicle moves).flatMap Occurrence.provided = ['g', 'o', '\n', 'n', '語'] := by
    unfold moves m config observer
    simp only [chronicle, Move.occurrences, Move.make, turnsFrom, turn, step, awaitsInput,
      Memory.instructionAt, Memory.extent_eq]
    rfl
  have told : first.transcript.inputs = [(0, 'g')] := by
    unfold first m config observer
    simp only [turn, step, awaitsInput, Memory.instructionAt, Memory.extent_eq]
    rfl
  have occurs : .turn first ∈ m.chronicle moves := .tail _ (.head _)
  obtain ⟨queue, echo, reads⟩ := input_consumed_in_order m moves
  rw [consumed] at echo
  refine ⟨?_, echo.trans (by decide), occurs, reads first occurs, told⟩
  rw [consumed, provided] at queue
  exact List.append_cancel_left queue

end Machine

end WordMachine

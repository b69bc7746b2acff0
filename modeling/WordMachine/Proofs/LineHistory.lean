import WordMachine.LineCursor
import Mathlib.Data.List.Infix

/-!
A reader follows a growing line history with one cursor. From its first read on, the cursor stands
at the end of what was read, and a history only grows, so each later read adds just the lines that
are new (`Following`, which every event preserves). What the reader has been told therefore starts
where the first read started: at the cursor's index, or at the end of a history that was shorter.
-/

namespace WordMachine

inductive HistoryEvent where
  | append (line : String)
  | read
deriving DecidableEq

namespace HistoryEvent

/-- The size of a history at the first read of the events, given its size before them. -/
def sizeAtRead : Nat → List HistoryEvent → Nat
  | size, [] => size
  | size, .append _ :: events => sizeAtRead (size + 1) events
  | size, .read :: _ => size

end HistoryEvent

/-- A history, the cursor that reads it, all that its reads have yielded, and the lines that were
there at the latest of them. -/
structure LineReader where
  lines : Array String
  cursor : LineCursor
  told : List String := []
  seen : List String := []
deriving DecidableEq

namespace LineReader

open HistoryEvent (sizeAtRead)

variable {start index : Nat} {r : LineReader} {lines : Array String} {line : String}

def after (r : LineReader) : HistoryEvent → LineReader
  | .append line => { r with lines := r.lines.push line }
  | .read =>
    let (yielded, cursor) := r.cursor.read r.lines
    { r with cursor := cursor, told := r.told ++ yielded, seen := r.lines.toList }

def afterAll (r : LineReader) (events : List HistoryEvent) : LineReader :=
  events.foldl after r

/-- What becomes of a cursor at `index` over the history `lines`. -/
def follow (index : Nat) (lines : Array String) (events : List HistoryEvent) : LineReader :=
  afterAll ⟨lines, ⟨index⟩, [], []⟩ events

/-- The reader has read at least once, and was told of the lines from `start` on. -/
structure Following (start : Nat) (r : LineReader) : Prop where
  told : r.told = r.seen.drop start
  position : r.cursor.position = r.seen.length
  grown : r.seen <+: r.lines.toList
  start_le : start ≤ r.seen.length

theorem Following.first_read :
    Following (min index lines.size) (after ⟨lines, ⟨index⟩, [], []⟩ .read) where
  told := by
    simp only [after, LineCursor.read, List.nil_append]
    rcases Nat.le_total index lines.size with inside | ahead
    · rw [Nat.min_eq_left inside]
    · -- an index past the end reads nothing, and neither does the end
      rw [Nat.min_eq_right ahead, List.drop_eq_nil_of_le (by simpa using ahead),
        List.drop_eq_nil_of_le (by simp)]
  position := by simp [after, LineCursor.read]
  grown := List.prefix_refl _
  start_le := Nat.min_le_right index lines.size

theorem Following.append (following : Following start r) :
    Following start (r.after (.append line)) where
  told := following.told
  position := following.position
  grown := by
    have pushed : r.lines.toList <+: (r.lines.push line).toList := by simp
    exact following.grown.trans pushed
  start_le := following.start_le

/-- A read adds the lines beyond those of the latest read. -/
theorem Following.read (following : Following start r) : Following start (r.after .read) where
  told := by
    obtain ⟨fresh, grown⟩ := following.grown
    simp only [after, LineCursor.read, following.told, following.position, ← grown]
    rw [List.drop_left, List.drop_append_of_le_length following.start_le]
  position := by simp [after, LineCursor.read]
  grown := List.prefix_refl _
  start_le := following.start_le.trans following.grown.length_le

theorem Following.afterAll (following : Following start r) (events : List HistoryEvent) :
    Following start (r.afterAll events) := by
  induction events generalizing r with
  | nil => exact following
  | cons event events ih =>
    cases event with
    | append line => exact ih following.append
    | read => exact ih following.read

/-- The reads yield the lines from the cursor's index on, or from the end of the history at the
first read when that comes before it. -/
theorem told_follow (index : Nat) (lines : Array String) (events : List HistoryEvent) :
    (follow index lines events).told =
      (follow index lines events).seen.drop (min index (sizeAtRead lines.size events)) := by
  -- The induction goes up to the first read; from there on `Following` carries the statement.
  induction events generalizing lines with
  | nil => exact List.drop_nil.symm
  | cons event events ih =>
    cases event with
    | append line =>
      have shifted := ih (lines.push line)
      rwa [Array.size_push] at shifted
    | read => exact (Following.first_read.afterAll events).told

/-- The reads have yielded the lines from the cursor's index on, each once and in order, exactly
when the history held that many lines at the first read, or has not been seen to grow since. -/
theorem told_from_index (index : Nat) (lines : Array String) (events : List HistoryEvent) :
    (follow index lines events).told =
        (follow index lines events).seen.drop (min index (sizeAtRead lines.size events)) ∧
      ((follow index lines events).told = (follow index lines events).seen.drop index ↔
        index ≤ sizeAtRead lines.size events ∨
          (follow index lines events).seen.length ≤ sizeAtRead lines.size events) := by
  have told := told_follow index lines events
  refine ⟨told, ?_⟩
  rw [told]
  constructor
  · intro same
    have lengths := congrArg List.length same
    simp only [List.length_drop] at lengths
    omega
  · rintro (inside | ungrown)
    · rw [Nat.min_eq_left inside]
    · rcases Nat.le_total index (sizeAtRead lines.size events) with inside | ahead
      · rw [Nat.min_eq_left inside]
      · rw [Nat.min_eq_right ahead, List.drop_eq_nil_of_le ungrown,
          List.drop_eq_nil_of_le (ungrown.trans ahead)]

/-- A cursor at 2 that is read at one line goes back to 1, and the next read yields line 1. -/
theorem told_before_index :
    (follow 2 #[] [.append "a", .read, .append "b", .read]).told = ["b"] ∧
      (follow 2 #[] [.append "a", .read, .append "b", .read]).seen.drop 2 = [] := by
  decide

end LineReader

end WordMachine

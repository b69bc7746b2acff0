/-!
Character input and output. Input is a queue that is fed by the caller and drained one character at
a time; what is drained is echoed until the next newline. Output gathers into a line that moves to
the history at each newline. `feed_eq` says that feeding only appends.
-/

namespace WordMachine

structure Console where
  pending : List Char := []
  echo : String := ""
  output : String := ""
  lines : Array String := #[]
deriving DecidableEq, Inhabited

namespace Console

def feed (c : Console) (text : String) : Console :=
  if text = "" then c else { c with pending := c.pending ++ text.toList }

def hasInput (c : Console) : Bool := !c.pending.isEmpty

/-- Drains the first pending character into the echo; a newline clears the echo instead. -/
def drain (c : Console) : Console :=
  match c.pending with
  | [] => c
  | ch :: rest =>
    { c with pending := rest, echo := if ch = '\n' then "" else c.echo.push ch }

def emit (c : Console) (ch : Char) : Console :=
  if ch = '\n' then { c with output := "", lines := c.lines.push c.output }
  else { c with output := c.output.push ch }

def input (c : Console) : String := String.ofList c.pending

/-- The same buffers with an empty history. -/
def fork (c : Console) : Console := { c with lines := #[] }

@[simp]
theorem feed_empty (c : Console) : c.feed "" = c := if_pos rfl

theorem feed_eq (c : Console) (text : String) :
    c.feed text = { c with pending := c.pending ++ text.toList } := by
  unfold feed
  split
  · rename_i h
    simp [h]
  · rfl

@[simp]
theorem pending_feed (c : Console) (text : String) :
    (c.feed text).pending = c.pending ++ text.toList := by
  rw [feed_eq]

end Console

end WordMachine

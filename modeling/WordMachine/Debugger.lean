import WordMachine.Observer

/-!
An observer that stops at outputs and at reads of watched registers, and hands out scripted lines of
input. It remembers the latest stop it asked for.
-/

namespace WordMachine

inductive Hit where
  | output (pc : Word) (ch : Char)
  | registerRead (pc : Word) (reg : Reg)
deriving DecidableEq

structure Debugger where
  breakOnOutput : Bool := false
  watched : Bank Bool := Bank.fill false
  script : List String := []
  lastHit : Option Hit := none
deriving DecidableEq, Inhabited

namespace Debugger

def setBreakOnOutput (d : Debugger) (enabled : Bool) : Debugger :=
  { d with breakOnOutput := enabled }

def watch (d : Debugger) (r : Reg) : Debugger := { d with watched := d.watched.set r true }

def unwatch (d : Debugger) (r : Reg) : Debugger := { d with watched := d.watched.set r false }

/-- The line with a newline at its end. -/
def completeLine (line : String) : String :=
  if line.toList.getLast? = some '\n' then line else line.push '\n'

def scriptLine (d : Debugger) (line : String) : Debugger :=
  { d with script := d.script ++ [completeLine line] }

def stopIf (condition : Bool) (hit : Hit) (d : Debugger) : Verdict × Debugger :=
  if condition then (.stop, { d with lastHit := some hit }) else (.proceed, d)

def nextLine (d : Debugger) : Option String × Debugger :=
  match d.script with
  | [] => (none, d)
  | line :: rest => (some line, { d with script := rest })

def observer : Observer Debugger where
  beforeRead pc r d := d.stopIf (d.watched.get r) (.registerRead pc r)
  beforeOutput pc ch d := d.stopIf d.breakOnOutput (.output pc ch)
  supply := nextLine

end Debugger

end WordMachine

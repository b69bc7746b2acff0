import WordMachine.Observer

/-!
An observer that records everything it is told, in order. It stops at register reads and outputs of
chosen ordinal numbers and supplies texts from a list.
-/

namespace WordMachine

inductive Event where
  | read (pc : Word) (reg : Reg)
  | output (pc : Word) (ch : Char)
  | input (pc : Word) (ch : Char)
  | line (text : String)
  /-- The text supplied when input was missing, if there was one. -/
  | supply (text : Option String)
deriving DecidableEq

structure Recorder where
  /-- The texts still to be supplied. -/
  texts : List String := []
  /-- The register reads to stop at, counted from zero. -/
  stopReads : List Nat := []
  stopOutputs : List Nat := []
  reads : Nat := 0
  outputs : Nat := 0
  events : Array Event := #[]

namespace Recorder

def record (event : Event) (r : Recorder) : Recorder := { r with events := r.events.push event }

def verdictAt (stops : List Nat) (ordinal : Nat) : Verdict :=
  if ordinal ∈ stops then .stop else .proceed

def observer : Observer Recorder where
  beforeRead pc reg r :=
    (verdictAt r.stopReads r.reads, { r with reads := r.reads + 1 }.record (.read pc reg))
  beforeOutput pc ch r :=
    (verdictAt r.stopOutputs r.outputs, { r with outputs := r.outputs + 1 }.record (.output pc ch))
  onInput pc ch r := r.record (.input pc ch)
  onLine text r := r.record (.line text)
  supply r :=
    match r.texts with
    | [] => (none, r.record (.supply none))
    | text :: rest => (some text, { r with texts := rest }.record (.supply (some text)))

end Recorder

end WordMachine

/-!
How a run treats missing input, unprintable output and its own length.
-/

namespace WordMachine

structure RunConfig where
  /-- Return to the caller before an input instruction that finds no input. -/
  suspendOnInput : Bool := true
  /-- Refuse output other than newlines and printable ASCII. -/
  strictOutput : Bool := true
  stepLimit : Option Nat := none
deriving DecidableEq, Inhabited

end WordMachine

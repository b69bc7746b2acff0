import WordMachine.Memory

/-!
Snapshots: what a machine's future depends on besides its image, at one point in time. The stack is
listed from the bottom.
-/

namespace WordMachine

structure Snapshot where
  pc : Word := 0
  registers : Registers := Bank.fill 0
  stack : Array Word := #[]
  changed : Changes := ∅
  input : String := ""
  echo : String := ""
  output : String := ""
deriving DecidableEq, Inhabited

end WordMachine

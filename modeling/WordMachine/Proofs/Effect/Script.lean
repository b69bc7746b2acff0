import WordMachine.Effect

/-!
What an instruction can do while it is resolved: return, fault at its own address, and ask its
observer, one after the other. An instruction that need not ask for input keeps to this, and to one
course of action whoever watches (`uniform_resolve`). So it is supplied with nothing, it is stopped
or comes to the outcome that it has unwatched (`SameScript.follows`), and an observer that minds
nothing is left as it was (`Uniform.run_indifferent`).
-/

namespace WordMachine

namespace Fault

/-- The faults of decoding, as opposed to those of an instruction that was decoded. -/
def isOfDecoding : Fault → Bool
  | endOfProgram _ | unknownOpcode _ _ => true
  | _ => false

end Fault

/-- What an instruction asks of its observer: whether it may read a register, or print. -/
inductive Question where
  | read (r : Reg)
  | output (ch : Char)

namespace Observer

def answer (o : Observer σ) (pc : Word) : Question → σ → Verdict × σ
  | .read r => o.beforeRead pc r
  | .output ch => o.beforeOutput pc ch

/-- In this state the observer lets everything pass and takes no note of it. -/
structure Indifferent (o : Observer σ) (s : σ) : Prop where
  answers : ∀ pc q, o.answer pc q s = (.proceed, s)
  onInput : ∀ pc ch, o.onInput pc ch s = s
  onLine : ∀ line, o.onLine line s = s

end Observer

/-- The observer says stop to something that an instruction at the given address may do. -/
def Observer.Stops (observer : Observer σ) (pc : Word) : Prop :=
  (∃ r s, (observer.beforeRead pc r s).1 = .stop) ∨
    ∃ ch s, (observer.beforeOutput pc ch s).1 = .stop

/-- A fault of a decoded instruction at the program counter. -/
structure Machine.Commits (m : Machine) (observer : Observer σ) (fault : Fault) : Prop where
  place : fault.pc? = some m.pc
  decoded : fault.isOfDecoding = false
  stops : fault = .stopped m.pc → observer.Stops m.pc

namespace Effect

/-- One course of action twice, under an observer and with nobody to consult. -/
inductive SameScript (m : Machine) (observer : Observer σ) :
    {α : Type} → Resolve σ α → Resolve Unit α → Prop where
  | pure {α : Type} (a : α) : SameScript m observer (pure a) (pure a)
  | fault {α : Type} {f : Fault} : m.Commits observer f →
    SameScript m observer (.fault f : Resolve σ α) (.fault f)
  | consult {ask : σ → Verdict × σ} : (∀ s, (ask s).1 = .stop → observer.Stops m.pc) →
    SameScript m observer (consult m ask) (consult m fun s => (.proceed, s))
  | bind {α β : Type} {x : Resolve σ α} {y : Resolve Unit α} {f : α → Resolve σ β}
    {g : α → Resolve Unit β} : SameScript m observer x y →
    (∀ a, SameScript m observer (f a) (g a)) → SameScript m observer (x >>= f) (y >>= g)

variable {m : Machine} {observer : Observer σ}

namespace SameScript

variable {α : Type} {x : Resolve σ α} {y : Resolve Unit α}

theorem supplied (h : SameScript m observer x y) (d : Dialogue σ) :
    (x.run d).2.supplied = d.supplied := by
  induction h generalizing d with
  | pure a => rfl
  | fault commits => rfl
  | consult stops =>
    simp only [Effect.consult, Resolve.run]
    split <;> rfl
  | @bind α β x y f g _ _ first rest =>
    have kept := first d
    rw [Resolve.run_bind]
    generalize x.run d = r at kept
    obtain ⟨_ | a, between⟩ := r
    · exact kept
    · exact (rest a between).trans kept

theorem commits (h : SameScript m observer x y) (d : Dialogue σ) {fault : Fault}
    (faults : (x.run d).1 = .error fault) : m.Commits observer fault := by
  induction h generalizing d with
  | pure a => cases faults
  | fault commits =>
    cases faults
    exact commits
  | consult stops =>
    simp only [Effect.consult, Resolve.run] at faults
    split at faults
    · cases faults
    · rename_i asked
      cases faults
      exact ⟨rfl, rfl, fun _ => stops d.observer (by rw [asked])⟩
  | @bind α β x y f g _ _ first rest =>
    have early := first d
    rw [Resolve.run_bind] at faults
    generalize x.run d = r at early faults
    obtain ⟨_ | a, between⟩ := r
    · cases faults
      exact early rfl
    · exact rest a between faults

/-- Neither what the observer knows nor what anyone was supplied with matters for the outcome. -/
theorem follows (h : SameScript m observer x y) (d : Dialogue σ) (u : Dialogue Unit) :
    (x.run d).1 = .error (.stopped m.pc) ∨ (x.run d).1 = (y.run u).1 := by
  induction h generalizing d u with
  | pure a => exact .inr rfl
  | fault commits => exact .inr rfl
  | consult stops =>
    simp only [Effect.consult, Resolve.run]
    split
    · exact .inr rfl
    · exact .inl rfl
  | @bind α β x y f g _ _ first rest =>
    have early := first d u
    rw [Resolve.run_bind, Resolve.run_bind]
    generalize x.run d = r at early
    generalize y.run u = alone at early
    obtain ⟨outcome, between⟩ := r
    obtain ⟨outcome', between'⟩ := alone
    obtain stops | same := early
    · obtain rfl : outcome = .error (.stopped m.pc) := stops
      exact .inl rfl
    · obtain rfl : outcome = outcome' := same
      cases outcome with
      | error fault => exact .inr rfl
      | ok a => exact rest a between between'

end SameScript

/-- A computation that takes one course of action under every observer: it returns, faults at the
program counter, and asks, one after the other. -/
inductive Uniform (m : Machine) : {α : Type} → (∀ σ, Observer σ → Resolve σ α) → Prop where
  | pure {α : Type} (a : α) : Uniform m fun _ _ => pure a
  | fault {α : Type} {f : Fault} : f.pc? = some m.pc → f.isOfDecoding = false →
    (∀ pc, f ≠ .stopped pc) → Uniform m fun σ _ => (.fault f : Resolve σ α)
  | ask (q : Question) : Uniform m fun _ o => consult m (o.answer m.pc q)
  | bind {α β : Type} {x : ∀ σ, Observer σ → Resolve σ α}
    {f : α → ∀ σ, Observer σ → Resolve σ β} : Uniform m x → (∀ a, Uniform m (f a)) →
    Uniform m fun σ o => x σ o >>= fun a => f a σ o

namespace Uniform

variable {α : Type} {x : ∀ σ, Observer σ → Resolve σ α}

theorem sameScript (h : Uniform m x) (observer : Observer σ) :
    SameScript m observer (x σ observer) (x Unit .silent) := by
  induction h with
  | pure a => exact .pure a
  | fault place decoded other => exact .fault ⟨place, decoded, fun same => absurd same (other _)⟩
  | ask q =>
    cases q with
    | read r => exact .consult fun s said => .inl ⟨r, s, said⟩
    | output ch => exact .consult fun s said => .inr ⟨ch, s, said⟩
  | bind _ _ first rest => exact .bind first rest

/-- An indifferent observer notices nothing, and the computation is not stopped. -/
theorem run_indifferent (h : Uniform m x) {d : Dialogue σ}
    (indifferent : observer.Indifferent d.observer) :
    ((x σ observer).run d).2 = d ∧ ∀ pc, ((x σ observer).run d).1 ≠ .error (.stopped pc) := by
  induction h with
  | pure a => exact ⟨rfl, nofun⟩
  | fault _ _ other =>
    refine ⟨rfl, fun pc same => ?_⟩
    cases same
    exact other pc rfl
  | ask q =>
    simp only [consult, Resolve.run, indifferent.answers m.pc q]
    exact ⟨trivial, nofun⟩
  | @bind α β x f _ _ first rest =>
    obtain ⟨unchanged, unstopped⟩ := first
    rw [Resolve.run_bind]
    generalize (x σ observer).run d = r at unchanged unstopped
    obtain ⟨outcome, between⟩ := r
    obtain rfl : between = d := unchanged
    cases outcome with
    | error fault =>
      refine ⟨rfl, fun pc same => ?_⟩
      cases same
      exact unstopped pc rfl
    | ok a => exact rest a

end Uniform

variable {op : Opcode} {config : RunConfig}

theorem uniform_read (w : Word) : Uniform m fun _ o => read o m op w := by
  unfold read
  cases Operand.ofWord? w with
  | none => exact .fault rfl rfl nofun
  | some operand =>
    cases operand with
    | literal value => exact .pure value
    | register r => exact (Uniform.ask (.read r)).bind fun _ => .pure _

theorem uniform_destination (w : Word) : Uniform m fun _ _ => destination m op w := by
  unfold destination
  cases Operand.ofWord? w with
  | none => exact .fault rfl rfl nofun
  | some operand =>
    cases operand with
    | literal value => exact .fault rfl rfl nofun
    | register r => exact .pure r

theorem uniform_top : Uniform m fun _ _ => top m op := by
  unfold top
  cases m.stack.back? with
  | none => exact .fault rfl rfl nofun
  | some value => exact .pure value

theorem uniform_unary (f : Word → Word) (a b : Word) :
    Uniform m fun _ o => unary o m op f a b :=
  (uniform_destination a).bind fun _ => (uniform_read b).bind fun _ => .pure _

theorem uniform_binary (f : Word → Word → Word) (a b c : Word) :
    Uniform m fun _ o => binary o m op f a b c :=
  (uniform_destination a).bind fun _ => (uniform_read b).bind fun _ =>
    (uniform_read c).bind fun _ => .pure _

theorem uniform_remainder (a b c : Word) : Uniform m fun _ o => remainder o m op a b c := by
  refine (uniform_destination a).bind fun _ => (uniform_read b).bind fun _ =>
    (uniform_read c).bind fun divisor => ?_
  by_cases zero : divisor = 0
  · simp only [zero, if_true]
    exact .fault rfl rfl nofun
  · simp only [zero, if_false]
    exact .pure _

theorem uniform_output (a : Word) : Uniform m fun _ o => output config o m op a := by
  refine (uniform_read a).bind fun value => ?_
  by_cases refused : (config.strictOutput && !value.isPlain) = true
  · simp only [refused, if_true]
    exact .fault rfl rfl nofun
  · simp only [refused]
    exact (Uniform.ask (.output (character value))).bind fun _ => .pure _

/-- An effect that takes the values of two operands. -/
theorem uniform_takingTwo (a b : Word) (f : Word → Word → Effect) :
    Uniform m fun _ o => do let x ← read o m op a; return f x (← read o m op b) :=
  (uniform_read a).bind fun _ => (uniform_read b).bind fun _ => .pure _

/-- An `input` that names no register does not come to look for input. -/
theorem uniform_input_of_unnamed {a : Word}
    (other : ∀ reg, Operand.ofWord? a ≠ some (.register reg)) :
    Uniform m fun _ o => input o m op a := by
  unfold input destination
  cases operand : Operand.ofWord? a with
  | none => exact .fault rfl rfl nofun
  | some named =>
    cases named with
    | literal value => exact .fault rfl rfl nofun
    | register reg => exact absurd operand (other reg)

theorem uniform_input_of_pending (ready : m.console.pending ≠ []) (a : Word) :
    Uniform m fun _ o => input o m op a := by
  obtain ⟨ch, rest, pending⟩ := List.exists_cons_of_ne_nil ready
  have first : ∀ (σ : Type) (o : Observer σ), firstInput o m = pure (some ch) := by
    intro σ o
    funext d
    simp only [firstInput, pending]
    rfl
  unfold input
  simp only [first]
  refine (uniform_destination a).bind fun reg => (Uniform.pure (some ch)).bind fun first => ?_
  cases first with
  | none => exact .pure _
  | some ch =>
    by_cases fits : ch.toNat < Word.modulus
    · simp only [fits, if_true]
      exact .pure _
    · simp only [fits, if_false]
      exact .fault rfl rfl nofun

theorem uniform_resolve (w : Vector Word op.operandCount)
    (ready : op = .input → m.console.pending ≠ []) :
    Uniform m fun _ o => resolve config o m op w := by
  cases op with
  | halt | noop => exact .pure _
  | set | not | load => exact uniform_unary _ _ _
  | eq | gt | add | mult | and | or => exact uniform_binary _ _ _ _
  | mod => exact uniform_remainder _ _ _
  | push | jump | call => exact (uniform_read _).bind fun _ => .pure _
  | pop => exact (uniform_destination _).bind fun _ => uniform_top.bind fun _ => .pure _
  | jumpIf | jumpUnless | store => exact uniform_takingTwo _ _ _
  | ret => exact uniform_top.bind fun _ => .pure _
  | output => exact uniform_output _
  | input => exact uniform_input_of_pending (ready rfl) _

theorem sameScript_resolve (other : op ≠ .input) (w : Vector Word op.operandCount) :
    SameScript m observer (resolve config observer m op w) (resolve config .silent m op w) :=
  (uniform_resolve w fun asks => absurd asks other).sameScript observer

end Effect

end WordMachine

import WordMachine.Proofs.Effect.Script

/-!
How the dialogue over an instruction ends. Text is supplied to `input` alone, when none is pending,
and an instruction that then faults does so at a character of it (`closes_resolve`). A watched
instruction is stopped or does what it does unwatched, as long as an observer that is asked for
input has none (`follows_resolve`).
-/

namespace WordMachine.Effect

variable {m : Machine} {op : Opcode} {config : RunConfig} {observer : Observer σ} {s : σ}

/-- Text that comes of a dialogue over an instruction: some from an observer that is asked by an
`input` without any pending, else nothing. -/
def Supplies (observer : Observer σ) (s : σ) (m : Machine) (op : Opcode) (text : String) : Prop :=
  text = "" ∨ op = .input ∧ m.console.pending = [] ∧ (observer.supply s).1 = some text

/-- The outcome of an instruction at the program counter, and the text supplied to it. -/
structure Closes (observer : Observer σ) (s : σ) (m : Machine) (op : Opcode)
    (outcome : Except Fault Effect) (text : String) : Prop where
  supplies : Supplies observer s m op text
  commits (fault : Fault) : outcome = .error fault → m.Commits observer fault
  character (fault : Fault) : outcome = .error fault →
    text = "" ∨ ∃ ch, fault = .invalidInput ch m.pc

theorem SameScript.closes {x : Resolve σ Effect} {y : Resolve Unit Effect}
    (h : SameScript m observer x y) (s : σ) :
    Closes observer s m op (x.run ⟨s, ""⟩).1 (x.run ⟨s, ""⟩).2.supplied where
  supplies := .inl (h.supplied _)
  commits _ faults := h.commits _ faults
  character _ _ := .inl (h.supplied _)

theorem SameScript.follows_silent {x : Resolve σ α} {y : Resolve Unit α}
    (h : SameScript m observer x y) (h' : SameScript m .silent y y) (s : σ) :
    (x.run ⟨s, ""⟩).1 = .error (.stopped m.pc) ∨
      (x.run ⟨s, ""⟩).1 = (y.run ⟨(), ""⟩).1 ∧
        (x.run ⟨s, ""⟩).2.supplied = (y.run ⟨(), ""⟩).2.supplied := by
  have left := h.supplied ⟨s, ""⟩
  have right := h'.supplied ⟨(), ""⟩
  exact (h.follows _ _).imp_right fun same => ⟨same, left.trans right.symm⟩

/-- What an `input` makes of the first character, if there is one. -/
def consumption (m : Machine) (reg : Reg) : Option Char → Except Fault Effect
  | none => .ok .wait
  | some ch =>
    if ch.toNat < Word.modulus then .ok (.consume reg ch) else .error (.invalidInput ch m.pc)

theorem eq_invalidInput_of_consumption {reg : Reg} {first : Option Char} {fault : Fault}
    (h : consumption m reg first = .error fault) : ∃ ch, fault = .invalidInput ch m.pc := by
  cases first with
  | none => cases h
  | some ch =>
    simp only [consumption] at h
    split at h
    · cases h
    · cases h
      exact ⟨ch, rfl⟩

theorem closes_consumption {text : String} (supplies : Supplies observer s m op text) (reg : Reg)
    (first : Option Char) : Closes observer s m op (consumption m reg first) text where
  supplies := supplies
  commits fault h := by
    obtain ⟨ch, rfl⟩ := eq_invalidInput_of_consumption h
    exact ⟨rfl, rfl, nofun⟩
  character fault h := .inr (eq_invalidInput_of_consumption h)

theorem sameScript_input {a : Word} (other : ∀ reg, Operand.ofWord? a ≠ some (.register reg)) :
    SameScript m observer (input observer m op a) (input .silent m op a) :=
  (uniform_input_of_unnamed other).sameScript observer

theorem run_input {a : Word} {reg : Reg} {first : Option Char} {d d' : Dialogue σ}
    (operand : Operand.ofWord? a = some (.register reg))
    (asked : (firstInput observer m).run d = (.ok first, d')) :
    (input observer m op a).run d = (consumption m reg first, d') := by
  simp only [input, destination, operand, Resolve.run_bind, Resolve.run_pure, asked]
  cases first with
  | none => rfl
  | some ch => by_cases fits : ch.toNat < Word.modulus <;> simp [consumption, fits]

theorem firstInput_supplies (observer : Observer σ) (m : Machine) (s : σ) :
    ∃ first d, (firstInput observer m).run ⟨s, ""⟩ = (.ok first, d) ∧
      Supplies observer s m .input d.supplied := by
  simp only [firstInput, Resolve.run]
  split
  · exact ⟨_, _, rfl, .inl rfl⟩
  · rename_i pending
    split
    · rename_i asked
      exact ⟨_, _, rfl, .inr ⟨rfl, pending, by rw [asked]⟩⟩
    · exact ⟨_, _, rfl, .inl rfl⟩

theorem firstInput_of_unsupplied
    (unsupplied : m.console.pending = [] → (observer.supply s).1 = none) :
    ∃ t, (firstInput observer m).run ⟨s, ""⟩ = (.ok m.console.pending.head?, ⟨t, ""⟩) := by
  simp only [firstInput, Resolve.run]
  split
  · rename_i pending
    rw [pending]
    exact ⟨s, rfl⟩
  · rename_i pending
    have nothing := unsupplied pending
    split
    · rename_i asked
      rw [asked] at nothing
      cases nothing
    · rename_i t asked
      rw [pending]
      exact ⟨t, rfl⟩

theorem closes_resolve (config : RunConfig) (observer : Observer σ) (m : Machine)
    (w : Vector Word op.operandCount) (s : σ) :
    let r := (resolve config observer m op w).run ⟨s, ""⟩
    Closes observer s m op r.1 r.2.supplied := by
  by_cases asks : op = .input
  · subst asks
    by_cases names : ∃ reg, Operand.ofWord? w[0] = some (.register reg)
    · obtain ⟨reg, operand⟩ := names
      obtain ⟨first, d, asked, supplies⟩ := firstInput_supplies observer m s
      simp only [resolve, run_input operand asked]
      exact closes_consumption supplies reg first
    · exact (sameScript_input (not_exists.1 names)).closes s
  · exact (sameScript_resolve asks w).closes s

theorem follows_resolve (config : RunConfig) (w : Vector Word op.operandCount)
    (unsupplied : op = .input → m.console.pending = [] → (observer.supply s).1 = none) :
    let r := (resolve config observer m op w).run ⟨s, ""⟩
    let alone := (resolve config .silent m op w).run ⟨(), ""⟩
    r.1 = .error (.stopped m.pc) ∨ r.1 = alone.1 ∧ r.2.supplied = alone.2.supplied := by
  by_cases asks : op = .input
  · subst asks
    by_cases names : ∃ reg, Operand.ofWord? w[0] = some (.register reg)
    · obtain ⟨reg, operand⟩ := names
      obtain ⟨_, first⟩ := firstInput_of_unsupplied (unsupplied rfl)
      have nothing : m.console.pending = [] → (Observer.silent.supply ()).1 = none := fun _ => rfl
      obtain ⟨_, first'⟩ := firstInput_of_unsupplied nothing
      simp [resolve, run_input operand first, run_input operand first']
    · exact (sameScript_input (not_exists.1 names)).follows_silent
        (sameScript_input (not_exists.1 names)) s
  · exact (sameScript_resolve asks w).follows_silent (sameScript_resolve asks w) s

end WordMachine.Effect

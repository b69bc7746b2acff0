import WordMachine.Proofs.Effect.Closing
import WordMachine.Step

/-!
A step that fails applies nothing of its instruction. If decoding failed or an observer said stop,
the machine is as it was; after any other fault it differs in the program counter, and in the text
with which an observer answered the `input` that then found a character too large.
`failure_applies_nothing` says this of every step, and that a step reports a fault of decoding just
when decoding fails.
-/

namespace WordMachine

theorem Memory.fault_of_instructionAt {m : Memory} {addr : Word} {fault : Fault}
    (h : m.instructionAt addr = .error fault) : fault.isOfDecoding ∧ fault.pc? = some addr := by
  unfold instructionAt at h
  split at h
  · cases h
    exact ⟨rfl, rfl⟩
  · split at h
    · cases h
      exact ⟨rfl, rfl⟩
    · split at h
      · cases h
        exact ⟨rfl, rfl⟩
      · cases h

namespace Machine

variable {m : Machine} {config : RunConfig} {observer : Observer σ} {s : σ}

/-- What a step that fails leaves of the machine. -/
structure FailsTo (observer : Observer σ) (s : σ) (m : Machine) (fault : Fault) (n : Machine) :
    Prop where
  place : fault.pc? = some m.pc
  untouched : fault.isOfDecoding ∨ fault = .stopped m.pc → n = m
  passed : ¬ fault.isOfDecoding → fault ≠ .stopped m.pc →
    ∃ i text, m.memory.instructionAt m.pc = .ok i ∧
      (text = "" ∨ (∃ ch, fault = .invalidInput ch m.pc) ∧ (observer.supply s).1 = some text) ∧
      n = { m with
        pc := UInt16.ofNat i.next
        console := { m.console with pending := m.console.pending ++ text.toList } }

theorem failsTo_of_instructionAt {fault : Fault}
    (h : m.memory.instructionAt m.pc = .error fault) : m.FailsTo observer s fault m := by
  obtain ⟨decoding, place⟩ := Memory.fault_of_instructionAt h
  exact ⟨place, fun _ => rfl, fun other _ => absurd decoding other⟩

theorem execute_error {i : Instruction} {fault : Fault}
    (decoded : m.memory.instructionAt m.pc = .ok i)
    (h : (m.execute config observer s i).result = .error fault) :
    m.Commits observer fault ∧
      m.FailsTo observer s fault (m.execute config observer s i).machine := by
  have closes := Effect.closes_resolve config observer m i.operands s
  generalize executed : m.execute config observer s i = r at h ⊢
  simp only [execute] at executed
  split at executed
  · subst executed
    cases h
  · rename_i pc d resolved
    subst executed
    cases h
    rw [resolved] at closes
    have commits := closes.commits _ rfl
    cases commits.place
    refine ⟨commits, rfl, fun _ => rfl, ?_⟩
    exact fun _ other => absurd rfl other
  · rename_i fault' d other resolved
    subst executed
    cases h
    rw [resolved] at closes
    have commits := closes.commits _ rfl
    refine ⟨commits, commits.place, ?_, ?_⟩
    · rintro (decoding | stopped)
      · simp [commits.decoded] at decoding
      · exact absurd stopped (other m.pc)
    · intro _ _
      refine ⟨i, d.supplied, decoded, ?_, ?_⟩
      · rcases closes.supplies with nothing | ⟨-, -, supplied⟩
        · exact .inl nothing
        · exact (closes.character _ rfl).imp_right fun character => ⟨character, supplied⟩
      · rw [feed_eq]
        rfl

theorem step_cases (m : Machine) (config : RunConfig) (observer : Observer σ) (s : σ) :
    m.step config observer s = ⟨.ok .suspended, m, s⟩ ∨
    (∃ fault, m.memory.instructionAt m.pc = .error fault ∧
      m.step config observer s = ⟨.error fault, m, s⟩) ∨
    ∃ i, m.memory.instructionAt m.pc = .ok i ∧
      m.step config observer s = m.execute config observer s i := by
  simp only [step]
  split
  · exact .inl rfl
  · split
    · rename_i fault fails
      exact .inr (.inl ⟨fault, fails, rfl⟩)
    · rename_i i decoded
      exact .inr (.inr ⟨i, decoded, rfl⟩)

/-- A step is stopped only if its observer says so. -/
theorem stops_of_step (h : (m.step config observer s).result = .error (.stopped m.pc)) :
    observer.Stops m.pc := by
  obtain asleep | ⟨fault, fails, undecoded⟩ | ⟨i, decoded, executes⟩ :=
    step_cases m config observer s
  · rw [asleep] at h
    cases h
  · rw [undecoded] at h
    cases h
    obtain ⟨decoding, -⟩ := Memory.fault_of_instructionAt fails
    cases decoding
  · rw [executes] at h
    exact (execute_error decoded h).1.stops rfl

theorem failsTo_step {fault : Fault} (h : (m.step config observer s).result = .error fault) :
    m.FailsTo observer s fault (m.step config observer s).machine := by
  obtain asleep | ⟨fault', fails, undecoded⟩ | ⟨i, decoded, executes⟩ :=
    step_cases m config observer s
  · rw [asleep] at h
    cases h
  · rw [undecoded] at h ⊢
    cases h
    exact failsTo_of_instructionAt fails
  · rw [executes] at h ⊢
    exact (execute_error decoded h).2

theorem step_error_iff_of_decoding (awake : (m.step config observer s).result ≠ .ok .suspended)
    (fault : Fault) :
    (m.step config observer s).result = .error fault ∧ fault.isOfDecoding ↔
      m.memory.instructionAt m.pc = .error fault := by
  obtain asleep | ⟨fault', fails, undecoded⟩ | ⟨i, decoded, executes⟩ :=
    step_cases m config observer s
  · rw [asleep] at awake
    exact absurd rfl awake
  · rw [undecoded, fails]
    obtain ⟨decoding, -⟩ := Memory.fault_of_instructionAt fails
    constructor
    · rintro ⟨h, -⟩
      cases h
      rfl
    · intro h
      cases h
      exact ⟨rfl, decoding⟩
  · rw [executes, decoded]
    constructor
    · rintro ⟨h, decoding⟩
      simp [(execute_error decoded h).1.decoded] at decoding
    · intro h
      cases h

/-- No instruction is half applied, and `decode` has the only say in what can be decoded. -/
theorem failure_applies_nothing (m : Machine) (config : RunConfig) (observer : Observer σ) (s : σ) :
    let r := m.step config observer s
    (∀ fault, r.result = .error fault → m.FailsTo observer s fault r.machine) ∧
    (r.result ≠ .ok .suspended → ∀ fault,
      (r.result = .error fault ∧ fault.isOfDecoding ↔
        m.memory.instructionAt m.pc = .error fault)) :=
  ⟨fun _ h => failsTo_step h, step_error_iff_of_decoding⟩

/-- An `input` that an observer answers with a character too large, and an `output` cut off. -/
theorem failure_applies_nothing_supplied :
    let config : RunConfig := { suspendOnInput := false }
    let observer : Observer Unit := { supply := fun _ => (some "語", ()) }
    let m : Machine := { memory := Memory.ofImage [20, 32768] }
    let n : Machine := { memory := Memory.ofImage [19] }
    let r := m.step config observer ()
    r.result = .error (.invalidInput '語' 0) ∧
      m.FailsTo observer () (.invalidInput '語' 0) r.machine ∧
      r.machine.console.pending = ['語'] ∧
      (n.step config observer ()).result = .error (.endOfProgram 0) := by
  intro config observer m n r
  have supplied : r.result = .error (.invalidInput '語' 0) := by
    unfold r m config observer
    simp only [step, awaitsInput, Memory.instructionAt, Memory.extent_eq]
    rfl
  have grown : r.machine.console.pending = ['語'] := by
    unfold r m config observer
    simp only [step, awaitsInput, Memory.instructionAt, Memory.extent_eq]
    rfl
  have cut : n.memory.instructionAt n.pc = .error (.endOfProgram 0) := by
    unfold n
    simp only [Memory.instructionAt, Memory.extent_eq]
    rfl
  have awake : (n.step config observer ()).result ≠ .ok .suspended := by
    simp only [step, cut, config, Bool.false_and, Bool.false_eq_true, if_false]
    intro suspended
    cases suspended
  refine ⟨supplied, (failure_applies_nothing m config observer ()).1 _ supplied, grown, ?_⟩
  exact (((failure_applies_nothing n config observer ()).2 awake _).2 cut).1

end Machine

end WordMachine

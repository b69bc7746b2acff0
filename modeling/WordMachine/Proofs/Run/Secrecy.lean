import WordMachine.Proofs.Effect.Kind
import WordMachine.Proofs.Effect.Watching
import WordMachine.Proofs.Memory.Overlay
import WordMachine.Proofs.Step.Outcome

/-!
A debugger keeps the registers that it watches to themselves. Machines that differ in them alone go
on in lockstep: every step has one result, leaves one debugger, and writes one value to one
register. So they go on to differ in watched registers alone, and in none that was written since
(`watched_registers_hidden`).
-/

namespace WordMachine.Machine

variable {W : Set Reg} {m n : Machine} {d : Debugger} {config : RunConfig}

theorem AgreeOutside.snapshot (h : m.AgreeOutside W n) :
    Snapshot.AgreeOutside W m.snapshot n.snapshot where
  pc := h.pc
  registers := h.registers
  stack := h.stack
  changed := congrArg Memory.changed h.memory
  input := congrArg Console.input h.console
  echo := congrArg Console.echo h.console
  output := congrArg Console.output h.console

theorem AgreeOutside.feed (h : m.AgreeOutside W n) (text : String) :
    (m.feed text).AgreeOutside W (n.feed text) :=
  { h with console := congrArg (Console.feed · text) h.console }

theorem AgreeOutside.setPc (h : m.AgreeOutside W n) (pc : Word) :
    (m.setPc pc).AgreeOutside W (n.setPc pc) :=
  { h with pc := rfl }

theorem AgreeOutside.takeCheckpoint (h : m.AgreeOutside W n) :
    m.takeCheckpoint.AgreeOutside W n.takeCheckpoint := by
  have waits : m.console.hasInput = n.console.hasInput := congrArg Console.hasInput h.console
  simp only [Machine.takeCheckpoint, waits]
  split
  · exact h
  · exact { h with checkpoint := .some h.snapshot }

/-- The same value in the same register takes away a difference or adds none. -/
theorem eqOn_set {b c : Registers} (h : Set.EqOn b.get c.get Wᶜ) (r : Reg) (value : Word) :
    Set.EqOn (b.set r value).get (c.set r value).get Wᶜ := by
  intro s outside
  rw [Bank.get_set, Bank.get_set, h outside]

theorem AgreeOutside.apply (h : m.AgreeOutside W n) (next : Word) (effect : Effect) :
    (m.apply next effect).AgreeOutside W (n.apply next effect) := by
  cases effect with
  | proceed | halt => exact { h with pc := rfl }
  | wait => exact h
  | assign r value => exact { h with registers := eqOn_set h.registers r value, pc := rfl }
  | push value => exact { h with stack := congrArg (Array.push · value) h.stack, pc := rfl }
  | pop r value =>
    exact { h with
      registers := eqOn_set h.registers r value
      stack := congrArg Array.pop h.stack
      pc := rfl }
  | jump target => exact { h with pc := rfl }
  | branch taken target =>
    simp only [Machine.apply, takeBranch, h.pc]
    exact { h with pc := rfl, branch := rfl }
  | store addr value =>
    exact { h with memory := congrArg (Memory.write · addr value) h.memory, pc := rfl }
  | call target => exact { h with stack := congrArg (Array.push · next) h.stack, pc := rfl }
  | ret target => exact { h with stack := congrArg Array.pop h.stack, pc := rfl }
  | emit ch => exact { h with console := congrArg (Console.emit · ch) h.console, pc := rfl }
  | consume r ch =>
    apply AgreeOutside.takeCheckpoint
    exact { h with
      registers := eqOn_set h.registers r _
      console := congrArg Console.drain h.console
      pc := rfl }

/-- The register that a step with the given result wrote. -/
def written? (m : Machine) (result : Except Fault Progress) : Option Reg :=
  match result, m.memory.instructionAt m.pc with
  | .ok .continued, .ok i => i.destination?
  | _, _ => none

theorem written?_of_meaning? {i : Instruction} {effect : Effect} {text : String}
    (decoded : m.memory.instructionAt m.pc = .ok i)
    (means : Effect.meaning? (m.feed text) i.opcode i.operands = some effect) :
    m.written? (.ok effect.progress) = effect.write?.map Prod.fst := by
  cases effect with
  | wait | halt => rfl
  | _ =>
    rw [← Effect.destination?_of_meaning? means (by simp)]
    simp only [written?, Effect.progress, decoded]

/-- A step leaves alone every register but the one that it wrote. -/
theorem get_registers_step (m : Machine) (config : RunConfig) (observer : Observer σ) (s : σ)
    {r : Reg} (unwritten : m.written? (m.step config observer s).result ≠ some r) :
    (m.step config observer s).machine.registers.get r = m.registers.get r := by
  have outcome := step_outcome m config observer s
  generalize (m.step config observer s).result = result at outcome unwritten
  generalize (m.step config observer s).machine = n at outcome
  cases outcome with
  | asleep | undecoded | stopped | faulted => rfl
  | @completed i effect text decoded supplied means =>
    rw [written?_of_meaning? decoded means] at unwritten
    exact get_registers_apply _ _ unwritten

theorem notify_debugger (m : Machine) (effect : Effect) (d : Debugger) :
    Debugger.observer.notify m effect d = d := by
  cases effect with
  | emit ch => exact ite_self d
  | _ => rfl

/-- Steps of two machines with one result, which leave one debugger, and machines that differ in
watched registers alone, and not in the one that was written. -/
structure InLockstep (W : Set Reg) (m : Machine) (left right : Step Debugger) : Prop where
  result : left.result = right.result
  observer : left.observer = right.observer
  watches : left.observer.Watches W
  machine : left.machine.AgreeOutside W right.machine
  written (r : Reg) : m.written? left.result = some r →
    left.machine.registers.get r = right.machine.registers.get r

theorem execute_inLockstep (h : m.AgreeOutside W n) (watching : d.Watches W) {i : Instruction}
    (decoded : m.memory.instructionAt m.pc = .ok i) :
    InLockstep W m (m.execute config Debugger.observer d i)
      (n.execute config Debugger.observer d i) := by
  have indistinct : Effect.Indistinct W
      (Effect.resolve config Debugger.observer m i.opcode i.operands)
      (Effect.resolve config Debugger.observer n i.opcode i.operands) :=
    Effect.indistinct_resolve h i.operands
  have after := indistinct.watches ⟨d, ""⟩ watching
  simp only [execute, ← indistinct.same ⟨d, ""⟩ watching, notify_debugger]
  generalize resolved :
    (Effect.resolve config Debugger.observer m i.opcode i.operands).run ⟨d, ""⟩ = r at after
  obtain ⟨outcome, d', text⟩ := r
  have fed := h.feed text
  cases outcome with
  | ok effect =>
    refine ⟨rfl, rfl, after, fed.apply _ effect, fun r written => ?_⟩
    rw [written?_of_meaning? decoded (Effect.meaning?_of_resolve resolved).1] at written
    obtain ⟨⟨_, value⟩, write, rfl⟩ := Option.map_eq_some_iff.1 written
    simp only [registers_apply, write, Option.elim_some, Bank.get_set, if_true]
  | error fault =>
    have unwritten (r : Reg) : m.written? (.error fault) ≠ some r := by
      intro written
      cases written
    cases fault with
    | stopped pc => exact ⟨rfl, rfl, after, h, fun r written => absurd written (unwritten r)⟩
    | _ => exact ⟨rfl, rfl, after, fed.setPc _, fun r written => absurd written (unwritten r)⟩

theorem step_inLockstep (h : m.AgreeOutside W n) (watching : d.Watches W) (config : RunConfig) :
    InLockstep W m (m.step config Debugger.observer d) (n.step config Debugger.observer d) := by
  have awaits : n.awaitsInput = m.awaitsInput := by
    simp only [awaitsInput, h.pc, h.memory, h.console]
  simp only [step, awaits, ← h.memory, ← h.pc]
  split
  · exact ⟨rfl, rfl, watching, h, fun r written => by cases written⟩
  · split
    · exact ⟨rfl, rfl, watching, h, fun r written => by cases written⟩
    · rename_i i decoded
      exact execute_inLockstep h watching decoded

/-- What some steps did, from the first to the last: their results, the registers that they wrote,
and what they left. -/
structure Course (σ : Type) where
  results : List (Except Fault Progress)
  written : List Reg
  machine : Machine
  observer : σ

def course (config : RunConfig) (observer : Observer σ) : (steps : Nat) → Machine → σ → Course σ
  | 0, m, s => ⟨[], [], m, s⟩
  | steps + 1, m, s =>
    let r := m.step config observer s
    let rest := course config observer steps r.machine r.observer
    ⟨r.result :: rest.results, (m.written? r.result).toList ++ rest.written, rest.machine,
      rest.observer⟩

theorem get_registers_course (config : RunConfig) (observer : Observer σ) (steps : Nat)
    (m : Machine) (s : σ) {r : Reg} (unwritten : r ∉ (course config observer steps m s).written) :
    (course config observer steps m s).machine.registers.get r = m.registers.get r := by
  induction steps generalizing m s with
  | zero => rfl
  | succ steps ih =>
    simp only [course, List.mem_append, not_or, Option.mem_toList] at unwritten
    exact (ih _ _ unwritten.2).trans (get_registers_step m config observer s unwritten.1)

/-- The same for whole courses. A register that was written holds one value in both machines. -/
structure CourseInLockstep (W : Set Reg) (left right : Course Debugger) : Prop where
  results : left.results = right.results
  observer : left.observer = right.observer
  machine : left.machine.AgreeOutside W right.machine
  written : left.written = right.written
  rewritten (r : Reg) : r ∈ left.written →
    left.machine.registers.get r = right.machine.registers.get r

theorem course_inLockstep (h : m.AgreeOutside W n) (watching : d.Watches W) (config : RunConfig)
    (steps : Nat) :
    CourseInLockstep W (course config Debugger.observer steps m d)
      (course config Debugger.observer steps n d) := by
  induction steps generalizing m n d with
  | zero => exact ⟨rfl, rfl, h, rfl, nofun⟩
  | succ steps ih =>
    have first := step_inLockstep h watching config
    have rest := ih first.machine first.watches
    have wrote : n.written? (m.step config Debugger.observer d).result =
        m.written? (m.step config Debugger.observer d).result := by
      simp only [written?, ← h.memory, ← h.pc]
    simp only [course, ← first.result, ← first.observer, wrote]
    refine ⟨by rw [rest.results], rest.observer, rest.machine, by rw [rest.written], ?_⟩
    intro r given
    rw [List.mem_append, Option.mem_toList] at given
    rcases Classical.em (r ∈ Course.written _) with again | unwritten
    · exact rest.rewritten r again
    -- Written by the first step and left alone since.
    · have now := given.resolve_right unwritten
      rw [get_registers_course _ _ _ _ _ unwritten,
        get_registers_course _ _ _ _ _ (rest.written ▸ unwritten)]
      exact first.written r now

/-- No step under a debugger that watches the registers tells machines apart which differ in them
alone. A watched register goes on to hold what it held, or else what both machines wrote to it. -/
theorem watched_registers_hidden (h : m.AgreeOutside W n) (watching : d.Watches W)
    (config : RunConfig) (steps : Nat) :
    let left := course config Debugger.observer steps m d
    let right := course config Debugger.observer steps n d
    left.results = right.results ∧ left.observer = right.observer ∧
      left.machine.AgreeOutside W right.machine ∧
      ∀ r ∈ W,
        left.machine.registers.get r = m.registers.get r ∧
            right.machine.registers.get r = n.registers.get r ∨
          r ∈ left.written ∧ r ∈ right.written ∧
            left.machine.registers.get r = right.machine.registers.get r := by
  intro left right
  have lockstep : CourseInLockstep W left right := course_inLockstep h watching config steps
  refine ⟨lockstep.results, lockstep.observer, lockstep.machine, fun r _ => ?_⟩
  by_cases written : r ∈ left.written
  · exact .inr ⟨written, lockstep.written ▸ written, lockstep.rewritten r written⟩
  · exact .inl ⟨get_registers_course _ _ _ _ _ written,
      get_registers_course _ _ _ _ _ (lockstep.written ▸ written)⟩

/-- A watched register is overwritten, and then the read of another one is stopped. -/
theorem watched_registers_hidden_push :
    let W : Set Reg := {0, 2}
    let config : RunConfig := { suspendOnInput := false }
    let m : Machine := { memory := Memory.ofImage [1, 32768, 3, 2, 32770] }
    let left := (m.setRegister 0 5).setRegister 2 1
    let right := (m.setRegister 0 7).setRegister 2 8
    let d : Debugger := { watched := ((Bank.fill false).set 0 true).set 2 true }
    let end₁ := course config Debugger.observer 2 left d
    let end₂ := course config Debugger.observer 2 right d
    left.AgreeOutside W right ∧ d.Watches W ∧
      end₂.results = [.ok .continued, .error (.stopped 3)] ∧
      end₁.machine.registers.get 0 = 3 ∧ end₂.machine.registers.get 0 = 3 ∧
      end₁.machine.registers.get 2 = 1 ∧ end₂.machine.registers.get 2 = 8 := by
  intro W config m left right d end₁ end₂
  have agree : left.AgreeOutside W right := by
    refine ⟨rfl, fun r outside => ?_, rfl, rfl, rfl, .none, rfl⟩
    have other : 0 ≠ r ∧ 2 ≠ r := by simpa [W, eq_comm] using outside
    simp [left, right, setRegister, Bank.get_set, other]
  have watching : d.Watches W := by
    rintro r (rfl | rfl) <;> decide
  have extent : m.memory.extent = 5 := Memory.extent_ofImage _
  have decoded : left.memory.instructionAt left.pc = .ok ⟨0, .set, #v[32768, 3]⟩ := by
    have same : left.memory.extent = 5 := extent
    rw [Memory.instructionAt, same]
    rfl
  have step₁ : left.step config Debugger.observer d =
      ⟨.ok .continued, (left.setRegister 0 3).setPc 3, d⟩ := by
    simp only [step, decoded, config, Bool.false_and, Bool.false_eq_true, if_false]
    rfl
  have decoded' : m.memory.instructionAt 3 = .ok ⟨3, .push, #v[32770]⟩ := by
    rw [Memory.instructionAt, extent]
    rfl
  obtain ⟨e, step₂⟩ : ∃ e, ((left.setRegister 0 3).setPc 3).step config Debugger.observer d =
      ⟨.error (.stopped 3), (left.setRegister 0 3).setPc 3, e⟩ := by
    have same : ((left.setRegister 0 3).setPc 3).memory.instructionAt
        ((left.setRegister 0 3).setPc 3).pc = .ok ⟨3, .push, #v[32770]⟩ := decoded'
    simp only [step, same, config, Bool.false_and, Bool.false_eq_true, if_false]
    exact ⟨_, rfl⟩
  have course₁ : end₁ =
      ⟨[.ok .continued, .error (.stopped 3)], [0], (left.setRegister 0 3).setPc 3, e⟩ := by
    simp only [end₁, course, step₁, step₂, written?, decoded]
    rfl
  have value : end₁.machine.registers.get 0 = 3 := by
    rw [course₁]
    rfl
  have once : 2 ∉ end₁.written := by
    have written : end₁.written = [0] := congrArg Course.written course₁
    rw [written]
    decide
  obtain ⟨same, -, -, registers⟩ := watched_registers_hidden agree watching config 2
  have results : end₂.results = [.ok .continued, .error (.stopped 3)] :=
    same.symm.trans (congrArg Course.results course₁)
  refine ⟨agree, watching, results, value, ?_⟩
  obtain ⟨kept, -⟩ | ⟨-, -, overwritten⟩ := registers 0 (.inl rfl)
  · exact absurd (kept.symm.trans value) (by decide)
  · obtain ⟨kept, kept'⟩ | ⟨again, -⟩ := registers 2 (.inr rfl)
    · exact ⟨overwritten ▸ value, kept, kept'⟩
    · exact absurd again once

end WordMachine.Machine

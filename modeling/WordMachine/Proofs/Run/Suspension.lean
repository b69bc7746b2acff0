import WordMachine.Proofs.Run.Scripted

/-!
Suspension is stable. What suspends a machine lies in the machine and the configuration
(`Starved`), whichever way the suspension came about, and only text that is supplied helps it. So a
machine that a run left suspended is left as it is by any runs after that which are supplied with
none (`suspension_stable`).
-/

namespace WordMachine

/-- Asked for text, the observer has none, or an empty one. -/
def Observer.Mute (o : Observer σ) (s : σ) : Prop := (o.supply s).1.getD "" = ""

/-- An observer for a run, with the state that it is in by then, and the budget of the run. -/
structure Watch : Type 1 where
  {σ : Type}
  observer : Observer σ
  state : σ
  budget : Nat

namespace Machine

/-- Runs under one configuration, one after the other: how each of them ends, and what it leaves. -/
def runEach (m : Machine) (config : RunConfig) : List Watch → List (Option Status × Machine)
  | [] => []
  | w :: watches =>
    let r := m.run config w.observer w.state w.budget
    (r.status, r.machine) :: r.machine.runEach config watches

/-- The machine is at an `input` that lacks input. It is suspended there before the instruction is
decoded, or else the instruction is good, so that it comes to ask for text. -/
structure Starved (m : Machine) (config : RunConfig) : Prop where
  awaits : m.awaitsInput = true
  comesToAsk : config.suspendOnInput = true ∨ m.AtInput

variable {config : RunConfig} {observer : Observer σ} {m n : Machine} {s t : σ}

theorem starved_of_step (h : (m.step config observer s).result = .ok .suspended) :
    m.Starved config := by
  obtain ⟨-, empty⟩ := step_of_suspended h
  have outcome := step_outcome m config observer s
  generalize (m.step config observer s).result = result at outcome h
  generalize (m.step config observer s).machine = n at outcome
  cases outcome with
  | asleep suspends awaits => exact ⟨awaits, .inl suspends⟩
  | @completed i effect text decoded supplied means =>
    obtain rfl : effect = .wait := by cases effect <;> first | rfl | cases h
    obtain ⟨addr, w, r, rfl, named⟩ := Effect.names_of_meaning?_wait means
    refine ⟨awaitsInput_of_empty decoded rfl empty, .inr ⟨addr, w, r, decoded, ?_⟩⟩
    exact Effect.register?_eq_some_iff.1 named
  | _ => cases h

/-- Whoever watches has to supply text, or the machine is suspended as it is. -/
theorem Starved.step (starved : m.Starved config) (mute : observer.Mute s) :
    ∃ t, m.step config observer s = ⟨.ok .suspended, m, t⟩ := by
  by_cases suspends : config.suspendOnInput = true
  · exact ⟨s, by simp [Machine.step, suspends, starved.awaits]⟩
  · obtain ⟨-, -, empty⟩ := awaitsInput_iff.1 starved.awaits
    have asking : config.asking = config := by
      rw [RunConfig.asking, ← Bool.eq_false_iff.2 suspends]
    have unsupplied := step_unsupplied config (starved.comesToAsk.resolve_left suspends) empty
      rfl mute
    rw [asking] at unsupplied
    exact ⟨_, unsupplied⟩

theorem Ends.starved (ended : m.Ends config observer s .suspended n t) : n.Starved config := by
  obtain ⟨budget, ended⟩ := ended
  obtain ⟨limit, same, -⟩ | ⟨p, u, -, last, rfl, -⟩ := goesTo_of_runFrom ended
  · cases same
  · have suspended : (p.step config observer u).result = .ok .suspended :=
      Status.ofResult?_injective last
    rw [(step_of_suspended suspended).1]
    exact starved_of_step suspended

/-- A run that is suspended made a step, or at least tried to. -/
theorem Ends.room (ended : m.Ends config observer s .suspended n t) :
    limitReached config 0 = none := by
  obtain ⟨_ | budget, ended⟩ := ended
  · cases ended
  · rw [Machine.run, runFrom] at ended
    cases reached : limitReached config 0 with
    | none => rfl
    | some limit =>
      rw [reached] at ended
      cases ended

theorem Starved.run (starved : m.Starved config) (room : limitReached config 0 = none)
    (mute : observer.Mute s) {budget : Nat} (positive : 0 < budget) :
    ∃ t, m.run config observer s budget = ⟨some .suspended, m, t⟩ := by
  obtain ⟨budget, rfl⟩ := Nat.exists_eq_add_one.2 positive
  obtain ⟨t, step⟩ := starved.step mute
  refine ⟨t, ?_⟩
  rw [Machine.run, runFrom_succ room, step]
  rfl

theorem Starved.runEach (starved : m.Starved config) (room : limitReached config 0 = none)
    {watches : List Watch} (mute : ∀ w ∈ watches, w.observer.Mute w.state ∧ 0 < w.budget) :
    m.runEach config watches = watches.map fun _ => (some .suspended, m) := by
  induction watches with
  | nil => rfl
  | cons w watches ih =>
    obtain ⟨⟨silent, positive⟩, later⟩ := List.forall_mem_cons.1 mute
    obtain ⟨t, run⟩ := starved.run room silent positive
    simp only [Machine.runEach, run, ih later, List.map_cons]

/-- A suspended step changes nothing. A machine that a run leaves suspended is at an `input` with
nothing pending, and further runs that are supplied with no text are all suspended there and change
nothing either. -/
theorem suspension_stable (m : Machine) (config : RunConfig) (observer : Observer σ) (s : σ) :
    ((m.step config observer s).result = .ok .suspended →
      (m.step config observer s).machine = m) ∧
    ∀ n t, m.Ends config observer s .suspended n t →
      n.memory.read n.pc = Opcode.input.word ∧ n.console.pending = [] ∧
      ∀ watches : List Watch, (∀ w ∈ watches, w.observer.Mute w.state ∧ 0 < w.budget) →
        n.runEach config watches = watches.map fun _ => (some .suspended, n) := by
  refine ⟨fun h => (step_of_suspended h).1, ?_⟩
  intro n t ended
  obtain ⟨-, here, empty⟩ := awaitsInput_iff.1 ended.starved.awaits
  exact ⟨here, empty, fun watches mute => ended.starved.runEach ended.room mute⟩

/-- An observer answers with an empty text, and one after it with none, under a step limit. -/
theorem suspension_stable_unanswered :
    let config : RunConfig := { suspendOnInput := false, stepLimit := some 2 }
    let blank : Observer Unit := { supply := fun _ => (some "", ()) }
    let m : Machine := { memory := Memory.ofImage [21, 20, 32768] }
    let n := (m.run config blank () 3).machine
    n.pc = 1 ∧ (n.step config blank ()).machine = n ∧ n.memory.read n.pc = Opcode.input.word ∧
      n.runEach config [⟨.silent, (), 1⟩, ⟨blank, (), 9⟩] =
        [(some .suspended, n), (some .suspended, n)] := by
  intro config blank m n
  have suspended : (m.run config blank () 3).status = some .suspended := by
    unfold m config blank
    simp only [run, runFrom, step, awaitsInput, Memory.instructionAt, Memory.extent_eq]
    rfl
  have again : (n.step config blank ()).result = .ok .suspended := by
    unfold n m config blank
    simp only [run, runFrom, step, awaitsInput, Memory.instructionAt, Memory.extent_eq]
    rfl
  have mute : ∀ w ∈ ([⟨.silent, (), 1⟩, ⟨blank, (), 9⟩] : List Watch),
      w.observer.Mute w.state ∧ 0 < w.budget := by
    simp [Observer.Mute, Observer.silent, blank]
  have ended : m.Ends config blank () .suspended n () := ends_of_status suspended
  obtain ⟨here, -, stable⟩ := (suspension_stable m config blank ()).2 n () ended
  refine ⟨?_, (suspension_stable n config blank ()).1 again, here, stable _ mute⟩
  unfold n m config blank
  simp only [run, runFrom, step, awaitsInput, Memory.instructionAt, Memory.extent_eq]
  rfl

end Machine

end WordMachine

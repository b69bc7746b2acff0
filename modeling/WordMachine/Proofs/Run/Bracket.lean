import WordMachine.Proofs.Step.Advance
import WordMachine.Proofs.Step.Footprint

/-!
A return takes back its call. A step moves the stack by one element at most, so what is stacked
under a certain height stays as it is for as long as the stack does not fall below that height
(`StaysAbove.saved`). So the `ret` that falls below the height to which a `call` has raised the
stack finds the address that this call has left there, over the stack that the call found
(`call_brackets_return`).
-/

namespace WordMachine

theorem Opcode.MovesStack.saved {op : Opcode} {before after : Array Word}
    (moves : op.MovesStack before after) {base : List Word} (under : base <+: before.toList)
    (high : base.length ≤ after.size) : base <+: after.toList := by
  cases moves with
  | keeps same => rwa [same]
  | adds _ value added =>
    rw [added, Array.toList_push]
    exact under.trans (List.prefix_append _ _)
  | removes _ value removed =>
    rw [removed, Array.toList_push] at under
    exact List.prefix_of_prefix_length_le under (List.prefix_append _ _) high

namespace Machine

/-- Steps of any kind, under any observers, along which the stack stays higher than the floor. -/
inductive StaysAbove (floor : Nat) : Machine → Machine → Prop where
  | here {m : Machine} : floor < m.stack.size → StaysAbove floor m m
  | next {σ : Type} {config : RunConfig} {observer : Observer σ} {s : σ} {m p : Machine} :
    floor < m.stack.size → StaysAbove floor (m.step config observer s).machine p →
    StaysAbove floor m p

variable {m p : Machine} {i j : Instruction} {floor : Nat}

theorem movesStack_step (m : Machine) (config : RunConfig) (observer : Observer σ) (s : σ) :
    ∃ op : Opcode, op.MovesStack m.stack (m.step config observer s).machine.stack := by
  have outcome := step_outcome m config observer s
  generalize (m.step config observer s).result = result at outcome
  generalize (m.step config observer s).machine = n at outcome
  cases outcome with
  | @completed i effect text decoded supplied means =>
    refine ⟨i.opcode, ?_⟩
    rw [stack_apply]
    exact Effect.movesStack_onStack means _
  | _ => exact ⟨.noop, .keeps rfl⟩

theorem StaysAbove.lt_size (way : StaysAbove floor m p) : floor < m.stack.size := by
  cases way with
  | here above => exact above
  | next above _ => exact above

/-- What lies on the stack up to just above the floor is never touched. -/
theorem StaysAbove.saved (way : StaysAbove floor m p) {base : List Word}
    (low : base.length ≤ floor + 1) (under : base <+: m.stack.toList) :
    base <+: p.stack.toList := by
  induction way with
  | here => exact under
  | @next σ config observer s m p _ rest ih =>
    obtain ⟨op, moves⟩ := movesStack_step m config observer s
    have high := rest.lt_size
    exact ih (moves.saved under (by omega))

/-- A `ret` is never stopped, and with something on the stack it does not fault. -/
theorem step_ret (decoded : m.memory.instructionAt m.pc = .ok i) (returns : i.opcode = .ret)
    {back : Word} {below : Array Word} (stack : m.stack = below.push back) (config : RunConfig)
    (observer : Observer σ) (s : σ) :
    m.step config observer s = ⟨.ok .continued, { m with stack := below, pc := back }, s⟩ := by
  have awake : m.awaitsInput = false := awaitsInput_of_other decoded (by simp [returns])
  obtain ⟨addr, op, w⟩ := i
  cases returns
  have resolved :
      (Effect.resolve config observer m .ret w).run ⟨s, ""⟩ = (.ok (.ret back), ⟨s, ""⟩) := by
    simp [Effect.resolve, Effect.top, Resolve.run_bind, stack]
  simp only [step, awake, Bool.and_false, Bool.false_eq_true, if_false, decoded, execute, resolved,
    feed_empty, apply, stack, Array.pop_push]
  rfl

/-- From a `call` that completes, go on in whatever way, with the stack never as low as it was
before the call; when a `ret` comes up at the height to which the call has raised it, execution
goes on behind the call with the stack that the call found. -/
theorem call_brackets_return {config : RunConfig} {observer : Observer σ} {s : σ}
    (decoded : m.memory.instructionAt m.pc = .ok i) (calls : i.opcode = .call)
    (completed : (m.step config observer s).result = .ok .continued)
    (way : StaysAbove m.stack.size (m.step config observer s).machine p)
    (last : p.memory.instructionAt p.pc = .ok j) (returns : j.opcode = .ret)
    (level : p.stack.size = m.stack.size + 1) {τ : Type} (config' : RunConfig)
    (observer' : Observer τ) (t : τ) :
    let r := p.step config' observer' t
    r.result = .ok .continued ∧ r.machine.pc = UInt16.ofNat i.next ∧ r.machine.stack = m.stack := by
  intro r
  let saved := m.stack.push (UInt16.ofNat i.next)
  have called : (m.step config observer s).machine.stack = saved :=
    stack_step_call m config observer s decoded calls completed
  have length : saved.toList.length = m.stack.size + 1 := by simp [saved]
  have under : saved.toList <+: p.stack.toList := by
    apply way.saved (Nat.le_of_eq length)
    exact called ▸ List.prefix_rfl
  have whole : p.stack = saved := by
    have same := under.eq_of_length (by rw [length, Array.length_toList, level])
    exact (Array.toList_inj.1 same).symm
  have returned : r = _ := step_ret last returns whole config' observer' t
  rw [returned]
  exact ⟨rfl, rfl, rfl⟩

/-- On the way a `pop` faults, and a second call returns. -/
theorem call_brackets_return_nested :
    let m : Machine :=
      { memory := Memory.ofImage [17, 3, 0, 3, 0, 17, 8, 18, 18], stack := #[9] }
    let after (m : Machine) : Machine := (m.step {} .silent ()).machine
    let p := after (after (after (after m)))
    (m.step {} .silent ()).result = .ok .continued ∧ StaysAbove 1 (after m) p ∧ p.pc = 7 ∧
      p.stack = #[9, 2] ∧ (after p).pc = 2 ∧ (after p).stack = #[9] := by
  intro m after p
  have decoded : m.memory.instructionAt m.pc = .ok ⟨0, .call, #v[3]⟩ := by
    unfold m
    simp only [Memory.instructionAt, Memory.extent_eq]
    rfl
  have completed : (m.step {} .silent ()).result = .ok .continued := by
    unfold m
    simp only [step, awaitsInput, Memory.instructionAt, Memory.extent_eq]
    rfl
  have way : StaysAbove 1 (after m) p := by
    refine .next ?_ (.next ?_ (.next ?_ (.here ?_)))
    all_goals
      simp only [after, m, step, awaitsInput, Memory.instructionAt, Memory.extent_eq]
      decide +kernel
  have last : p.memory.instructionAt p.pc = .ok ⟨7, .ret, #v[]⟩ := by
    unfold p after m
    simp only [step, awaitsInput, Memory.instructionAt, Memory.extent_eq]
    rfl
  have stack : p.stack = #[9, 2] := by
    unfold p after m
    simp only [step, awaitsInput, Memory.instructionAt, Memory.extent_eq]
    rfl
  have pc : p.pc = 7 := by
    unfold p after m
    simp only [step, awaitsInput, Memory.instructionAt, Memory.extent_eq]
    rfl
  have level : p.stack.size = m.stack.size + 1 := by rw [stack]; rfl
  obtain ⟨-, back, restored⟩ :=
    call_brackets_return decoded rfl completed way last rfl level {} .silent ()
  exact ⟨completed, way, pc, stack, back, restored⟩

end Machine

end WordMachine

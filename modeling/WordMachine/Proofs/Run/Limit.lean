import WordMachine.Proofs.Run.Ending
import WordMachine.Proofs.Step.Failure

/-!
Runs under a step limit. A limit counts the instructions that a run completes, so where a limited
run ends is a matter of the way without a limit: it ends at the step that is no completed
instruction, or where the way is as long as the limit. Ways are put end to end, hence limits add up
(`limits_compose`).
-/

namespace WordMachine

/-- The same configuration but for the step limit. -/
def RunConfig.withLimit (config : RunConfig) (limit : Option Nat) : RunConfig :=
  { config with stepLimit := limit }

namespace Status

/-- The same status, with another limit reported if a limit is. -/
def withLimit (limit : Nat) : Status → Status
  | errored (.stepLimit _) => errored (.stepLimit limit)
  | status => status

end Status

namespace Machine

/-- A way of so many completed instructions. -/
inductive Advances (config : RunConfig) (observer : Observer σ) :
    Nat → Machine → σ → Machine → σ → Prop where
  | here {m : Machine} {s : σ} : Advances config observer 0 m s m s
  | next {k : Nat} {m m' n : Machine} {s s' t : σ} :
    m.step config observer s = ⟨.ok .continued, m', s'⟩ → Advances config observer k m' s' n t →
    Advances config observer (k + 1) m s n t

variable {config : RunConfig} {observer : Observer σ} {m n p : Machine} {s t u : σ}
  {status : Status} {k j : Nat}

theorem Advances.trans (first : Advances config observer k m s p u)
    (rest : Advances config observer j p u n t) : Advances config observer (k + j) m s n t := by
  induction first with
  | here =>
    rw [Nat.zero_add]
    exact rest
  | @next k _ _ _ _ _ _ step _ ih =>
    rw [Nat.add_right_comm]
    exact .next step (ih rest)

/-- No step looks at the limit. -/
theorem step_withLimit (m : Machine) (config : RunConfig) (limit : Option Nat)
    (observer : Observer σ) (s : σ) :
    m.step (config.withLimit limit) observer s = m.step config observer s := rfl

theorem limitReached_eq_none {limit : Option Nat} {steps : Nat}
    (room : ∀ l, limit = some l → steps < l) :
    limitReached (config.withLimit limit) steps = none := by
  cases limit with
  | none => rfl
  | some l =>
    have below := room l rfl
    simpa [limitReached, RunConfig.withLimit, Option.filter] using below

/-- A run follows its way as long as the limit leaves room. -/
theorem Advances.runFrom_eq (way : Advances config observer k m s n t) {limit : Option Nat}
    {steps : Nat} (room : ∀ l, limit = some l → steps + k ≤ l) (budget : Nat) :
    runFrom (config.withLimit limit) observer (budget + k) steps m s =
      runFrom (config.withLimit limit) observer budget (steps + k) n t := by
  induction way generalizing steps with
  | here => rfl
  | @next k m m' n s s' t step _ ih =>
    have ahead : ∀ l, limit = some l → steps + 1 + k ≤ l := by
      intro l limited
      have := room l limited
      omega
    have unreached : limitReached (config.withLimit limit) steps = none := by
      apply limitReached_eq_none
      intro l limited
      have := room l limited
      omega
    have stepped : m.step (config.withLimit limit) observer s = ⟨.ok .continued, m', s'⟩ := step
    rw [← Nat.add_assoc, runFrom_succ unreached, stepped]
    simp only [Status.ofResult?]
    rw [ih ahead, Nat.add_right_comm, Nat.add_assoc]

/-- With room for one more step a run ends as that step says. -/
theorem Advances.ends (way : Advances config observer k m s n t) {limit : Option Nat}
    (room : ∀ l, limit = some l → k < l)
    (last : Status.ofResult? (n.step config observer t).result = some status) :
    m.Ends (config.withLimit limit) observer s status (n.step config observer t).machine
      (n.step config observer t).observer := by
  have room' : ∀ l, limit = some l → 0 + k ≤ l := fun l limited => by
    have := room l limited
    omega
  refine ⟨1 + k, ?_⟩
  rw [run, way.runFrom_eq room', Nat.zero_add, runFrom_succ (limitReached_eq_none room),
    step_withLimit, last]

theorem Advances.ends_limit (way : Advances config observer k m s n t) :
    m.Ends (config.withLimit (some k)) observer s (.errored (.stepLimit k)) n t := by
  refine ⟨1 + k, ?_⟩
  have reached : limitReached (config.withLimit (some k)) k = some k := by
    simp [limitReached, RunConfig.withLimit, Option.filter]
  rw [run, way.runFrom_eq (by simp), Nat.zero_add, runFrom, reached]

/-- A way goes on for so many instructions, or it comes to a step that ends it before. -/
theorem advances_or_ends (config : RunConfig) (observer : Observer σ) (k : Nat) (m : Machine)
    (s : σ) :
    (∃ n t, Advances config observer k m s n t) ∨
      ∃ j n t status, j < k ∧ Advances config observer j m s n t ∧
        Status.ofResult? (n.step config observer t).result = some status := by
  induction k generalizing m s with
  | zero => exact .inl ⟨m, s, .here⟩
  | succ k ih =>
    cases ends : Status.ofResult? (m.step config observer s).result with
    | some status => exact .inr ⟨0, m, s, status, k.succ_pos, .here, ends⟩
    | none =>
      have continued : (m.step config observer s).result = .ok .continued :=
        Status.ofResult?_injective ends
      have step : m.step config observer s =
          ⟨.ok .continued, (m.step config observer s).machine,
            (m.step config observer s).observer⟩ := by
        rw [← continued]
      obtain ⟨n, t, way⟩ | ⟨j, n, t, status, before, way, last⟩ :=
        ih (m.step config observer s).machine (m.step config observer s).observer
      · exact .inl ⟨n, t, .next step way⟩
      · exact .inr ⟨j + 1, n, t, status, Nat.succ_lt_succ before, .next step way, last⟩

/-- Running out of steps is no step's fault. -/
theorem ne_stepLimit_of_step
    (last : Status.ofResult? (m.step config observer s).result = some status) (limit : Nat) :
    status ≠ .errored (.stepLimit limit) := by
  rintro rfl
  have faults : (m.step config observer s).result = .error (.stepLimit limit) :=
    Status.ofResult?_injective last
  cases (failsTo_step faults).place

theorem withLimit_of_ne (other : ∀ limit, status ≠ .errored (.stepLimit limit)) (limit : Nat) :
    status.withLimit limit = status := by
  unfold Status.withLimit
  split
  · exact absurd rfl (other _)
  · rfl

/-- What is left after the first limit is run under the second one as under their sum. -/
theorem Advances.ends_both {a : Nat} (way : Advances config observer a m s n t) (b : Nat) :
    ∃ status p u, n.Ends (config.withLimit (some b)) observer t status p u ∧
      m.Ends (config.withLimit (some (a + b))) observer s (status.withLimit (a + b)) p u := by
  obtain ⟨p, u, rest⟩ | ⟨j, p, u, status, before, rest, last⟩ :=
    advances_or_ends config observer b n t
  · exact ⟨_, p, u, rest.ends_limit, (way.trans rest).ends_limit⟩
  · refine ⟨status, _, _, rest.ends (by simpa using before) last, ?_⟩
    rw [withLimit_of_ne (ne_stepLimit_of_step last)]
    exact (way.trans rest).ends (by simpa using before) last

/-- A run under a limit ends. If that is because of the limit, then going on under another limit
comes to where one run under the sum of both does, and with the same status, but for the limit that
is reported. If not, a higher limit or none makes no difference. -/
theorem limits_compose (m : Machine) (config : RunConfig) (observer : Observer σ) (s : σ)
    (a b : Nat) :
    (∃ status n t, m.Ends (config.withLimit (some a)) observer s status n t) ∧
    ∀ status n t, m.Ends (config.withLimit (some a)) observer s status n t →
      (∀ limit, status = .errored (.stepLimit limit) →
        limit = a ∧ ∃ status' p u,
          n.Ends (config.withLimit (some b)) observer t status' p u ∧
          m.Ends (config.withLimit (some (a + b))) observer s (status'.withLimit (a + b)) p u) ∧
      ((∀ limit, status ≠ .errored (.stepLimit limit)) →
        m.Ends (config.withLimit (some (a + b))) observer s status n t ∧
          m.Ends (config.withLimit none) observer s status n t) := by
  obtain ⟨p, u, way⟩ | ⟨j, p, u, status, before, way, last⟩ :=
    advances_or_ends config observer a m s
  · have limited := way.ends_limit
    refine ⟨⟨_, p, u, limited⟩, ?_⟩
    intro status n t ended
    obtain ⟨rfl, rfl, rfl⟩ := limited.unique ended
    constructor
    · rintro limit same
      cases same
      exact ⟨rfl, way.ends_both b⟩
    · intro other
      exact absurd rfl (other a)
  · have below : ∀ l, some a = some l → j < l := by simpa using before
    have above : ∀ l, some (a + b) = some l → j < l := by
      simp only [Option.some.injEq, forall_eq']
      omega
    have early := way.ends below last
    refine ⟨⟨_, _, _, early⟩, ?_⟩
    intro status' n t ended
    obtain ⟨rfl, rfl, rfl⟩ := early.unique ended
    constructor
    · intro limit same
      exact absurd same (ne_stepLimit_of_step last limit)
    · intro _
      exact ⟨way.ends above last, way.ends (by simp) last⟩

/-- A `noop` and a `halt`, one step at a time and both at once. -/
theorem limits_compose_noop :
    let m : Machine := { memory := Memory.ofImage [21, 0] }
    let config : RunConfig := {}
    ∃ n p, m.Ends (config.withLimit (some 1)) .silent () (.errored (.stepLimit 1)) n () ∧
      n.Ends (config.withLimit (some 1)) .silent () .halted p () ∧
      m.Ends (config.withLimit (some 2)) .silent () .halted p () ∧
      m.Ends (config.withLimit (some 5)) .silent () .halted p () ∧
      m.Ends (config.withLimit none) .silent () .halted p () := by
  intro m config
  let first := m.run (config.withLimit (some 1)) .silent () 2
  let second := first.machine.run (config.withLimit (some 1)) .silent () 1
  have exhausted : first.status = some (.errored (.stepLimit 1)) := by
    unfold first m config
    simp only [run, runFrom, step, awaitsInput, Memory.instructionAt, Memory.extent_eq]
    rfl
  have halted : second.status = some .halted := by
    unfold second first m config
    simp only [run, runFrom, step, awaitsInput, Memory.instructionAt, Memory.extent_eq]
    rfl
  have ended := ends_of_status exhausted
  have rest := ends_of_status halted
  obtain ⟨-, sums⟩ := limits_compose m config .silent () 1 1
  obtain ⟨-, status, p, _, split, sum⟩ := (sums _ _ _ ended).1 1 rfl
  obtain ⟨rfl, rfl, -⟩ := rest.unique split
  obtain ⟨-, higher⟩ := limits_compose m config .silent () 2 3
  obtain ⟨five, unlimited⟩ := (higher _ _ _ sum).2 (by simp [Status.withLimit])
  exact ⟨_, _, ended, rest, sum, five, unlimited⟩

end Machine

end WordMachine

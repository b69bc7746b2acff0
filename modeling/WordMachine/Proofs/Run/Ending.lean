import WordMachine.Run

/-!
Where a run goes and how it ends. `GoesTo` follows the steps that complete an instruction. A run
without a limit ends at the first machine on its way whose step does something else (`Ends.goesTo`),
and it ends as a run from any other machine on its way does (`GoesTo.ends_iff`).
-/

namespace WordMachine

namespace Status

/-- How a run ends at a step with the given result. After a completed instruction it goes on. -/
def ofResult? : Except Fault Progress → Option Status
  | .ok .continued => none
  | .ok .halted => some halted
  | .ok .suspended => some suspended
  | .error fault => some (errored fault)

theorem ofResult?_injective : Function.Injective ofResult? := by
  rintro (_ | _ | _ | _) (_ | _ | _ | _) same <;> cases same <;> rfl

end Status

namespace Machine

/-- A way along completed instructions, from a machine and its observer to another pair. -/
inductive GoesTo (config : RunConfig) (observer : Observer σ) :
    Machine → σ → Machine → σ → Prop where
  | here {m : Machine} {s : σ} : GoesTo config observer m s m s
  | next {m m' n : Machine} {s s' t : σ} :
    m.step config observer s = ⟨.ok .continued, m', s'⟩ → GoesTo config observer m' s' n t →
    GoesTo config observer m s n t

/-- Some budget is enough for the run to end in this way. -/
def Ends (m : Machine) (config : RunConfig) (observer : Observer σ) (s : σ) (status : Status)
    (n : Machine) (t : σ) : Prop :=
  ∃ budget, m.run config observer s budget = ⟨some status, n, t⟩

abbrev EndsAlone (m : Machine) (config : RunConfig) (status : Status) (n : Machine) : Prop :=
  m.Ends config .silent () status n ()

variable {config : RunConfig} {observer : Observer σ} {m n p : Machine} {s t u : σ}
  {status : Status}

theorem ends_of_status {budget : Nat}
    (h : (m.run config observer s budget).status = some status) :
    m.Ends config observer s status (m.run config observer s budget).machine
      (m.run config observer s budget).observer :=
  ⟨budget, by rw [← h]⟩

/-- More budget changes nothing about an ended run, so two budgets agree. -/
theorem Ends.unique {status' : Status} {n' : Machine} {t' : σ}
    (h : m.Ends config observer s status n t) (h' : m.Ends config observer s status' n' t') :
    status = status' ∧ n = n' ∧ t = t' := by
  obtain ⟨budget, h⟩ := h
  obtain ⟨budget', h'⟩ := h'
  have more : m.run config observer s (budget + budget') = ⟨some status, n, t⟩ := by
    rw [run_of_status (by rw [h]; rfl), h]
  have more' : m.run config observer s (budget' + budget) = ⟨some status', n', t'⟩ := by
    rw [run_of_status (by rw [h']; rfl), h']
  rw [Nat.add_comm, more] at more'
  cases more'
  exact ⟨rfl, rfl, rfl⟩

theorem limitReached_of_unlimited (unlimited : config.stepLimit = none) (steps : Nat) :
    limitReached config steps = none := by
  simp [limitReached, unlimited]

theorem runFrom_succ {steps : Nat} (room : limitReached config steps = none) (budget : Nat)
    (m : Machine) (s : σ) :
    let r := m.step config observer s
    runFrom config observer (budget + 1) steps m s =
      match Status.ofResult? r.result with
      | some status => ⟨some status, r.machine, r.observer⟩
      | none => runFrom config observer budget (steps + 1) r.machine r.observer := by
  simp only [runFrom, room]
  rcases m.step config observer s with ⟨_ | _ | _ | _, _, _⟩ <;> rfl

theorem run_succ (unlimited : config.stepLimit = none) (budget : Nat) (m : Machine) (s : σ) :
    let r := m.step config observer s
    m.run config observer s (budget + 1) =
      match Status.ofResult? r.result with
      | some status => ⟨some status, r.machine, r.observer⟩
      | none => runFrom config observer budget 1 r.machine r.observer :=
  runFrom_succ (limitReached_of_unlimited unlimited 0) budget m s

/-- Without a limit the steps made so far do not matter. -/
theorem runFrom_eq_run (unlimited : config.stepLimit = none) (budget steps : Nat) (m : Machine)
    (s : σ) : runFrom config observer budget steps m s = m.run config observer s budget := by
  rw [run]
  generalize 0 = steps'
  induction budget generalizing steps steps' m s with
  | zero => rfl
  | succ budget ih =>
    have room := limitReached_of_unlimited unlimited
    rw [runFrom_succ (room steps), runFrom_succ (room steps')]
    split
    · rfl
    · exact ih _ _ _ _

theorem ends_of_ofResult? (unlimited : config.stepLimit = none)
    (h : Status.ofResult? (m.step config observer s).result = some status) :
    m.Ends config observer s status (m.step config observer s).machine
      (m.step config observer s).observer := by
  refine ⟨1, ?_⟩
  rw [run_succ unlimited, h]

theorem ends_of_step (unlimited : config.stepLimit = none) {result : Except Fault Progress}
    (step : m.step config observer s = ⟨result, n, t⟩)
    (last : Status.ofResult? result = some status) : m.Ends config observer s status n t := by
  have stepped : (m.step config observer s).result = result := by rw [step]
  have ends := ends_of_ofResult? unlimited (stepped ▸ last)
  rwa [step] at ends

theorem ends_iff_of_step (unlimited : config.stepLimit = none) {m' : Machine} {s' : σ}
    (h : m.step config observer s = ⟨.ok .continued, m', s'⟩) :
    m.Ends config observer s status n t ↔ m'.Ends config observer s' status n t := by
  have more (budget : Nat) :
      m.run config observer s (budget + 1) = m'.run config observer s' budget := by
    rw [run_succ unlimited, h]
    exact runFrom_eq_run unlimited _ _ _ _
  constructor
  · rintro ⟨_ | budget, ended⟩
    · cases ended
    · exact ⟨budget, by rw [← more, ended]⟩
  · rintro ⟨budget, ended⟩
    exact ⟨budget + 1, by rw [more, ended]⟩

/-- Steps that do the same lead to the same end, wherever they start. -/
theorem ends_iff_of_step_eq (unlimited : config.stepLimit = none) {m' : Machine} {s' : σ}
    (same : m.step config observer s = m'.step config observer s') :
    m.Ends config observer s status n t ↔ m'.Ends config observer s' status n t := by
  have once (budget : Nat) :
      m.run config observer s (budget + 1) = m'.run config observer s' (budget + 1) := by
    simp only [run_succ unlimited, same]
  constructor
  · rintro ⟨_ | budget, ended⟩
    · cases ended
    · exact ⟨budget + 1, by rw [← once, ended]⟩
  · rintro ⟨_ | budget, ended⟩
    · cases ended
    · exact ⟨budget + 1, by rw [once, ended]⟩

theorem GoesTo.ends_iff (unlimited : config.stepLimit = none)
    (way : GoesTo config observer m s p u) :
    m.Ends config observer s status n t ↔ p.Ends config observer u status n t := by
  induction way with
  | here => rfl
  | next step _ ih => rw [ends_iff_of_step unlimited step, ih]

theorem GoesTo.trans (first : GoesTo config observer m s p u)
    (rest : GoesTo config observer p u n t) : GoesTo config observer m s n t := by
  induction first with
  | here => exact rest
  | next step _ ih => exact .next step (ih rest)

/-- The machine at which a run ends is on its way, and if the run has not run out of steps there,
it ends as the step of that machine does. -/
theorem goesTo_of_runFrom {budget steps : Nat}
    (ended : runFrom config observer budget steps m s = ⟨some status, n, t⟩) :
    (∃ limit, status = .errored (.stepLimit limit) ∧ config.stepLimit = some limit) ∨
      ∃ p u, GoesTo config observer m s p u ∧
        Status.ofResult? (p.step config observer u).result = some status ∧
        (p.step config observer u).machine = n ∧ (p.step config observer u).observer = t := by
  induction budget generalizing steps m s with
  | zero => cases ended
  | succ budget ih =>
    cases reached : limitReached config steps with
    | some limit =>
      rw [runFrom, reached] at ended
      cases ended
      exact .inl ⟨limit, rfl, (Option.filter_eq_some_iff.1 reached).1⟩
    | none =>
      rw [runFrom_succ reached] at ended
      generalize step : m.step config observer s = r at ended
      cases result : Status.ofResult? r.result with
      | some status' =>
        rw [result] at ended
        cases ended
        exact .inr ⟨m, s, .here, by rw [step, result], by rw [step], by rw [step]⟩
      | none =>
        rw [result] at ended
        have continued : r.result = .ok .continued := Status.ofResult?_injective result
        have goesOn : m.step config observer s = ⟨.ok .continued, r.machine, r.observer⟩ := by
          rw [step, ← continued]
        obtain limited | ⟨p, u, way, last⟩ := ih ended
        · exact .inl limited
        · exact .inr ⟨p, u, .next goesOn way, last⟩

theorem Ends.goesTo (unlimited : config.stepLimit = none)
    (h : m.Ends config observer s status n t) :
    ∃ p u, GoesTo config observer m s p u ∧
      Status.ofResult? (p.step config observer u).result = some status ∧
      (p.step config observer u).machine = n ∧ (p.step config observer u).observer = t := by
  obtain ⟨budget, ended⟩ := h
  refine (goesTo_of_runFrom ended).resolve_left ?_
  rintro ⟨limit, -, limited⟩
  rw [unlimited] at limited
  cases limited

theorem GoesTo.invariant {P : Machine → Prop}
    (keeps : ∀ m s, P m → P (m.step config observer s).machine)
    (way : GoesTo config observer m s p u) (holds : P m) : P p := by
  induction way with
  | here => exact holds
  | @next m m' p s s' u step _ ih =>
    apply ih
    have kept := keeps m s holds
    rwa [step] at kept

theorem Ends.invariant (unlimited : config.stepLimit = none) {P : Machine → Prop}
    (keeps : ∀ m s, P m → P (m.step config observer s).machine)
    (h : m.Ends config observer s status n t) (holds : P m) : P n := by
  obtain ⟨p, u, way, _, rfl, _⟩ := h.goesTo unlimited
  exact keeps p u (way.invariant keeps holds)

/-- Runs of the two machines end with the same status, and the same to look at, if they end. -/
def EndAlike (config : RunConfig) (view : Machine → α) (m n : Machine) : Prop :=
  ∀ status last, (∃ m', m.EndsAlone config status m' ∧ view m' = last) ↔
    ∃ n', n.EndsAlone config status n' ∧ view n' = last

namespace EndAlike

variable {view : Machine → α}

theorem symm (h : EndAlike config view m n) : EndAlike config view n m :=
  fun status last => (h status last).symm

theorem trans (first : EndAlike config view m n) (second : EndAlike config view n p) :
    EndAlike config view m p :=
  fun status last => (first status last).trans (second status last)

/-- A symmetric relation that carries ends over makes them alike. -/
theorem of_symmetric {R : Machine → Machine → Prop} (swap : ∀ {m n}, R m n → R n m)
    (carry : ∀ {m n}, R m n → ∀ {status m'}, m.EndsAlone config status m' →
      ∃ n', n.EndsAlone config status n' ∧ view n' = view m')
    (h : R m n) : EndAlike config view m n := by
  intro status last
  constructor
  · rintro ⟨m', ended, rfl⟩
    exact carry h ended
  · rintro ⟨n', ended, rfl⟩
    exact carry (swap h) ended

theorem exists_ends (h : EndAlike config view m n) {m' : Machine}
    (ended : m.EndsAlone config status m') :
    ∃ n', n.EndsAlone config status n' ∧ view n' = view m' :=
  (h status (view m')).1 ⟨m', ended, rfl⟩

theorem ends_iff (h : EndAlike config view m n) (status : Status) :
    (∃ m', m.EndsAlone config status m') ↔ ∃ n', n.EndsAlone config status n' := by
  constructor
  · rintro ⟨m', ended⟩
    obtain ⟨n', ended', -⟩ := h.exists_ends ended
    exact ⟨n', ended'⟩
  · rintro ⟨n', ended⟩
    obtain ⟨m', ended', -⟩ := h.symm.exists_ends ended
    exact ⟨m', ended'⟩

theorem view_eq (h : EndAlike config view m n) {m' n' : Machine}
    (ended : m.EndsAlone config status m') (ended' : n.EndsAlone config status n') :
    view m' = view n' := by
  obtain ⟨n'', ended'', same⟩ := h.exists_ends ended
  obtain ⟨-, rfl, -⟩ := ended'.unique ended''
  exact same.symm

/-- What is the same to look at closely is so from afar. -/
theorem coarsen {coarse : Machine → β} (h : EndAlike config view m n)
    (factors : ∀ m n, view m = view n → coarse m = coarse n) : EndAlike config coarse m n := by
  refine of_symmetric (R := EndAlike config view) symm ?_ h
  intro m n h status m' ended
  obtain ⟨n', ended', same⟩ := h.exists_ends ended
  exact ⟨n', ended', factors _ _ same⟩

end EndAlike

theorem endAlike_of_goesTo (unlimited : config.stepLimit = none)
    (way : GoesTo config .silent m () p ()) (view : Machine → α) : EndAlike config view m p := by
  intro status last
  simp only [way.ends_iff unlimited]

end Machine

end WordMachine

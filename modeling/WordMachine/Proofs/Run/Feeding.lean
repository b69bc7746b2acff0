import WordMachine.Proofs.Run.Ending
import WordMachine.Proofs.Step.Feeding

/-!
Feeding a machine while it waits is feeding it in advance: a run with more input queued behind
passes the place where the other one was suspended, and goes on from there as that one does once it
is fed (`endAlike_of_suspended`). `fed_in_pieces` says so of a run that is suspended and fed any
number of times.
-/

namespace WordMachine.Machine

variable {config : RunConfig} {observer : Observer σ} {m n p : Machine} {s u : σ}

/-- A step is suspended for want of input, and changes nothing. -/
theorem step_of_suspended (h : (m.step config observer s).result = .ok .suspended) :
    (m.step config observer s).machine = m ∧ m.console.pending = [] := by
  have outcome := step_outcome m config observer s
  generalize (m.step config observer s).result = result at outcome h
  generalize (m.step config observer s).machine = n at outcome
  cases outcome with
  | asleep _ awaits =>
    obtain ⟨-, -, empty⟩ := awaitsInput_iff.1 awaits
    exact ⟨rfl, empty⟩
  | @completed i effect text decoded supplied means =>
    obtain rfl : effect = .wait := by cases effect <;> first | rfl | cases h
    -- An `input` that waits has found nothing, so nothing was supplied to it.
    have empty := Effect.pending_of_meaning?_wait means
    rw [feed_eq] at empty
    obtain ⟨before, supply⟩ := List.append_eq_nil_iff.1 empty
    have nothing : text = "" := by simpa using supply
    rw [nothing, feed_empty]
    exact ⟨rfl, before⟩
  | _ => cases h

theorem Matches.continued {left : Step σ} {n : Machine} {t : σ}
    (h : Matches left ⟨.ok .continued, n, t⟩) :
    ∃ n', left = ⟨.ok .continued, n', t⟩ ∧ n'.unmarked = n.unmarked := by
  obtain ⟨result, n', t'⟩ := left
  obtain rfl : result = .ok .continued := h.result
  obtain rfl : t' = t := h.observer
  exact ⟨n', rfl, h.machine⟩

/-- With input queued behind, a run passes the same places. -/
theorem GoesTo.feed (suspends : config.suspendOnInput = true) (text : String)
    (way : GoesTo config observer m s p u) (fed : n.unmarked = (m.feed text).unmarked) :
    ∃ q, GoesTo config observer n s q u ∧ q.unmarked = (p.feed text).unmarked := by
  induction way generalizing n with
  | here => exact ⟨n, .here, fed⟩
  | @next m m' p s s' u step _ ih =>
    have awake : (m.step config observer s).result ≠ .ok .suspended := by
      rw [step]
      nofun
    have ahead := (step_of_unmarked fed config observer s).trans (step_feed suspends awake text)
    rw [step] at ahead
    obtain ⟨n', step', fed'⟩ := ahead.continued
    obtain ⟨q, rest, fedLast⟩ := ih fed'
    exact ⟨q, .next step' rest, fedLast⟩

theorem Ends.of_unmarked (unlimited : config.stepLimit = none) (h : m.unmarked = n.unmarked)
    {status : Status} {m' : Machine} {t : σ} (ended : m.Ends config observer s status m' t) :
    ∃ n', n.Ends config observer s status n' t ∧ n'.unmarked = m'.unmarked := by
  obtain ⟨p, u, way, last, rfl, rfl⟩ := ended.goesTo unlimited
  clear ended
  induction way generalizing n with
  | @here m s =>
    obtain ⟨result, observers, machines⟩ := step_of_unmarked h config observer s
    rw [result] at last
    rw [observers]
    exact ⟨_, ends_of_ofResult? unlimited last, machines.symm⟩
  | @next m m' p s s' u step _ ih =>
    have alongside := step_of_unmarked h.symm config observer s
    rw [step] at alongside
    obtain ⟨n', step', h'⟩ := alongside.continued
    obtain ⟨n'', ended, h''⟩ := ih h'.symm last
    exact ⟨n'', (ends_iff_of_step unlimited step').2 ended, h''⟩

/-- Machines that differ in the checkpoint alone have runs that end alike. -/
theorem endAlike_of_unmarked (unlimited : config.stepLimit = none) (h : m.unmarked = n.unmarked) :
    EndAlike config unmarked m n :=
  .of_symmetric (R := fun m n => m.unmarked = n.unmarked) Eq.symm
    (fun same _ _ ended => ended.of_unmarked unlimited same) h

/-- The machine at which a run is suspended is the one that it leaves, and it lacks input. -/
theorem Ends.goesTo_of_suspended (unlimited : config.stepLimit = none)
    (h : m.Ends config observer s .suspended n u) :
    (∃ t, GoesTo config observer m s n t) ∧ n.console.pending = [] := by
  obtain ⟨p, t, way, last, rfl, -⟩ := h.goesTo unlimited
  have suspended : (p.step config observer t).result = .ok .suspended :=
    Status.ofResult?_injective last
  obtain ⟨same, empty⟩ := step_of_suspended suspended
  rw [same]
  exact ⟨⟨t, way⟩, empty⟩

/-- Input that comes while a run is suspended might as well have been there before. -/
theorem endAlike_of_suspended (suspends : config.suspendOnInput = true)
    (unlimited : config.stepLimit = none) (h : m.EndsAlone config .suspended n) (text : String) :
    EndAlike config unmarked (m.feed text) (n.feed text) := by
  obtain ⟨⟨_, way⟩, -⟩ := h.goesTo_of_suspended unlimited
  obtain ⟨q, ahead, fed⟩ := way.feed suspends text rfl
  exact (endAlike_of_goesTo unlimited ahead unmarked).trans (endAlike_of_unmarked unlimited fed)

/-- Pieces of text are fed in turn, and after each a run is suspended; so it comes to the last
machine. -/
inductive FedInTurn (config : RunConfig) : Machine → List String → Machine → Prop where
  | nil {m : Machine} : FedInTurn config m [] m
  | cons {m n w : Machine} {text : String} {texts : List String} :
    (m.feed text).EndsAlone config .suspended n → FedInTurn config n texts w →
    FedInTurn config m (text :: texts) w

theorem FedInTurn.endAlike (suspends : config.suspendOnInput = true)
    (unlimited : config.stepLimit = none) {texts : List String} {w : Machine}
    (fed : FedInTurn config m texts w) (last : String) :
    EndAlike config unmarked (m.feed (String.join (texts ++ [last]))) (w.feed last) := by
  induction fed with
  | @nil m =>
    have joined : String.join ([] ++ [last]) = last := by simp
    rw [joined]
    exact endAlike_of_unmarked unlimited rfl
  | @cons m n w text texts ended _ ih =>
    have joined :
        String.join (text :: texts ++ [last]) = text ++ String.join (texts ++ [last]) := by
      simp
    rw [joined, ← feed_feed]
    -- The later pieces are first queued behind this one, then moved to where its run is suspended.
    exact (endAlike_of_suspended suspends unlimited ended _).trans ih

/-- Input in pieces, with a run suspended after each but the last, is the same as the whole input at
once: the last run ends if and only if the only run does, in the same way, and it leaves the same
machine up to the checkpoint. -/
theorem fed_in_pieces (suspends : config.suspendOnInput = true)
    (unlimited : config.stepLimit = none) {texts : List String} {w : Machine}
    (fed : FedInTurn config m texts w) (last : String) (status : Status) :
    ((∃ n, (w.feed last).EndsAlone config status n) ↔
      ∃ n, (m.feed (String.join (texts ++ [last]))).EndsAlone config status n) ∧
    ∀ n n', (w.feed last).EndsAlone config status n →
      (m.feed (String.join (texts ++ [last]))).EndsAlone config status n' →
      n' = { n with checkpoint := n'.checkpoint } := by
  have alike := fed.endAlike suspends unlimited last
  refine ⟨(alike.ends_iff status).symm, ?_⟩
  intro n n' ended ended'
  exact eq_of_unmarked (alike.view_eq ended' ended).symm

/-- Two characters, fed one by one. -/
theorem fed_in_pieces_twice :
    let m : Machine := { memory := Memory.ofImage [20, 32768, 20, 32769, 0] }
    ∃ w n n', FedInTurn {} m ["a"] w ∧ (w.feed "b").EndsAlone {} .halted n ∧
      (m.feed "ab").EndsAlone {} .halted n' ∧ n' = { n with checkpoint := n'.checkpoint } := by
  intro m
  let first := (m.feed "a").run {} .silent () 2
  have suspended : first.status = some .suspended := by
    unfold first m
    simp only [run, runFrom, step, awaitsInput, Memory.instructionAt, Memory.extent_eq]
    rfl
  have halted : ((first.machine.feed "b").run {} .silent () 2).status = some .halted := by
    unfold first m
    simp only [run, runFrom, step, awaitsInput, Memory.instructionAt, Memory.extent_eq]
    rfl
  have fed : FedInTurn {} m ["a"] first.machine := .cons (ends_of_status suspended) .nil
  have ended : (first.machine.feed "b").EndsAlone {} .halted _ := ends_of_status halted
  obtain ⟨whole, same⟩ := fed_in_pieces rfl rfl fed "b" .halted
  obtain ⟨n', once⟩ := whole.1 ⟨_, ended⟩
  have joined : String.join (["a"] ++ ["b"]) = "ab" := by decide
  exact ⟨_, _, n', fed, ended, joined ▸ once, same _ _ ended once⟩

end WordMachine.Machine

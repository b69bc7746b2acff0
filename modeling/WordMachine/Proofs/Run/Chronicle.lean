import WordMachine.Proofs.Operation
import WordMachine.Proofs.Step.Transcript

/-!
What came of some moves, in order: the texts that a caller fed, and the turns of the machine, those
within a run among them. `leads_play` says that a chronicle leads from the console before the moves
to the one after, with nothing left out, so that a law of each occurrence is a law of all moves.
-/

namespace WordMachine

inductive Occurrence where
  | fed (text : String)
  | turn (t : Turn)

/-- The chronicle leads from one console to another. -/
inductive Leads : Console → List Occurrence → Console → Prop where
  | nothing (c : Console) : Leads c [] c
  | fed {c d : Console} {rest : List Occurrence} (text : String) : Leads (c.feed text) rest d →
    Leads c (.fed text :: rest) d
  | turn {d : Console} {rest : List Occurrence} {t : Turn} : t.Happens →
    Leads t.after.console rest d → Leads t.before.console (.turn t :: rest) d

theorem Leads.trans {a b c : Console} {first rest : List Occurrence} (h : Leads a first b)
    (h' : Leads b rest c) : Leads a (first ++ rest) c := by
  induction h with
  | nothing => exact h'
  | fed text _ ih => exact .fed text (ih h')
  | turn happens _ ih => exact .turn happens (ih h')

theorem Leads.happens {c d : Console} {chronicle : List Occurrence} (h : Leads c chronicle d)
    {t : Turn} (occurs : .turn t ∈ chronicle) : t.Happens := by
  induction h with
  | nothing => cases occurs
  | fed text _ ih => exact ih ((List.mem_cons.1 occurs).resolve_left nofun)
  | turn happens _ ih =>
    obtain same | later := List.mem_cons.1 occurs
    · cases same
      exact happens
    · exact ih later

/-- What each occurrence adds to a view of the console is there in the end, in order. -/
theorem Leads.grows {c d : Console} {chronicle : List Occurrence} (h : Leads c chronicle d)
    (view : Console → List α) (added : Occurrence → List α)
    (fed : ∀ c text, view (c.feed text) = view c ++ added (.fed text))
    (turn : ∀ t, t.Happens → view t.after.console = view t.before.console ++ added (.turn t)) :
    view d = view c ++ chronicle.flatMap added := by
  induction h with
  | nothing => simp
  | @fed c d rest text _ ih => rw [ih, fed, List.append_assoc, List.flatMap_cons]
  | @turn d rest t happens _ ih => rw [ih, turn t happens, List.append_assoc, List.flatMap_cons]

namespace Machine

/-- The turns of a run that has made the given number of steps. -/
def turnsFrom (config : RunConfig) (o : Observer σ) : (budget steps : Nat) → Machine → σ → List Turn
  | 0, _, _, _ => []
  | budget + 1, steps, m, s =>
    match limitReached config steps with
    | some _ => []
    | none =>
      m.turn config o s ::
        match m.step config o s with
        | ⟨.ok .continued, m, s⟩ => turnsFrom config o budget (steps + 1) m s
        | _ => []

end Machine

def Move.occurrences (m : Machine) : Move → List Occurrence
  | feed text => [.fed text]
  | step config o s => [.turn (m.turn config o s)]
  | run config o s budget => (Machine.turnsFrom config o budget 0 m s).map .turn
  | _ => []

namespace Machine

def chronicle (m : Machine) : List Move → List Occurrence
  | [] => []
  | move :: moves => move.occurrences m ++ (move.make m).2.chronicle moves

theorem leads_turn (m : Machine) (config : RunConfig) (o : Observer σ) (s : σ) :
    Leads m.console [.turn (m.turn config o s)] (m.step config o s).machine.console := by
  rw [← turn_after]
  exact .turn (happens_turn m config o s) (.nothing _)

theorem leads_runFrom (config : RunConfig) (o : Observer σ) (budget steps : Nat) (m : Machine)
    (s : σ) :
    Leads m.console ((turnsFrom config o budget steps m s).map .turn)
      (runFrom config o budget steps m s).machine.console := by
  induction budget generalizing steps m s with
  | zero => exact .nothing _
  | succ budget ih =>
    simp only [turnsFrom, runFrom]
    cases limitReached config steps with
    | some limit => exact .nothing _
    | none =>
      have first := leads_turn m config o s
      generalize m.step config o s = r at first
      obtain ⟨result, n, after⟩ := r
      rcases result with fault | progress
      · exact first
      · cases progress with
        | continued => exact first.trans (ih (steps + 1) n after)
        | halted | suspended => exact first

theorem console_patchNoops (m : Machine) (addrs : List Word) :
    (m.patchNoops addrs).console = m.console := by
  induction addrs generalizing m with
  | nil => rfl
  | cons addr addrs ih => exact ih _

theorem leads_make (m : Machine) (move : Move) :
    Leads m.console (move.occurrences m) (move.make m).2.console := by
  cases move with
  | feed text => exact .fed text (.nothing _)
  | step config o s => exact leads_turn m config o s
  | run config o s budget => exact leads_runFrom config o budget 0 m s
  | patchNoops addrs =>
    rw [← console_patchNoops m addrs]
    exact .nothing _
  | write | setPc | setRegister => exact .nothing _

theorem leads_play (m : Machine) (moves : List Move) :
    Leads m.console (m.chronicle moves) (m.play moves).console := by
  induction moves generalizing m with
  | nil => exact .nothing _
  | cons move moves ih => exact (leads_make m move).trans (ih _)

end Machine

end WordMachine

import Mathlib.Data.Set.Function
import WordMachine.Debugger
import WordMachine.Effect

/-!
Machines that differ in registers which a debugger watches. An instruction reads a register only
after the debugger was asked, and the debugger stops every read of a watched one; so on two such
machines an instruction resolves to one outcome and leaves one dialogue (`indistinct_resolve`).
-/

namespace WordMachine

def Debugger.Watches (d : Debugger) (W : Set Reg) : Prop := ∀ r ∈ W, d.watched.get r = true

structure Snapshot.AgreeOutside (W : Set Reg) (s t : Snapshot) : Prop where
  pc : s.pc = t.pc
  registers : Set.EqOn s.registers.get t.registers.get Wᶜ
  stack : s.stack = t.stack
  changed : s.changed = t.changed
  input : s.input = t.input
  echo : s.echo = t.echo
  output : s.output = t.output

/-- Machines that are equal but for the values of registers in `W`, their own and those that their
checkpoints hold. -/
structure Machine.AgreeOutside (W : Set Reg) (m n : Machine) : Prop where
  memory : m.memory = n.memory
  registers : Set.EqOn m.registers.get n.registers.get Wᶜ
  stack : m.stack = n.stack
  pc : m.pc = n.pc
  console : m.console = n.console
  checkpoint : Option.Rel (Snapshot.AgreeOutside W) m.checkpoint n.checkpoint
  branch : m.branch = n.branch

namespace Effect

/-- A debugger that watches `W` takes the computations for one, and goes on watching. -/
structure Indistinct (W : Set Reg) (x y : Resolve Debugger α) : Prop where
  same (d : Dialogue Debugger) : d.observer.Watches W → x.run d = y.run d
  watches (d : Dialogue Debugger) : d.observer.Watches W → (x.run d).2.observer.Watches W

namespace Indistinct

variable {W : Set Reg}

theorem pure (a : α) : Indistinct W (Pure.pure a) (Pure.pure a) where
  same _ _ := rfl
  watches _ watching := watching

theorem fault (f : Fault) : Indistinct W (.fault f : Resolve Debugger α) (.fault f) where
  same _ _ := rfl
  watches _ watching := watching

theorem bind {x y : Resolve Debugger α} {f g : α → Resolve Debugger β} (first : Indistinct W x y)
    (rest : ∀ a, Indistinct W (f a) (g a)) : Indistinct W (x >>= f) (y >>= g) where
  same d watching := by
    have after := first.watches d watching
    rw [Resolve.run_bind, Resolve.run_bind, ← first.same d watching]
    generalize x.run d = r at after
    obtain ⟨_ | a, between⟩ := r
    · rfl
    · exact (rest a).same between after
  watches d watching := by
    have after := first.watches d watching
    rw [Resolve.run_bind]
    generalize x.run d = r at after
    obtain ⟨_ | a, between⟩ := r
    · exact after
    · exact (rest a).watches between after

end Indistinct

variable {W : Set Reg} {m n : Machine} {op : Opcode} {config : RunConfig}

theorem watches_stopIf {d : Debugger} (watching : d.Watches W) (condition : Bool) (hit : Hit) :
    (d.stopIf condition hit).2.Watches W := by
  unfold Debugger.stopIf
  split <;> exact watching

theorem watches_nextLine {d : Debugger} (watching : d.Watches W) : d.nextLine.2.Watches W := by
  unfold Debugger.nextLine
  split <;> exact watching

theorem indistinct_consult (pc : m.pc = n.pc) {ask : Debugger → Verdict × Debugger}
    (keeps : ∀ d, d.Watches W → (ask d).2.Watches W) :
    Indistinct W (consult m ask) (consult n ask) where
  same d _ := by simp only [consult, Resolve.run, pc]
  watches d watching := by
    have kept := keeps d.observer watching
    simp only [consult, Resolve.run]
    split <;> rename_i asked <;> rwa [asked] at kept

/-- Nothing follows a consultation that says stop. -/
theorem run_consult_bind {ask : σ → Verdict × σ} {d : Dialogue σ}
    (stops : (ask d.observer).1 = .stop) (f : Unit → Resolve σ α) :
    (consult m ask >>= f).run d =
      (.error (.stopped m.pc), { d with observer := (ask d.observer).2 }) := by
  rw [Resolve.run_bind]
  simp only [consult, Resolve.run]
  generalize ask d.observer = answer at stops
  obtain ⟨_, s⟩ := answer
  cases stops
  rfl

theorem indistinct_read_watched (pc : m.pc = n.pc) {r : Reg} (watched : r ∈ W)
    (f g : Unit → Resolve Debugger α) :
    Indistinct W (consult m (Debugger.observer.beforeRead m.pc r) >>= f)
      (consult n (Debugger.observer.beforeRead n.pc r) >>= g) := by
  have stops (d : Debugger) (watching : d.Watches W) (pc : Word) :
      (Debugger.observer.beforeRead pc r d).1 = .stop := by
    simp [Debugger.observer, Debugger.stopIf, watching r watched]
  constructor
  · intro d watching
    rw [run_consult_bind (stops _ watching _), run_consult_bind (stops _ watching _), pc]
  · intro d watching
    rw [run_consult_bind (stops _ watching _)]
    exact watches_stopIf watching _ _

theorem indistinct_read (h : m.AgreeOutside W n) (w : Word) :
    Indistinct W (read Debugger.observer m op w) (read Debugger.observer n op w) := by
  unfold read
  split
  · exact .pure _
  · rename_i r _
    by_cases watched : r ∈ W
    · exact indistinct_read_watched h.pc watched _ _
    · rw [h.registers watched, h.pc]
      apply Indistinct.bind
      · exact indistinct_consult h.pc fun d watching => watches_stopIf watching _ _
      · intro _
        exact .pure _
  · rw [h.pc]
    exact .fault _

theorem indistinct_destination (h : m.AgreeOutside W n) (w : Word) :
    Indistinct W (destination m op w) (destination n op w) := by
  unfold destination
  rw [h.pc]
  split
  · exact .pure _
  · exact .fault _
  · exact .fault _

theorem indistinct_top (h : m.AgreeOutside W n) : Indistinct W (top m op) (top n op) := by
  unfold top
  rw [h.stack, h.pc]
  split
  · exact .pure _
  · exact .fault _

theorem indistinct_unary (h : m.AgreeOutside W n) (f : Word → Word) (a b : Word) :
    Indistinct W (unary Debugger.observer m op f a b) (unary Debugger.observer n op f a b) :=
  (indistinct_destination h a).bind fun _ => (indistinct_read h b).bind fun _ => .pure _

theorem indistinct_binary (h : m.AgreeOutside W n) (f : Word → Word → Word) (a b c : Word) :
    Indistinct W (binary Debugger.observer m op f a b c) (binary Debugger.observer n op f a b c) :=
  (indistinct_destination h a).bind fun _ => (indistinct_read h b).bind fun _ =>
    (indistinct_read h c).bind fun _ => .pure _

theorem indistinct_remainder (h : m.AgreeOutside W n) (a b c : Word) :
    Indistinct W (remainder Debugger.observer m op a b c)
      (remainder Debugger.observer n op a b c) := by
  refine (indistinct_destination h a).bind fun _ => (indistinct_read h b).bind fun _ =>
    (indistinct_read h c).bind fun divisor => ?_
  rw [h.pc]
  split
  · exact .fault _
  · exact .pure _

/-- An effect that takes the values of two operands. -/
theorem indistinct_takingTwo (h : m.AgreeOutside W n) (a b : Word) (f : Word → Word → Effect) :
    Indistinct W (do let x ← read Debugger.observer m op a
                     return f x (← read Debugger.observer m op b))
      (do let x ← read Debugger.observer n op a; return f x (← read Debugger.observer n op b)) :=
  (indistinct_read h a).bind fun _ => (indistinct_read h b).bind fun _ => .pure _

theorem indistinct_output (h : m.AgreeOutside W n) (a : Word) :
    Indistinct W (output config Debugger.observer m op a)
      (output config Debugger.observer n op a) := by
  refine (indistinct_read h a).bind fun value => ?_
  rw [h.pc]
  split
  · exact .fault _
  · apply Indistinct.bind
    · exact indistinct_consult h.pc fun d watching => watches_stopIf watching _ _
    · intro _
      exact .pure _

theorem indistinct_firstInput (h : m.AgreeOutside W n) :
    Indistinct W (firstInput Debugger.observer m) (firstInput Debugger.observer n) where
  same d _ := by simp only [firstInput, Resolve.run, h.console]
  watches d watching := by
    have after := watches_nextLine watching
    simp only [firstInput, Resolve.run, Debugger.observer]
    split
    · exact watching
    · split <;> rename_i handed <;> rwa [handed] at after

theorem indistinct_input (h : m.AgreeOutside W n) (a : Word) :
    Indistinct W (input Debugger.observer m op a) (input Debugger.observer n op a) := by
  refine (indistinct_destination h a).bind fun reg =>
    (indistinct_firstInput h).bind fun first => ?_
  rw [h.pc]
  split
  · exact .pure _
  · split
    · exact .pure _
    · exact .fault _

theorem indistinct_resolve (h : m.AgreeOutside W n) (w : Vector Word op.operandCount) :
    Indistinct W (resolve config Debugger.observer m op w)
      (resolve config Debugger.observer n op w) := by
  cases op with
  | halt | noop => exact .pure _
  | set | not => exact indistinct_unary h _ _ _
  | load =>
    simp only [resolve, h.memory]
    exact indistinct_unary h _ _ _
  | eq | gt | add | mult | and | or => exact indistinct_binary h _ _ _ _
  | mod => exact indistinct_remainder h _ _ _
  | push | jump | call => exact (indistinct_read h _).bind fun _ => .pure _
  | pop =>
    exact (indistinct_destination h _).bind fun _ => (indistinct_top h).bind fun _ => .pure _
  | jumpIf | jumpUnless | store => exact indistinct_takingTwo h _ _ _
  | ret => exact (indistinct_top h).bind fun _ => .pure _
  | output => exact indistinct_output h _
  | input => exact indistinct_input h _

end Effect

end WordMachine

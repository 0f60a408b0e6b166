import ScriptTrace.Proofs.EndState
import ScriptTrace.Proofs.Oblivious
import ScriptTrace.Syntax.Build

/-!
# Histories only grow, and runs compose

Whatever a run does, and however it ends, the history of its start is a prefix of the one that it
leaves: a run does not look at its history, so it can only add events, and a history that leaves out
repeats keeps what it has kept.

Statements in order are run one after the other, so a program goes on where another has ended. If
the first fails, nothing that would come after it counts. With both, the history of a run of a
program is a prefix of that of every longer program, which is what makes the history of a failed run
worth keeping (`Program.runFrom_append`).
-/

namespace ScriptTrace

/-! ## The history of the start is kept -/

namespace History

theorem isPrefix_record (h : History) (e : Event) :
    h.events.toList <+: (h.record e).events.toList := by
  rw [toList_events_record]
  exact List.prefix_append _ _

theorem isPrefix_recordAll (h : History) (events : List Event) :
    h.events.toList <+: (h.recordAll events).events.toList := by
  induction events generalizing h with
  | nil => exact List.prefix_refl _
  | cons e rest ih => exact (h.isPrefix_record e).trans (ih (h.record e))

@[simp] theorem policy_recordAll (h : History) (events : List Event) :
    (h.recordAll events).policy = h.policy := by
  induction events generalizing h with
  | nil => rfl
  | cons e rest ih => rw [recordAll_cons, ih, policy_record]

end History

namespace Eval

/-- A computation that does not look at the history adds events to it. -/
theorem Oblivious.exists_history_eq {α : Type} {m : Eval α} (hm : Oblivious m) (s : State) :
    ∃ events, (m.endState s).history = s.history.recordAll events := by
  obtain ⟨ending, events, hrun⟩ := hm s.environment s.heap
  refine ⟨events, ?_⟩
  have hrun : m s = _ := hrun s.history
  rw [endState, hrun]
  rcases ending with ⟨a, t⟩ | ⟨failure, t⟩
  · rfl
  · rfl

theorem Oblivious.isPrefix_endState {α : Type} {m : Eval α} (hm : Oblivious m) (s : State) :
    s.history.events.toList <+: (m.endState s).history.events.toList := by
  obtain ⟨events, hhistory⟩ := hm.exists_history_eq s
  rw [hhistory]
  exact s.history.isPrefix_recordAll events

/-- A computation that does not look at the history leaves the policy as it is. -/
theorem Oblivious.policy_of_ok {α : Type} {m : Eval α} (hm : Oblivious m) {s t : State} {a : α}
    (h : m s = .ok a t) : t.history.policy = s.history.policy := by
  obtain ⟨events, hhistory⟩ := hm.exists_history_eq s
  rw [endState_of_ok h] at hhistory
  rw [hhistory, History.policy_recordAll]

end Eval

/-! ## One program after another -/

namespace Stmt

/-- Without a plan it does not matter at which position statements stand. -/
theorem effects_none_position (config : Config) (position position' : Nat) (body : List Stmt) :
    effects config none position body = effects config none position' body := by
  induction body generalizing position position' with
  | nil => rw [effects_nil, effects_nil]
  | cons s rest ih => rw [effects_cons, effects_cons, ih (position + 1) (position' + 1)]

theorem execAll_cons (config : Config) (s : Stmt) (rest : List Stmt) :
    execAll config (s :: rest) = (do s.exec config; execAll config rest) := by
  rw [execAll, effects_cons, effects_none_position config (0 + 1) 0]
  rfl

theorem execAll_append (config : Config) (body later : List Stmt) :
    execAll config (body ++ later) = (do execAll config body; execAll config later) := by
  induction body with
  | nil =>
    rw [List.nil_append, execAll.eq_1 config [], effects_nil]
    rfl
  | cons s rest ih => rw [List.cons_append, execAll_cons, execAll_cons, ih, bind_assoc]

end Stmt

namespace Program

/-- The statements of a program and those of another after them. -/
def append (p q : Program) : Program := ⟨p.body ++ q.body, p.loc⟩

/-- What a program leaves that is run from any state. -/
def runOn (config : Config) (p : Program) (s : State) : Outcome :=
  match p.exec config s with
  | .ok () t => .finished t.history (t.environment.snapshot t.heap)
  | .error failure t => .failed failure t.history

theorem runFrom_eq_runOn (config : Config) (environment : Environment) (heap : Heap)
    (p : Program) : p.runFrom config environment heap =
      p.runOn config (.start config environment heap) := rfl

theorem events_runOn (config : Config) (p : Program) (s : State) :
    (p.runOn config s).events = ((p.exec config).endState s).history.events.toList := by
  rw [runOn, Eval.endState]
  rcases p.exec config s with ⟨u, t⟩ | ⟨failure, t⟩
  · rfl
  · rfl

theorem exec_append (config : Config) (p q : Program) :
    (p.append q).exec config = (do p.exec config; q.exec config) :=
  Stmt.execAll_append config p.body q.body

theorem runOn_append_of_error (config : Config) {p : Program} (q : Program) {s : State}
    {failure : Failure} {t : State} (h : p.exec config s = .error failure t) :
    (p.append q).runOn config s = .failed failure t.history := by
  rw [runOn, exec_append, Eval.bind_of_error h]

theorem runOn_append_of_ok (config : Config) {p : Program} (q : Program) {s t : State}
    (h : p.exec config s = .ok () t) : (p.append q).runOn config s = q.runOn config t := by
  rw [runOn, exec_append, Eval.bind_of_ok h, runOn]

theorem isPrefix_runOn_append (config : Config) (p q : Program) (s : State) :
    (p.runOn config s).events <+: ((p.append q).runOn config s).events := by
  rw [events_runOn, events_runOn, exec_append]
  rcases h : p.exec config s with ⟨u, t⟩ | ⟨failure, t⟩
  · rw [Eval.endState_of_ok h, Eval.endState_bind_of_ok h]
    exact (q.oblivious_exec config).isPrefix_endState t
  · have hend := (Eval.endState_bind_of_error (k := fun _ ↦ q.exec config) h).trans
      (Eval.endState_of_error h).symm
    exact hend ▸ List.prefix_refl _

/-- **Histories only grow, and runs compose.** Evaluating an expression and running a statement,
from any state and to any end, leave a history that starts with the history of the start. So if a
program fails, it fails in the same way whatever comes after it. If it succeeds, what comes after it
is run from the state that it leaves, and the history of both starts with its own. -/
theorem runFrom_append (config : Config) :
    (∀ (e : Expr) (s : State),
      s.history.events.toList <+: (e.eval.endState s).history.events.toList) ∧
    (∀ (x : Stmt) (s : State),
      s.history.events.toList <+: ((x.exec config).endState s).history.events.toList) ∧
    ∀ (p q : Program) (environment : Environment) (heap : Heap),
      let alone := p.runFrom config environment heap
      let both := (p.append q).runFrom config environment heap
      (∀ failure history, alone = .failed failure history → both = .failed failure history) ∧
      ∀ s, p.exec config (.start config environment heap) = .ok () s →
        both = q.runOn config s ∧ alone.events = s.history.events.toList ∧
          alone.events <+: both.events := by
  refine ⟨fun e ↦ ?_, fun x ↦ ?_, ?_⟩
  · exact (Eval.compositional_oblivious.eval e).isPrefix_endState
  · exact (Eval.compositional_oblivious.localized.exec config x).isPrefix_endState
  intro p q environment heap alone both
  constructor
  · intro failure history halone
    rcases h : p.exec config (.start config environment heap) with ⟨u, s⟩ | ⟨failure', s⟩
    · exact nomatch halone.symm.trans (runFrom_of_ok h)
    · obtain ⟨rfl, rfl⟩ := Outcome.failed.inj (halone.symm.trans (runFrom_of_error h))
      exact (runFrom_eq_runOn ..).trans (runOn_append_of_error config q h)
  · intro s h
    have hboth := (runFrom_eq_runOn ..).trans (runOn_append_of_ok config q h)
    exact ⟨hboth, congrArg Outcome.events (runFrom_of_ok h), isPrefix_runOn_append config p q _⟩

/-- A statement that binds a name, as a program. -/
def bindName : Program := .ofBody [.letVar 1 "x" (.ofNumber 1)]

/-- A statement that reads the name, as a program. -/
def readName : Program := .ofBody [.ofExpr 2 (.ofName "x")]

/-- Alone or before the binding, the reading fails; after it, it runs from what the binding
leaves. -/
theorem runFrom_append_bindName :
    (∃ failure history, readName.runFrom .standard .empty .empty = .failed failure history ∧
      (readName.append bindName).runFrom .standard .empty .empty = .failed failure history) ∧
    ∃ s, bindName.exec .standard (.start .standard .empty .empty) = .ok () s ∧
      (bindName.append readName).runFrom .standard .empty .empty = readName.runOn .standard s := by
  obtain ⟨-, -, happend⟩ := runFrom_append .standard
  constructor
  · have hrun : readName.runFrom .standard .empty .empty =
        .failed ⟨.undefinedVariable "x", some "Identifier", some 2⟩ (.empty .keepAll) := by
      rw [runFrom, exec, Stmt.execAll]
      rfl
    exact ⟨_, _, hrun, (happend readName bindName .empty .empty).1 _ _ hrun⟩
  · have hrun : bindName.exec .standard (.start .standard .empty .empty) =
        .ok () ((bindName.exec .standard).endState (.start .standard .empty .empty)) := rfl
    exact ⟨_, hrun, ((happend bindName readName .empty .empty).2 _ hrun).1⟩

end Program

end ScriptTrace

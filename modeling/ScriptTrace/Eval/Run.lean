import ScriptTrace.Eval.Stmt

/-!
# Whole runs

A run starts from given variables and arrays with an empty history. It ends with the history and
copies of all variables, or with a failure and the history up to it.
-/

namespace ScriptTrace

/-- What a run leaves. -/
inductive Outcome where
  | finished (history : History) (bindings : List (String × Snapshot))
  | failed (failure : Failure) (history : History)

namespace Outcome

/-- How a run ended: with the copies of all variables, or with a failure. -/
def result : Outcome → Except Failure (List (String × Snapshot))
  | finished _ bindings => .ok bindings
  | failed failure _ => .error failure

/-- The events that a run recorded, in order. -/
def events : Outcome → List Event
  | finished history _ => history.events.toList
  | failed _ history => history.events.toList

end Outcome

namespace Program

/-- Run a program from a state. -/
def exec (config : Config) (p : Program) : Eval Unit := Stmt.execAll config p.body

/-- Run a program from given variables and arrays. -/
def runFrom (config : Config) (environment : Environment) (heap : Heap) (p : Program) : Outcome :=
  match p.exec config (.start config environment heap) with
  | .ok () s => .finished s.history (s.environment.snapshot s.heap)
  | .error failure s => .failed failure s.history

theorem runFrom_of_ok {config : Config} {environment : Environment} {heap : Heap} {p : Program}
    {s : State} (h : p.exec config (.start config environment heap) = .ok () s) :
    p.runFrom config environment heap = .finished s.history (s.environment.snapshot s.heap) := by
  rw [runFrom, h]

theorem runFrom_of_error {config : Config} {environment : Environment} {heap : Heap} {p : Program}
    {failure : Failure} {s : State}
    (h : p.exec config (.start config environment heap) = .error failure s) :
    p.runFrom config environment heap = .failed failure s.history := by
  rw [runFrom, h]

/-- Run a program without any variables before it. -/
def run (config : Config) (p : Program) : Outcome := p.runFrom config .empty .empty

end Program

end ScriptTrace

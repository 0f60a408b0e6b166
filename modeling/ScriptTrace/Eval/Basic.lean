import ScriptTrace.Eval.Environment
import ScriptTrace.Failure
import ScriptTrace.Trace.History

/-!
# Runs in progress

A run changes three things: the variables, the arrays and the history. `Eval` is the kind of
computation that expressions and statements are: it may change all three, and it may fail. After a
failure the state is the one that the failure left.
-/

namespace ScriptTrace

/-- The settings of a run. -/
structure Config where
  /-- How often the body of a loop may run each time the loop is started. -/
  iterationCap : Nat
  /-- Which events the history keeps. -/
  policy : Policy
  /-- Whether the swap idiom is recorded as an exchange. -/
  swapDetection : Bool
deriving DecidableEq

/-- The settings without any options. -/
def Config.standard : Config := ⟨1000, .keepAll, true⟩

/-- What a run works on. -/
structure State where
  environment : Environment
  heap : Heap
  history : History

/-- The start of a run from given variables and arrays. -/
def State.start (config : Config) (environment : Environment) (heap : Heap) : State :=
  ⟨environment, heap, .empty config.policy⟩

/-- A computation on the state of a run, which may fail. -/
abbrev Eval := EStateM Failure State

namespace Eval

/-- Fail at an unknown place. -/
def fail {α : Type} (cause : Cause) : Eval α := throw (.ofCause cause)

/-- The value of a pure computation, or its failure. -/
def ofExcept {α : Type} : Except Cause α → Eval α
  | .ok a => pure a
  | .error cause => fail cause

/-- A computation at a node: its failures get the node as their place, unless they have one. -/
def atNode {α : Type} (nodeType : String) (line : Option UInt32) (m : Eval α) : Eval α := fun s ↦
  match m s with
  | .ok a s' => .ok a s'
  | .error failure s' => .error (failure.atNode nodeType line) s'

/-- The arrays of the run. -/
def heap : Eval Heap := return (← get).heap

/-- The value that a name is bound to, if it is bound. -/
def lookup? (name : String) : Eval (Option Value) := return (← get).environment.get? name

/-- Bind a name. -/
def define (name : String) (v : Value) : Eval Unit :=
  modify fun s ↦ { s with environment := s.environment.define name v }

/-- Put a value into a slot of an array. -/
def write (array : ArrayId) (slot : Nat) (v : Value) : Eval Unit :=
  modify fun s ↦ { s with heap := s.heap.write array slot v }

/-- Make a new array. -/
def allocate (elements : Array Value) : Eval ArrayId :=
  modifyGet fun s ↦ (s.heap.nextId, { s with heap := s.heap.allocate elements })

/-- Record an event. -/
def record (line : Option UInt32) (details : Details) : Eval Unit :=
  modify fun s ↦ { s with history := s.history.record ⟨line, details⟩ }

end Eval

end ScriptTrace

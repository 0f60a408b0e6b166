import ScriptTrace.Value.Snapshot

/-!
# Events

What a run records of a change: the line on which it happened and the details of its kind. Values
in the details are copies.
-/

namespace ScriptTrace

/-- Why a loop stopped. -/
inductive LoopEnd where
  /-- Its test failed. -/
  | condition
  /-- Its body ran as often as the cap allows. -/
  | iterationCap
deriving DecidableEq

/-- The details of an event. -/
inductive Details where
  | declare (name : String) (value : Snapshot)
  | loopUpdate (name : String) (value : Snapshot)
  | loopEnd (reason : LoopEnd) (iterations : Nat)
  | ifTest (result : Bool)
  /-- One half of an exchange, and the array after it. -/
  | swap (array : String) (first second : Nat) (state : List Snapshot)
  | assign (name : String) (value : Snapshot)
  /-- A write to a slot, and the array after it. -/
  | assignElement (array : String) (slot : Nat) (value : Snapshot) (state : List Snapshot)

/-- One event of a run. -/
structure Event where
  line : Option UInt32
  details : Details

namespace LoopEnd

/-- The word for the reason. -/
def symbol : LoopEnd → String
  | condition => "condition"
  | iterationCap => "iteration-cap"

end LoopEnd

namespace Details

/-- The word for the kind of an event. Both kinds of assignment share one. -/
def action : Details → String
  | declare .. => "declare-variable"
  | loopUpdate .. => "loop-update"
  | loopEnd .. => "loop-end"
  | ifTest .. => "if-test"
  | swap .. => "swap"
  | assign .. | assignElement .. => "assign"

/-- Whether two details are equal, numbers compared as numbers. -/
def same : Details → Details → Bool
  | declare name value, declare name' value' => name == name' && value.same value'
  | loopUpdate name value, loopUpdate name' value' => name == name' && value.same value'
  | loopEnd reason iterations, loopEnd reason' iterations' =>
    reason == reason' && iterations == iterations'
  | ifTest result, ifTest result' => result == result'
  | swap array first second state, swap array' first' second' state' =>
    array == array' && first == first' && second == second' && Snapshot.sameAll state state'
  | assign name value, assign name' value' => name == name' && value.same value'
  | assignElement array slot value state, assignElement array' slot' value' state' =>
    array == array' && slot == slot' && value.same value' && Snapshot.sameAll state state'
  | _, _ => false

/-- The details as JSON. -/
def toJson : Details → Json
  | declare name value => .object [("variableName", .string name), ("initialValue", value.toJson)]
  | loopUpdate name value => .object [("variableName", .string name), ("newValue", value.toJson)]
  | loopEnd reason iterations =>
    .object [("reason", .string reason.symbol), ("iterations", .ofNat iterations)]
  | ifTest result => .object [("testResult", .bool result)]
  | swap array first second state =>
    .object [("arrayName", .string array), ("index1", .ofNat first), ("index2", .ofNat second),
      ("arrayStateAfter", .array (Snapshot.toJsonAll state))]
  | assign name value => .object [("variableName", .string name), ("value", value.toJson)]
  | assignElement array slot value state =>
    .object [("arrayName", .string array), ("index", .ofNat slot), ("value", value.toJson),
      ("arrayState", .array (Snapshot.toJsonAll state))]

end Details

namespace Json

/-- A line as JSON. -/
def ofLine : Option UInt32 → Json := ofOption fun line ↦ ofNat line.toNat

end Json

namespace Event

/-- Whether two events are equal, numbers compared as numbers. -/
def same (e e' : Event) : Bool := e.line == e'.line && e.details.same e'.details

/-- An event as JSON. -/
def toJson (e : Event) : Json :=
  .object [("line", .ofLine e.line), ("action", .string e.details.action),
    ("details", e.details.toJson)]

end Event

end ScriptTrace

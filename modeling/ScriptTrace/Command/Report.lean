import ScriptTrace.Command.Arguments
import ScriptTrace.Eval.Run

/-!
# Reports of traces

The document that is printed for one input: the history and the final variables of its run, or
what went wrong, with the history up to there if that is asked for.
-/

namespace ScriptTrace

/-- The report on one input. -/
inductive Report where
  | traced (file : String) (history : History) (bindings : List (String × Snapshot))
  | failed (file message : String) (nodeType : Option String) (line : Option UInt32)
      (history : Option History)

namespace Report

/-- The name of the input. -/
def file : Report → String
  | traced file .. | failed file .. => file

/-- Whether the run succeeded. -/
def isSuccess : Report → Bool
  | traced .. => true
  | failed .. => false

/-- The report on an input that could not be run. -/
def ofError (file : String) (e : CommandError) : Report := failed file e.message none none none

/-- The report on a run. -/
def ofOutcome (file : String) (options : Options) : Outcome → Report
  | .finished history bindings => traced file history bindings
  | .failed failure history =>
    failed file failure.message failure.nodeType failure.line
      (if options.keepPartial then some history else none)

/-- Trace the program that a text spells. -/
def ofText (path text : String) (options : Options) : Report :=
  let file := Input.displayName path
  match Input.decode file text with
  | .ok p => ofOutcome file options (p.run options.config)
  | .error e => ofError file e

/-- Trace one input. -/
def ofContent (path : String) (content : Content) (options : Options) : Report :=
  match content.toText (Input.displayName path) with
  | .ok text => ofText path text options
  | .error e => ofError (Input.displayName path) e

/-- The copies of variables as JSON. -/
def bindingsJson (bindings : List (String × Snapshot)) : Json :=
  .object (bindings.map fun (name, value) ↦ (name, value.toJson))

/-- A report as JSON. -/
def toJson : Report → Json
  | traced file history bindings =>
    .object [("file", .string file), ("history", history.toJson),
      ("variables", bindingsJson bindings)]
  | failed file message nodeType line history =>
    let error : Json := .object [("message", .string message),
      ("failingNodeType", .ofOption .string nodeType), ("line", .ofLine line)]
    .object ([("file", .string file), ("error", error)] ++
      (history.map fun h ↦ ("history", h.toJson)).toList)

end Report

end ScriptTrace

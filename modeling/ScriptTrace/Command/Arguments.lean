import ScriptTrace.Command.Input
import ScriptTrace.Eval.Basic

/-!
# Arguments of a trace

Options and inputs may come in any order. An option that is given twice counts as given last, and
the first argument that is neither an option nor an input is the error.
-/

namespace ScriptTrace

/-- What a trace is asked for besides its inputs. -/
structure Options where
  config : Config
  /-- Whether a failed run shows the history up to its failure. -/
  keepPartial : Bool
  /-- Whether reports are spread over indented lines. -/
  pretty : Bool
deriving DecidableEq

/-- The options without any argument. -/
def Options.standard : Options := ⟨.standard, false, false⟩

/-- The arguments of a trace. -/
structure Arguments where
  inputs : List String
  options : Options
deriving DecidableEq

namespace Arguments

/-- The option that sets the iteration cap. -/
def capFlag : String := "--max-iterations"

/-- The rest of a text after another with which it starts. -/
def after? (start text : String) : Option String :=
  if start.toList.isPrefixOf text.toList then
    some (.ofList (text.toList.drop start.toList.length))
  else
    none

/-- The natural number that digits spell. -/
def digitsValue? (digits : List Char) : Option Nat :=
  if digits.isEmpty then none
  else if digits.all Char.isDigit then
    some (digits.foldl (fun n c ↦ n * 10 + (c.toNat - '0'.toNat)) 0)
  else none

/-- The iteration cap that a text spells: digits after an optional plus sign, for a number of 32
bits. -/
def cap? (text : String) : Option Nat := do
  let n ← digitsValue? <|
    match text.toList with
    | '+' :: digits => digits
    | digits => digits
  guard (n < UInt32.size)
  return n

/-- Whether an argument is an input: `-`, or anything that does not start with a minus sign. -/
def isInput (argument : String) : Bool :=
  argument == Input.stdin || argument.toList.head? != some '-'

/-- Add one argument. -/
def add (a : Arguments) (argument : String) : Except CommandError Arguments :=
  let set (change : Options → Options) : Except CommandError Arguments :=
    .ok { a with options := change a.options }
  match after? (capFlag ++ "=") argument with
  | some value =>
    match cap? value with
    | some cap => set fun o ↦ { o with config := { o.config with iterationCap := cap } }
    | none => .error (.invalidFlag capFlag value)
  | none =>
    match argument with
    | "--dedup" => set fun o ↦ { o with config := { o.config with policy := .skipRepeats } }
    | "--no-swap-detection" =>
      set fun o ↦ { o with config := { o.config with swapDetection := false } }
    | "--keep-partial" => set fun o ↦ { o with keepPartial := true }
    | "--pretty" => set fun o ↦ { o with pretty := true }
    | _ =>
      if isInput argument then .ok { a with inputs := a.inputs ++ [argument] }
      else .error (.unknownOption argument)

/-- The arguments that a list of words spells. There has to be an input. -/
def parse (words : List String) : Except CommandError Arguments := do
  let a ← words.foldlM add ⟨[], .standard⟩
  if a.inputs.isEmpty then throw .missingInput
  return a

end Arguments

end ScriptTrace

import ScriptTrace.Syntax.Read

/-!
# Inputs of a command

A command names its inputs; `-` is the standard input. What reading an input gives is a `Content`.
Whatever keeps an input from being traced or checked is a `CommandError`, and so is a fault of the
arguments.
-/

namespace ScriptTrace

/-- What keeps a command, or its work on one input, from being done. -/
inductive CommandError where
  | notFound (path : String)
  | permissionDenied (path : String)
  | invalidUtf8 (path : String)
  | unreadable (path reason : String)
  | decode (path : String) (fault : Json.Fault)
  | invalidFlag (flag value : String)
  | unknownOption (option : String)
  | missingInput

/-- The wording of an error. -/
def CommandError.message : CommandError → String
  | notFound path => "cannot find file '" ++ path ++ "'"
  | permissionDenied path => "permission denied reading '" ++ path ++ "'"
  | invalidUtf8 path => "'" ++ path ++ "' contains invalid UTF-8 data"
  | unreadable path reason => "error reading '" ++ path ++ "': " ++ reason
  | decode path fault => "'" ++ path ++ "' is not a valid ESTree program: " ++ fault.message
  | invalidFlag flag value => "invalid value for " ++ flag ++ ": '" ++ value ++ "'"
  | unknownOption option => "unknown option '" ++ option ++ "'"
  | missingInput => "missing input file"

/-- What reading an input gives. -/
inductive Content where
  | bytes (data : ByteArray)
  | missing
  | denied
  | broken (reason : String)

namespace Content

/-- The content that a text is. -/
def ofText (text : String) : Content := bytes text.toUTF8

/-- The text of an input that is shown under a name. -/
def toText (name : String) : Content → Except CommandError String
  | bytes data =>
    match String.fromUTF8? data with
    | some text => .ok text
    | none => .error (.invalidUtf8 name)
  | missing => .error (.notFound name)
  | denied => .error (.permissionDenied name)
  | broken reason => .error (.unreadable name reason)

end Content

namespace Input

/-- The path that stands for the standard input. -/
def stdin : String := "-"

/-- The name under which an input is shown. -/
def displayName (path : String) : String := if path = stdin then "<stdin>" else path

/-- The program that a text spells, the text of an input that is shown under a name. -/
def decode (name text : String) : Except CommandError Program :=
  match Program.ofText text with
  | .ok p => .ok p
  | .error fault => .error (.decode name fault)

end Input

end ScriptTrace

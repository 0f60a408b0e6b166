import ScriptTrace.Command.Line

/-!
# The program

Reads the inputs that the command needs, prints its output and ends with its code.
-/

namespace ScriptTrace

/-- All bytes up to the end of a stream. -/
partial def readToEnd (stream : IO.FS.Stream) (done : ByteArray) : IO ByteArray := do
  let chunk ← stream.read 65536
  if chunk.isEmpty then return done else readToEnd stream (done ++ chunk)

/-- The content of an input. -/
def readInput (path : String) : IO Content := do
  try
    if path = Input.stdin then
      return .bytes (← readToEnd (← IO.getStdin) .empty)
    else
      return .bytes (← IO.FS.readBinFile path)
  catch
    | .noFileOrDirectory .. => return .missing
    | .permissionDenied .. => return .denied
    | e => return .broken (toString e)

end ScriptTrace

/-- Run the command that the arguments ask for. -/
def main (arguments : List String) : IO UInt32 := do
  let command := ScriptTrace.Command.parse arguments
  let contents ← command.inputs.mapM ScriptTrace.readInput
  let output := command.output contents
  IO.print output.stdout
  IO.eprint output.stderr
  return output.code

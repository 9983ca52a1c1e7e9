import Wff.Check.Run

/-!
# Wff.Main — the command line program

Reads the arguments and, if they hold no expression, standard input; all else is decided by
`Wff.Check.Request.run`.
-/

namespace Wff.Check

partial def readAll (stream : IO.FS.Stream) (bytes : ByteArray) : IO ByteArray := do
  let more ← stream.read 65536
  if more.isEmpty then return bytes else readAll stream (bytes ++ more)

/-- Carry out a request, reading standard input if the request does. -/
def perform (request : Request) : IO UInt32 := do
  let input ← if request.readsInput then readAll (← IO.getStdin) .empty else pure .empty
  let outcome := request.run input.toList
  (← IO.getStdout).putStr (String.ofList outcome.output)
  (← IO.getStderr).putStr (String.ofList outcome.errors)
  return UInt32.ofNat outcome.code

end Wff.Check

/-- Check the expressions given as arguments or on standard input. -/
def main (arguments : List String) : IO UInt32 :=
  Wff.Check.perform (.ofArguments (arguments.map String.toList))

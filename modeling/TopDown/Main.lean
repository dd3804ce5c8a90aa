import TopDown.CommandLine.Program

/-!
# The command line

Reads the arguments, the environment and the input, and prints what the program leaves.
-/

open TopDown.CommandLine

/-- The text of a file or of the standard input, or the reason why there is none. -/
def readInput (path : Option String) : IO (Except String String) := do
  try
    let bytes ←
      match path with
      | some path => IO.FS.readBinFile path
      | none => (← IO.getStdin).readBinToEnd
    match String.fromUTF8? bytes with
    | some text => return .ok text
    | none => return .error "stream did not contain valid UTF-8"
  catch e => return .error (reason e)
where
  /-- The reason in words. -/
  reason : IO.Error → String
    | .noFileOrDirectory .. => "No such file or directory (os error 2)"
    | .permissionDenied .. => "Permission denied (os error 13)"
    | e => toString e

def main (arguments : List String) : IO UInt32 := do
  let result ←
    match plan "descent" (← IO.getEnv "DESCENT_LOG") arguments with
    | .done result => pure result
    | .read path next => next <$> readInput path
  IO.eprint result.errors
  IO.print result.output
  return UInt32.ofNat result.status

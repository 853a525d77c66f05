import ScriptMachine.Host.CommandLine

/-!
# The program

Reads the file that the command names and puts out the report.
-/

set_option autoImplicit false

open ScriptMachine

/-- The reason why a file cannot be read, in the words of the system. -/
def readFailure : IO.Error → String
  | .noFileOrDirectory _ code _ => "No such file or directory (os error " ++ toString code ++ ")"
  | .permissionDenied _ code _ => "Permission denied (os error " ++ toString code ++ ")"
  | .inappropriateType _ code _ => "Is a directory (os error " ++ toString code ++ ")"
  | e => toString e

def contentsOf (path : String) : IO (Except String String) := do
  try
    let bytes ← IO.FS.readBinFile path
    match String.fromUTF8? bytes with
    | some text => return .ok text
    | none => return .error "stream did not contain valid UTF-8"
  catch e => return .error (readFailure e)

def main (args : List String) : IO UInt32 := do
  let report ← match (CommandLine.read args).report? with
    | .inl command => do pure (command.execute (← contentsOf command.file))
    | .inr report => pure report
  IO.print report.stdout
  IO.eprint report.stderr
  return UInt32.ofNat report.status

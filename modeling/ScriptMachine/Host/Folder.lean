import ScriptMachine.Host.CommandLine

/-!
# Folders of texts

A working directory given as a list of named texts, and the program's run in it.
Nothing else is read, so the report is a function of the folder and the arguments.
-/

set_option autoImplicit false

namespace ScriptMachine

structure Folder where
  /-- Names, with slashes where a folder holds folders, and contents. -/
  files : List (String × String) := []
  deriving DecidableEq, Repr

namespace Folder

/-- The parts of a path that name something. -/
def pathParts (path : String) : List String :=
  (path.splitOn "/").filter fun (p : String) => p ≠ "" && p ≠ "."

/-- Does the path ask for a folder? -/
def asksForFolder (path : String) : Bool := path.endsWith "/" || path.endsWith "/."

/-- The text at a path, or the reason why there is none. -/
def read (f : Folder) (path : String) : Except String String :=
  let parts := pathParts path
  match f.files.lookup (String.intercalate "/" parts) with
  | some text => if asksForFolder path then .error "Not a directory (os error 20)" else .ok text
  | none =>
    match parts with
    | [] => .error "Is a directory (os error 21)"
    | first :: _ =>
      if (f.files.lookup first).isSome then .error "Not a directory (os error 20)"
      else .error "No such file or directory (os error 2)"

/-- The program's run in a folder. -/
def run (f : Folder) (args : List String) : CommandLine.Report :=
  match (CommandLine.read args).report? with
  | .inl command => command.execute (f.read command.file)
  | .inr report => report

end Folder

end ScriptMachine

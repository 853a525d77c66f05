import ScriptMachine.Json.Basic

/-!
# Writing JSON

One item a line, two blanks a level; empty containers stay closed.
-/

set_option autoImplicit false

namespace ScriptMachine.Json

def newline (depth : Nat) : String :=
  "\n" ++ String.ofList (List.replicate (2 * depth) ' ')

/-- The items of a container, each on its own line. -/
def block (opening closing : String) (depth : Nat) : List String → String
  | [] => opening ++ closing
  | items =>
    opening ++ newline (depth + 1) ++
      String.intercalate ("," ++ newline (depth + 1)) items ++ newline depth ++ closing

def quoted (s : Option String) : String := Quoting.stored (s.getD "")

mutual

def render (depth : Nat) : Json → String
  | .null => "null"
  | .bool b => if b then "true" else "false"
  | .number lexeme => lexeme
  | .string s => quoted s
  | .array items => block "[" "]" depth (renderItems (depth + 1) items)
  | .object entries => block "\x7b" "\x7d" depth (renderEntries (depth + 1) entries)

def renderItems (depth : Nat) : List Json → List String
  | [] => []
  | j :: rest => render depth j :: renderItems depth rest

def renderEntries (depth : Nat) : List (Option String × Json) → List String
  | [] => []
  | (k, j) :: rest => (quoted k ++ ": " ++ render depth j) :: renderEntries depth rest

end

/-- The text of a tree. -/
def text (j : Json) : String := render 0 j

end ScriptMachine.Json

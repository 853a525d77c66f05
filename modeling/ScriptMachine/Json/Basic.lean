import ScriptMachine.Quoting.Quoted

/-!
# JSON trees

Numbers keep their spelling, since its meaning depends on who asks for it. A
string whose escapes name an unpaired surrogate denotes no text: it may be
passed over, but not used.
-/

set_option autoImplicit false

namespace ScriptMachine

inductive Json where
  | null
  | bool (b : Bool)
  | number (lexeme : String)
  | string (s : Option String)
  | array (items : List Json)
  | object (entries : List (Option String × Json))

end ScriptMachine

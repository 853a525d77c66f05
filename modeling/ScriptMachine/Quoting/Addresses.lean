/-!
# Hidden addresses

An address in a text differs from run to run. Texts that are to be compared show
a question mark in place of its digits.
-/

set_option autoImplicit false

namespace ScriptMachine.Quoting

def isHexDigit (c : Char) : Bool :=
  c.isDigit || ('a' ≤ c && c ≤ 'f') || ('A' ≤ c && c ≤ 'F')

/-- The characters with addresses hidden; `inside` while digits of one are left out. -/
def hideWithin (inside : Bool) : List Char → List Char
  | [] => []
  | '0' :: 'x' :: d :: rest =>
    if inside then hideWithin true ('x' :: d :: rest)
    else if isHexDigit d then '0' :: 'x' :: '?' :: hideWithin true (d :: rest)
    else '0' :: hideWithin false ('x' :: d :: rest)
  | c :: rest => if inside && isHexDigit c then hideWithin true rest else c :: hideWithin false rest

def hideAddresses (s : String) : String := String.ofList (hideWithin false s.toList)

end ScriptMachine.Quoting

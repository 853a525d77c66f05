import ScriptMachine.Quoting.Invisible

/-!
# Quoted text

Text in double quotes, once for diagnostics and listings and once for stored
functions. The first escapes whatever has no glyph of its own, the second only
what its format forbids.
-/

set_option autoImplicit false

namespace ScriptMachine.Quoting

def hexText (n : Nat) : String := String.ofList (Nat.toDigits 16 n)

/-- Lower-case hexadecimal on at least `width` digits. -/
def hexPadded (width n : Nat) : String :=
  let ds := Nat.toDigits 16 n
  String.ofList (List.replicate (width - ds.length) '0' ++ ds)

def detailedChar (c : Char) : String :=
  if c = '"' then "\\\""
  else if c = '\\' then "\\\\"
  else if c = '\n' then "\\n"
  else if c = '\r' then "\\r"
  else if c = '\t' then "\\t"
  else if c = '\x00' then "\\0"
  else if isInvisible c then "\\u\x7b" ++ hexText c.toNat ++ "\x7d"
  else c.toString

/-- The text of a string in diagnostics and listings. -/
def detailed (s : String) : String :=
  "\"" ++ String.join (s.toList.map detailedChar) ++ "\""

def storedChar (c : Char) : String :=
  if c = '"' then "\\\""
  else if c = '\\' then "\\\\"
  else if c = '\x08' then "\\b"
  else if c = '\x0c' then "\\f"
  else if c = '\n' then "\\n"
  else if c = '\r' then "\\r"
  else if c = '\t' then "\\t"
  else if c.toNat < 0x20 then "\\u" ++ hexPadded 4 c.toNat
  else c.toString

/-- The text of a string in a stored function. -/
def stored (s : String) : String :=
  "\"" ++ String.join (s.toList.map storedChar) ++ "\""

end ScriptMachine.Quoting

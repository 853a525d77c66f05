import ScriptMachine.Json.Basic

/-!
# Reading JSON

The plain grammar: no comments, no trailing commas, no leading zeros. Each
reader takes characters from the front and returns the rest.
-/

set_option autoImplicit false

namespace ScriptMachine.Json

def isBlank (c : Char) : Bool := c = ' ' || c = '\n' || c = '\t' || c = '\r'

def skip (cs : List Char) : List Char := cs.dropWhile isBlank

def hexDigit? (c : Char) : Option Nat :=
  if '0' ≤ c ∧ c ≤ '9' then some (c.toNat - '0'.toNat)
  else if 'a' ≤ c ∧ c ≤ 'f' then some (c.toNat - 'a'.toNat + 10)
  else if 'A' ≤ c ∧ c ≤ 'F' then some (c.toNat - 'A'.toNat + 10)
  else none

/-- The code unit named by four hexadecimal digits. -/
def unit? : List Char → Option (Nat × List Char)
  | a :: b :: c :: d :: rest => do
    let a ← hexDigit? a
    let b ← hexDigit? b
    let c ← hexDigit? c
    let d ← hexDigit? d
    return (((a * 16 + b) * 16 + c) * 16 + d, rest)
  | _ => none

/-- The parts of a string: characters, and code units of escapes that need a
neighbour. -/
inductive Piece where
  | char (c : Char)
  | unit (n : Nat)
  deriving DecidableEq, Repr

def Piece.ofUnit (n : Nat) : Piece :=
  if 0xD800 ≤ n ∧ n ≤ 0xDFFF then .unit n else .char (Char.ofNat n)

/-- Joins pairs of surrogates; an unpaired one denotes no text. -/
def joinPieces : List Piece → Option (List Char)
  | [] => some []
  | .char c :: rest => (joinPieces rest).map (c :: ·)
  | .unit hi :: .unit lo :: rest =>
    if hi < 0xDC00 ∧ 0xDC00 ≤ lo then
      (joinPieces rest).map (Char.ofNat (0x10000 + (hi - 0xD800) * 0x400 + (lo - 0xDC00)) :: ·)
    else none
  | .unit _ :: _ => none

def simpleEscape? : Char → Option Char
  | '"' => some '"'
  | '\\' => some '\\'
  | '/' => some '/'
  | 'b' => some '\x08'
  | 'f' => some '\x0c'
  | 'n' => some '\n'
  | 'r' => some '\r'
  | 't' => some '\t'
  | _ => none

/-- The pieces up to the closing quote; controls must be escaped. -/
def pieces? : Nat → List Char → Option (List Piece × List Char)
  | 0, _ => none
  | _, [] => none
  | fuel + 1, c :: rest =>
    if c = '"' then some ([], rest)
    else if c = '\\' then
      match rest with
      | 'u' :: more => do
        let (n, more) ← unit? more
        let (ps, more) ← pieces? fuel more
        return (Piece.ofUnit n :: ps, more)
      | e :: more => do
        let c ← simpleEscape? e
        let (ps, more) ← pieces? fuel more
        return (.char c :: ps, more)
      | [] => none
    else if c.toNat < 0x20 then none
    else do
      let (ps, more) ← pieces? fuel rest
      return (.char c :: ps, more)

/-- A string after its opening quote. -/
def string? (cs : List Char) : Option (Option String × List Char) :=
  (pieces? (cs.length + 1) cs).map fun (ps, rest) => ((joinPieces ps).map String.ofList, rest)

/-- At least one digit. -/
def digits? (cs : List Char) : Option (List Char × List Char) :=
  match cs.takeWhile Char.isDigit with
  | [] => none
  | ds => some (ds, cs.dropWhile Char.isDigit)

/-- An integer part has no leading zero. -/
def wholePart? (cs : List Char) : Option (List Char × List Char) := do
  let (ds, rest) ← digits? cs
  if ds.head? = some '0' ∧ ds.length ≠ 1 then none else return (ds, rest)

def fraction? : List Char → Option (List Char × List Char)
  | '.' :: cs => (digits? cs).map fun (ds, rest) => ('.' :: ds, rest)
  | cs => some ([], cs)

def exponent? : List Char → Option (List Char × List Char)
  | [] => some ([], [])
  | e :: cs =>
    if e = 'e' ∨ e = 'E' then
      match cs with
      | s :: more =>
        if s = '+' ∨ s = '-' then (digits? more).map fun (ds, rest) => (e :: s :: ds, rest)
        else (digits? cs).map fun (ds, rest) => (e :: ds, rest)
      | [] => none
    else some ([], e :: cs)

/-- The spelling of a number. -/
def number? (cs : List Char) : Option (String × List Char) := do
  let (sign, cs) := match cs with
    | '-' :: rest => (['-'], rest)
    | _ => ([], cs)
  let (whole, cs) ← wholePart? cs
  let (fraction, cs) ← fraction? cs
  let (exponent, cs) ← exponent? cs
  return (String.ofList (sign ++ whole ++ fraction ++ exponent), cs)

mutual

def value? : Nat → List Char → Option (Json × List Char)
  | 0, _ => none
  | fuel + 1, cs =>
    match skip cs with
    | 'n' :: 'u' :: 'l' :: 'l' :: rest => some (.null, rest)
    | 't' :: 'r' :: 'u' :: 'e' :: rest => some (.bool true, rest)
    | 'f' :: 'a' :: 'l' :: 's' :: 'e' :: rest => some (.bool false, rest)
    | '"' :: rest => (string? rest).map fun (s, more) => (.string s, more)
    | '[' :: rest =>
      match skip rest with
      | ']' :: more => some (.array [], more)
      | more => (items? fuel more).map fun (js, more) => (.array js, more)
    | '\x7b' :: rest =>
      match skip rest with
      | '\x7d' :: more => some (.object [], more)
      | more => (entries? fuel more).map fun (es, more) => (.object es, more)
    | rest => (number? rest).map fun (n, more) => (.number n, more)

/-- One or more values up to the closing bracket. -/
def items? : Nat → List Char → Option (List Json × List Char)
  | 0, _ => none
  | fuel + 1, cs => do
    let (j, rest) ← value? fuel cs
    match skip rest with
    | ',' :: more =>
      let (js, more) ← items? fuel more
      return (j :: js, more)
    | ']' :: more => return ([j], more)
    | _ => none

/-- One or more entries up to the closing brace. -/
def entries? : Nat → List Char → Option (List (Option String × Json) × List Char)
  | 0, _ => none
  | fuel + 1, cs =>
    match skip cs with
    | '"' :: rest => do
      let (k, rest) ← string? rest
      match skip rest with
      | ':' :: rest =>
        let (j, rest) ← value? fuel rest
        match skip rest with
        | ',' :: more =>
          let (es, more) ← entries? fuel more
          return ((k, j) :: es, more)
        | '\x7d' :: more => return ([(k, j)], more)
        | _ => none
      | _ => none
    | _ => none

end

/-- The tree of a whole text; every reader consumes a character for each unit
of its bound, so the bound never cuts a text short. -/
def parse? (s : String) : Option Json :=
  let cs := s.toList
  match value? (2 * cs.length + 2) cs with
  | some (j, rest) => if (skip rest).isEmpty then some j else none
  | none => none

end ScriptMachine.Json

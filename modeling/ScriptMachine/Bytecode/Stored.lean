import ScriptMachine.Bytecode.Prototype
import ScriptMachine.Json.Number
import ScriptMachine.Json.Reading
import ScriptMachine.Json.Writing

/-!
# Stored functions

The JSON form of a prototype. Writing has one spelling. Reading accepts more:
records in any field order, with unknown fields, or as arrays of all their
fields; integers where a float is wanted; and a missing codomain. It enters at
most 127 containers inside each other.
-/

set_option autoImplicit false

namespace ScriptMachine.Stored

/-! ## Writing -/

def intJson (n : Int64) : Json := .number (Decimal.integer n)

def natJson (n : Nat) : Json := .number (Decimal.digitText n)

/-- There is no spelling for infinities and NaN. -/
def floatJson (x : Float) : Json :=
  if Decimal.isFinite x then .number (Decimal.stored.render x) else .null

def text (s : String) : Json := .string (some s)

def entry (name : String) (j : Json) : Option String × Json := (some name, j)

def record (entries : List (String × Json)) : Json :=
  .object (entries.map fun (e : String × Json) => (some e.1, e.2))

def spaceJson : Space → Json
  | .simple d n c =>
    record [("domain", text d), ("dimension", intJson n), ("sign", text c.toString), ("child", .null)]
  | .into d n c s =>
    record [("domain", text d), ("dimension", intJson n), ("sign", text c.toString),
      ("child", spaceJson s)]

def literalJson : Literal → Json
  | .null => text "Null"
  | .integer n => record [("Integer", intJson n)]
  | .float x => record [("Float", floatJson x)]
  | .complex re im => record [("Complex", record [("re", floatJson re), ("im", floatJson im)])]
  | .bool b => record [("Bool", .bool b)]
  | .string s => record [("String", text s)]
  | .space s => record [("Space", spaceJson s)]

def instructionJson (i : Instruction) : Json :=
  record [("opcode", text i.opcode.name), ("arg0", intJson i.arg0), ("arg1", intJson i.arg1),
    ("arg2", intJson i.arg2), ("arg3", intJson i.arg3)]

def kindJson : CaptureKind → Json
  | .register => text "Local"
  | .outer => text "Outer"

def captureJson (c : Capture) : Json :=
  record [("name", text c.name), ("kind", kindJson c.kind), ("index", natJson c.index)]

def localJson (l : LocalInfo) : Json :=
  record [("name", text l.name), ("pos", natJson l.pos), ("start_op", natJson l.startOp),
    ("end_op", natJson l.endOp)]

def lineJson (l : LineInfo) : Json :=
  record [("line", natJson l.line), ("op", natJson l.op)]

mutual

def prototypeJson : Prototype → Json
  | { name, source, code, literals, parameters, functions, outers, defaults, locals, lines,
      stackSize, varargs } =>
    record [
      ("name", text name),
      ("source_name", text source),
      ("instructions", .array (code.toList.map instructionJson)),
      ("literals", .array (literals.toList.map literalJson)),
      ("parameters", .array (parameters.map text)),
      ("functions", .array (prototypesJson functions)),
      ("outers", .array (outers.map captureJson)),
      ("default_params", .array (defaults.map intJson)),
      ("locals", .array (locals.map localJson)),
      ("line_info", .array (lines.toList.map lineJson)),
      ("stack_size", natJson stackSize),
      ("varargs", .bool varargs)]

def prototypesJson : List Prototype → List Json
  | [] => []
  | p :: rest => prototypeJson p :: prototypesJson rest

end

/-! ## Reading -/

/-- Entering a container takes one of the levels left; the last may not be taken. -/
def enter (depth : Nat) : Option Nat := if depth ≤ 1 then none else some (depth - 1)

def string? : Json → Option String
  | .string s => s
  | _ => none

def bool? : Json → Option Bool
  | .bool b => some b
  | _ => none

def char? (j : Json) : Option Char := do
  match (← string? j).toList with
  | [c] => some c
  | _ => none

/-- A natural number below the bound. -/
def nat? (bound : Nat) : Json → Option Nat
  | .number t =>
    match Json.Number.ofLexeme? t with
    | some (.natural n) => if n < bound then some n else none
    | _ => none
  | _ => none

def size? : Json → Option Nat := nat? (Nat.pow 2 64)

def int? : Json → Option Int64
  | .number t =>
    match Json.Number.ofLexeme? t with
    | some (.natural n) => if n < Nat.pow 2 63 then some (Int64.ofNat n) else none
    | some (.negative n) => some (Int64.ofInt (-(n : Int)))
    | _ => none
  | _ => none

def float? : Json → Option Float
  | .number t =>
    match Json.Number.ofLexeme? t with
    | some (.natural n) => some (UInt64.ofNat n).toFloat
    | some (.negative n) => some (-(UInt64.ofNat n).toFloat)
    | some (.float x) => some x
    | none => none
  | _ => none

/-- The values of an entry list under one name. -/
def valuesOf (name : String) (entries : List (Option String × Json)) : List Json :=
  (entries.filter fun (e : Option String × Json) => e.1 == some name).map (·.2)

/-- A field that occurs at most once. -/
def field? (name : String) (entries : List (Option String × Json)) : Option (Option Json) :=
  match valuesOf name entries with
  | [] => some none
  | [j] => some (some j)
  | _ => none

/-- The fields of a record in order, from either of its two forms. An absent
field is `none`; the array form has no absent fields. Every key must be text,
also that of a field that is passed over. -/
def fields? (names : List String) : Json → Option (List (Option Json))
  | .object entries =>
    if entries.all fun (e : Option String × Json) => e.1.isSome then
      names.mapM fun (n : String) => field? n entries
    else none
  | .array items => if items.length = names.length then some (items.map some) else none
  | _ => none

/-- A choice without content: its name, or its name with null. -/
def unitChoice? (depth : Nat) : Json → Option String
  | .string s => s
  | .object [(some k, .null)] => (enter depth).map fun _ => k
  | _ => none

def list? {α : Type} (item : Json → Option α) : Json → Option (List α)
  | .array items => items.mapM item
  | _ => none

/-- A space; `fuel` bounds the chain of codomains, which the depth also does. -/
def space? : Nat → Nat → Json → Option Space
  | 0, _, _ => none
  | fuel + 1, depth, j => do
    let depth ← enter depth
    match ← fields? ["domain", "dimension", "sign", "child"] j with
    | [some d, some n, some c, s] =>
      let d ← string? d
      let n ← int? n
      let c ← char? c
      match s with
      | none | some .null => return .simple d n c
      | some s => return .into d n c (← space? fuel depth s)
    | _ => none

def complexParts? (depth : Nat) (j : Json) : Option (Float × Float) := do
  let _ ← enter depth
  match ← fields? ["re", "im"] j with
  | [some re, some im] => return (← float? re, ← float? im)
  | _ => none

def literal? (depth : Nat) : Json → Option Literal
  | .string s => if s == some "Null" then some .null else none
  | .object [(some k, j)] => do
    let depth ← enter depth
    match k with
    | "Null" => match j with
      | .null => return .null
      | _ => none
    | "Integer" => return .integer (← int? j)
    | "Float" => return .float (← float? j)
    | "Complex" =>
      let (re, im) ← complexParts? depth j
      return .complex re im
    | "Bool" => return .bool (← bool? j)
    | "String" => return .string (← string? j)
    | "Space" => return .space (← space? depth depth j)
    | _ => none
  | _ => none

def instruction? (depth : Nat) (j : Json) : Option Instruction := do
  let depth ← enter depth
  match ← fields? ["opcode", "arg0", "arg1", "arg2", "arg3"] j with
  | [some op, some a, some b, some c, some d] =>
    let op ← Opcode.ofName? (← unitChoice? depth op)
    return ⟨op, ← int? a, ← int? b, ← int? c, ← int? d⟩
  | _ => none

def kind? (depth : Nat) (j : Json) : Option CaptureKind := do
  match ← unitChoice? depth j with
  | "Local" => some .register
  | "Outer" => some .outer
  | _ => none

def capture? (depth : Nat) (j : Json) : Option Capture := do
  let depth ← enter depth
  match ← fields? ["name", "kind", "index"] j with
  | [some n, some k, some i] => return ⟨← string? n, ← kind? depth k, ← size? i⟩
  | _ => none

def local? (depth : Nat) (j : Json) : Option LocalInfo := do
  let _ ← enter depth
  match ← fields? ["name", "pos", "start_op", "end_op"] j with
  | [some n, some p, some s, some e] => return ⟨← string? n, ← size? p, ← size? s, ← size? e⟩
  | _ => none

def line? (depth : Nat) (j : Json) : Option LineInfo := do
  let _ ← enter depth
  match ← fields? ["line", "op"] j with
  | [some l, some o] => return ⟨← nat? (Nat.pow 2 32) l, ← size? o⟩
  | _ => none

/-- The twelve fields of a function, in the order of the array form. -/
def prototypeFields : List String :=
  ["name", "source_name", "instructions", "literals", "parameters", "functions", "outers",
   "default_params", "locals", "line_info", "stack_size", "varargs"]

/-- A function; the depth left bounds the nesting, and a function takes two
levels, for itself and for its lists. -/
def prototype? : Nat → Json → Option Prototype
  | 0, _ | 1, _ | 2, _ => none
  | depth + 3, j => do
    let inside := depth + 1
    match ← fields? prototypeFields j with
    | [some name, some source, some code, some literals, some parameters, some functions,
        some outers, some defaults, some locals, some lines, some stackSize, some varargs] =>
      return {
        name := ← string? name
        source := ← string? source
        code := (← list? (instruction? inside) code).toArray
        literals := (← list? (literal? inside) literals).toArray
        parameters := ← list? string? parameters
        functions := ← list? (fun (f : Json) => prototype? (depth + 1) f) functions
        outers := ← list? (capture? inside) outers
        defaults := ← list? int? defaults
        locals := ← list? (local? inside) locals
        lines := (← list? (line? inside) lines).toArray
        stackSize := ← size? stackSize
        varargs := ← bool? varargs }
    | _ => none

/-- The levels that a text may open. -/
def levels : Nat := 128

end ScriptMachine.Stored

namespace ScriptMachine.Prototype

def store (p : Prototype) : String := (Stored.prototypeJson p).text

/-- The function that a text describes, if it describes one. -/
def read? (s : String) : Option Prototype := do
  Stored.prototype? Stored.levels (← Json.parse? s)

end ScriptMachine.Prototype

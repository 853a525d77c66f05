import ScriptMachine.Bytecode.Prototype

/-!
# Listings

The readable form of a function: its constants, captures and instructions, then
its nested functions, each level indented.
-/

set_option autoImplicit false

namespace ScriptMachine.Listing
open ScriptMachine.Instruction (padLeft padRight)

def indent (depth : Nat) : String :=
  String.ofList (List.replicate (2 * depth) ' ')

def kindName : CaptureKind → String
  | .register => "Local"
  | .outer => "Outer"

def natText (n : Nat) : String := Decimal.digitText n

/-- A literal shown beside the instruction that uses it. -/
def literalNote (p : Prototype) (index : Int64) : Option String :=
  if index < 0 then none else (p.literals[index.toInt.toNat]?).map Literal.display

/-- The target of a relative jump, counted from the next instruction. -/
def targetText (ip : Nat) (offset : Int64) : String :=
  Decimal.integer (Int64.ofNat ip + 1 + offset)

def note (p : Prototype) (ip : Nat) (i : Instruction) : Option String :=
  match i.opcode with
  | .load | .getLiteral | .prepareCallLiteral | .eqLiteral | .neqLiteral => literalNote p i.arg1
  | .doubleLoad =>
    match literalNote p i.arg1, literalNote p i.arg3 with
    | some a, some b => some (a ++ ", " ++ b)
    | _, _ => none
  | .loadFloat => some (Decimal.plain.render (Float.ofBits i.arg1.toUInt64))
  | .compare => (CompareOp.ofCode? i.arg3).map CompareOp.symbol
  | .jumpUnless => (CompareOp.ofCode? i.arg0).map fun (op : CompareOp) =>
      "if !(r" ++ Decimal.integer i.arg2 ++ " " ++ op.symbol ++ " r" ++ Decimal.integer i.arg3 ++
        ") -> " ++ targetText ip i.arg1
  | .jump | .jumpIfFalsy | .shortAnd | .shortOr | .foreach =>
    some ("-> " ++ targetText ip i.arg1)
  | .closure => if i.arg1 < 0 then none else (p.functions[i.arg1.toInt.toNat]?).map (·.name)
  | _ => none

def literalLine (pad : String) (index : Nat) (l : Literal) : String :=
  pad ++ "  .lit " ++ padRight 4 (natText index) ++ " " ++ l.display ++ "\n"

def captureLine (pad : String) (index : Nat) (c : Capture) : String :=
  pad ++ "  .outer " ++ padRight 2 (natText index) ++ " " ++ c.name ++ " " ++
    kindName c.kind ++ " " ++ natText c.index ++ "\n"

def codeLine (p : Prototype) (pad : String) (ip : Nat) (i : Instruction) : String :=
  pad ++ "  " ++ padLeft 4 (natText ip) ++ " [" ++ padLeft 4 (natText (p.lineFor ip)) ++ "] " ++
    i.display ++ (match note p ip i with | none => "" | some t => "  ; " ++ t) ++ "\n"

def header (p : Prototype) (pad : String) : String :=
  pad ++ "function " ++ p.name ++ " (" ++ natText p.parameters.length ++ " params, " ++
    natText p.outers.length ++ " outers, stack " ++ natText p.stackSize ++ ")\n"

/-- The lines of one function without its nested functions. -/
def own (p : Prototype) (depth : Nat) : String :=
  let pad := indent depth
  header p pad ++
    String.join (p.literals.toList.mapIdx (literalLine pad)) ++
    String.join (p.outers.mapIdx (captureLine pad)) ++
    String.join (p.code.toList.mapIdx (codeLine p pad))

mutual

/-- The lines of a function, then those of its nested functions one step further in. -/
def render : Prototype → Nat → String
  | p@{ functions := fs, .. }, depth => own p depth ++ renderAll fs (depth + 1)

def renderAll : List Prototype → Nat → String
  | [], _ => ""
  | f :: rest, depth => render f depth ++ renderAll rest depth

end

end ScriptMachine.Listing

namespace ScriptMachine

def Prototype.listing (p : Prototype) : String := Listing.render p 0

end ScriptMachine

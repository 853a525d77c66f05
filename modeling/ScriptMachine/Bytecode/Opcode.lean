/-!
# Opcodes

The instruction set of the register machine. Every instruction has four
integer arguments; `dst?` and `src?` mark an argument that may be absent.
-/

set_option autoImplicit false

namespace ScriptMachine

inductive Opcode where
  /-- Arguments `dst lit`: a literal. -/
  | load
  /-- Arguments `dst imm`: an integer. -/
  | loadInteger
  /-- Arguments `dst bits`: a float given by its bits. -/
  | loadFloat
  /-- Arguments `dst b`: a bool. -/
  | loadBool
  /-- Arguments `d1 l1 d2 l2`: two literals. -/
  | doubleLoad
  /-- Arguments `start count`: nulls in a run of registers. -/
  | loadNulls
  /-- Arguments `dst`: the root dict. -/
  | loadRoot
  /-- Arguments `dst src`. -/
  | move
  /-- Arguments `d1 s1 d2 s2`: two copies. -/
  | doubleMove
  /-- Arguments `dst idx`: reads a captured variable. -/
  | getOuter
  /-- Arguments `dst? idx src`: writes a captured variable. -/
  | setOuter
  /-- Arguments `dst key obj`. -/
  | get
  /-- Arguments `dst lit obj`. -/
  | getLiteral
  /-- Arguments `dst? obj key val`: writes an existing slot. -/
  | assign
  /-- Arguments `dst? obj key val`: creates a slot. -/
  | newSlot
  /-- Arguments `flags cls key val`: creates a class member. -/
  | newMember
  /-- Arguments `dst obj key`. -/
  | remove
  /-- Arguments `dst lhs rhs`. -/
  | add
  /-- Arguments `dst lhs rhs`. -/
  | sub
  /-- Arguments `dst lhs rhs`. -/
  | mul
  /-- Arguments `dst lhs rhs`. -/
  | div
  /-- Arguments `dst lhs rhs`. -/
  | mod
  /-- Arguments `dst lhs rhs`. -/
  | exp
  /-- Arguments `dst lhs rhs op`. -/
  | bitwise
  /-- Arguments `dst src`. -/
  | neg
  /-- Arguments `dst src`. -/
  | not
  /-- Arguments `dst src`. -/
  | bitNot
  /-- Arguments `dst lhs rhs`. -/
  | eq
  /-- Arguments `dst lhs rhs`. -/
  | neq
  /-- Arguments `dst lit rhs`. -/
  | eqLiteral
  /-- Arguments `dst lit rhs`. -/
  | neqLiteral
  /-- Arguments `dst lhs rhs op`. -/
  | compare
  /-- Arguments `op offset lhs rhs`: jumps when the comparison is false. -/
  | jumpUnless
  /-- Arguments `_ offset`. -/
  | jump
  /-- Arguments `cond offset`: jumps when the condition is falsy. -/
  | jumpIfFalsy
  /-- Arguments `dst offset src`. -/
  | shortAnd
  /-- Arguments `dst offset src`. -/
  | shortOr
  /-- Arguments `dst key obj this`: a method and its receiver. -/
  | prepareCall
  /-- Arguments `dst lit obj this`. -/
  | prepareCallLiteral
  /-- Arguments `dst? callee base nargs`. -/
  | call
  /-- Arguments `dst? callee base nargs`: a call that replaces the frame. -/
  | tailCall
  /-- Arguments `src?`. -/
  | ret
  /-- Arguments `_ pos`: closes the cells at or above a register. -/
  | close
  /-- Arguments `dst func`: a closure of a nested function. -/
  | closure
  /-- Arguments `dst a1 a2 kind`. -/
  | newObject
  /-- Arguments `arr val kind`. -/
  | append
  /-- Arguments `dst src`. -/
  | typeOf
  /-- Arguments `dst cls obj`. -/
  | instanceOf
  /-- Arguments `dst obj key`. -/
  | has
  /-- Arguments `dst`: the base of the method's class. -/
  | base
  /-- Arguments `dst src`: a deep copy. -/
  | deepCopy
  /-- Arguments `container offset base`: three registers hold key, value and state. -/
  | foreach
  deriving DecidableEq, Repr

namespace Opcode

def all : List Opcode :=
  [load, loadInteger, loadFloat, loadBool, doubleLoad, loadNulls, loadRoot, move, doubleMove,
   getOuter, setOuter, get, getLiteral, assign, newSlot, newMember, remove, add, sub, mul, div,
   mod, exp, bitwise, neg, not, bitNot, eq, neq, eqLiteral, neqLiteral, compare, jumpUnless,
   jump, jumpIfFalsy, shortAnd, shortOr, prepareCall, prepareCallLiteral, call, tailCall, ret,
   close, closure, newObject, append, typeOf, instanceOf, has, base, deepCopy, foreach]

/-- The name of the opcode in a stored function. -/
def name : Opcode → String
  | load => "Load"
  | loadInteger => "LoadInteger"
  | loadFloat => "LoadFloat"
  | loadBool => "LoadBool"
  | doubleLoad => "DLoad"
  | loadNulls => "LoadNulls"
  | loadRoot => "LoadRoot"
  | move => "Move"
  | doubleMove => "DMove"
  | getOuter => "GetOuter"
  | setOuter => "SetOuter"
  | get => "Get"
  | getLiteral => "GetK"
  | assign => "Set"
  | newSlot => "NewSlot"
  | newMember => "NewSlotA"
  | remove => "Delete"
  | add => "Add"
  | sub => "Sub"
  | mul => "Mul"
  | div => "Div"
  | mod => "Mod"
  | exp => "Exp"
  | bitwise => "Bitwise"
  | neg => "Neg"
  | not => "Not"
  | bitNot => "BitNot"
  | eq => "Eq"
  | neq => "Neq"
  | eqLiteral => "EqK"
  | neqLiteral => "NeqK"
  | compare => "Cmp"
  | jumpUnless => "JCmp"
  | jump => "Jmp"
  | jumpIfFalsy => "Jz"
  | shortAnd => "And"
  | shortOr => "Or"
  | prepareCall => "PrepCall"
  | prepareCallLiteral => "PrepCallK"
  | call => "Call"
  | tailCall => "TailCall"
  | ret => "Return"
  | close => "Close"
  | closure => "Closure"
  | newObject => "NewObject"
  | append => "AppendToArray"
  | typeOf => "TypeOf"
  | instanceOf => "InstanceOf"
  | has => "Exists"
  | base => "GetBase"
  | deepCopy => "Clone"
  | foreach => "Foreach"

def ofName? (s : String) : Option Opcode := all.find? (·.name == s)

/-- The name in a listing. -/
def mnemonic (op : Opcode) : String := op.name.toUpper

/-- The result goes to the first argument and a following move may redirect it. -/
def isRetargetable : Opcode → Bool
  | get | add | sub | mul | div | mod | exp | bitwise
  | loadInteger | loadFloat | loadBool | load => true
  | _ => false

def isArithmetic : Opcode → Bool
  | add | sub | mul | div | mod | exp => true
  | _ => false

/-- The second argument is a jump offset. -/
def isJump : Opcode → Bool
  | jump | jumpIfFalsy | jumpUnless | shortAnd | shortOr | foreach => true
  | _ => false

end Opcode

/-- The ordering that `compare` and `jumpUnless` test. -/
inductive CompareOp where
  | greater
  | greaterEqual
  | less
  | lessEqual
  /-- Yields -1, 0 or 1. -/
  | threeWay
  deriving DecidableEq, Repr

namespace CompareOp

def code : CompareOp → Int64
  | greater => 0
  | greaterEqual => 1
  | less => 2
  | lessEqual => 3
  | threeWay => 4

def ofCode? (n : Int64) : Option CompareOp :=
  [greater, greaterEqual, less, lessEqual, threeWay].find? (·.code == n)

def symbol : CompareOp → String
  | greater => ">"
  | greaterEqual => ">="
  | less => "<"
  | lessEqual => "<="
  | threeWay => "<=>"

end CompareOp

inductive BitwiseOp where
  | and
  | or
  | xor
  | shiftLeft
  | shiftRight
  deriving DecidableEq, Repr

namespace BitwiseOp

def code : BitwiseOp → Int64
  | and => 0
  | or => 1
  | xor => 2
  | shiftLeft => 3
  | shiftRight => 4

def ofCode? (n : Int64) : Option BitwiseOp :=
  [and, or, xor, shiftLeft, shiftRight].find? (·.code == n)

end BitwiseOp

/-- What `newObject` creates. -/
inductive ObjectKind where
  | dict
  | array
  /-- With an optional base register and an attributes register. -/
  | classObject
  deriving DecidableEq, Repr

namespace ObjectKind

def code : ObjectKind → Int64
  | dict => 0
  | array => 1
  | classObject => 2

def ofCode? (n : Int64) : Option ObjectKind :=
  [dict, array, classObject].find? (·.code == n)

end ObjectKind

/-- Where `append` takes its value from. -/
inductive AppendSource where
  | register
  | literal
  | integer
  /-- The argument holds the bits of the float. -/
  | float
  | bool
  deriving DecidableEq, Repr

namespace AppendSource

def code : AppendSource → Int64
  | register => 0
  | literal => 1
  | integer => 2
  | float => 3
  | bool => 4

def ofCode? (n : Int64) : Option AppendSource :=
  [register, literal, integer, float, bool].find? (·.code == n)

/-- The source that stands for a load fused into the append. -/
def ofLoad? : Opcode → Option AppendSource
  | .load => some literal
  | .loadInteger => some integer
  | .loadFloat => some float
  | .loadBool => some bool
  | _ => none

end AppendSource

end ScriptMachine

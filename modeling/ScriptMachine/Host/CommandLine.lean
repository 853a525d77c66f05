import ScriptMachine.Host.Session

/-!
# The command line

`tern run FILE` runs a stored function and prints its result; `tern disassemble
FILE` prints its listing. Arguments are read from left to right; what asks for
help or the version ends the reading there.
-/

set_option autoImplicit false

namespace ScriptMachine

namespace CommandLine

/-- The options that hold before and after the command. -/
structure Settings where
  maxDepth : Option Nat := none
  manual : Bool := false
  threshold : Option Nat := none
  deriving DecidableEq, Repr

inductive Action where
  | run (listing : Bool)
  | disassemble
  deriving DecidableEq, Repr

structure Command where
  action : Action
  file : String
  settings : Settings
  deriving DecidableEq, Repr

/-- What the arguments ask for. -/
inductive Request where
  | execute (c : Command)
  | version
  | help
  | invalid
  deriving DecidableEq, Repr

/-! ## Numbers -/

def digitsValue (n : Nat) : List Char → Option Nat
  | [] => some n
  | c :: rest => if c.isDigit then digitsValue (n * 10 + (c.toNat - '0'.toNat)) rest else none

/-- A number that fits 64 bits, with an optional plus sign. -/
def readNumber? (s : String) : Option Nat :=
  let digits := match s.toList with
    | '+' :: rest => rest
    | cs => cs
  match digits with
  | [] => none
  | cs => (digitsValue 0 cs).filter fun (n : Nat) => decide (n < Nat.pow 2 64)

/-! ## Words -/

/-- One argument by its form. -/
inductive Word where
  /-- Two dashes alone: only positions follow. -/
  | escape
  /-- A name after two dashes, with the value after an equals sign. -/
  | long (name : String) (value : Option String)
  /-- Letters after one dash. -/
  | short (letters : List Char)
  | plain (s : String)
  deriving DecidableEq, Repr

def splitAtEquals (before : List Char) : List Char → String × Option String
  | [] => (String.ofList before.reverse, none)
  | '=' :: rest => (String.ofList before.reverse, some (String.ofList rest))
  | c :: rest => splitAtEquals (c :: before) rest

def Word.ofArgument (s : String) : Word :=
  match s.toList with
  | ['-', '-'] => .escape
  | '-' :: '-' :: rest =>
    let (name, value) := splitAtEquals [] rest
    .long name value
  | ['-'] => .plain s
  | '-' :: letters => .short letters
  | _ => .plain s

/-! ## Options of all commands -/

/-- What reading an option comes to. -/
inductive Outcome (α : Type) where
  | next (a : α) (rest : List String)
  | done (r : Request)

/-- The value of an option, after an equals sign or as the next argument. -/
def optionNumber (value : Option String) (rest : List String) : Option (Nat × List String) :=
  match value with
  | some v => (readNumber? v).map fun (n : Nat) => (n, rest)
  | none =>
    match rest with
    | [] => none
    | a :: rest =>
      match Word.ofArgument a with
      | .plain v => (readNumber? v).map fun (n : Nat) => (n, rest)
      | _ => none

/-- Reads an option that every command has; each may be given once. -/
def readGlobal (s : Settings) (name : String) (value : Option String) (rest : List String) :
    Outcome Settings :=
  match name, value with
  | "help", none => .done .help
  | "no-gc", none => if s.manual then .done .invalid else .next { s with manual := true } rest
  | "max-depth", value =>
    match s.maxDepth, optionNumber value rest with
    | none, some (n, rest) => .next { s with maxDepth := some n } rest
    | _, _ => .done .invalid
  | "gc-threshold", value =>
    match s.threshold, optionNumber value rest with
    | none, some (n, rest) => .next { s with threshold := some n } rest
    | _, _ => .done .invalid
  | _, _ => .done .invalid

/-! ## Options of a command -/

/-- What has been read of a command. -/
structure Partial where
  settings : Settings := {}
  listing : Bool := false
  file : Option String := none
  /-- Only positions follow. -/
  escaped : Bool := false

/-- Letters after one dash; only `run` knows the listing. -/
def readLetters (runs : Bool) (p : Partial) : List Char → Partial ⊕ Request
  | [] => .inl p
  | 'b' :: rest =>
    if runs && !p.listing then readLetters runs { p with listing := true } rest else .inr .invalid
  | 'h' :: _ => .inr .help
  | _ => .inr .invalid

def readFile (p : Partial) (s : String) : Partial ⊕ Request :=
  if p.file.isNone && s ≠ "" then .inl { p with file := some s } else .inr .invalid

/-- Reads what follows the name of a command. Each step takes an argument. -/
def readCommand (runs : Bool) : Nat → Partial → List String → Partial ⊕ Request
  | 0, _, _ => .inr .invalid
  | _ + 1, p, [] => .inl p
  | fuel + 1, p, a :: rest =>
    if p.escaped then
      match readFile p a with
      | .inl p => readCommand runs fuel p rest
      | .inr r => .inr r
    else
      match Word.ofArgument a with
      | .escape => readCommand runs fuel { p with escaped := true } rest
      | .plain s =>
        match readFile p s with
        | .inl p => readCommand runs fuel p rest
        | .inr r => .inr r
      | .short letters =>
        match readLetters runs p letters with
        | .inl p => readCommand runs fuel p rest
        | .inr r => .inr r
      | .long "print-bytecode" none =>
        if runs && !p.listing then readCommand runs fuel { p with listing := true } rest
        else .inr .invalid
      | .long name value =>
        match readGlobal p.settings name value rest with
        | .next s rest => readCommand runs fuel { p with settings := s } rest
        | .done r => .inr r

/-- Options after the command hold over those before it. -/
def Settings.over (inner outer : Settings) : Settings where
  maxDepth := inner.maxDepth.or outer.maxDepth
  manual := inner.manual || outer.manual
  threshold := inner.threshold.or outer.threshold

def finishCommand (runs : Bool) (outer : Settings) (args : List String) : Request :=
  match readCommand runs (args.length + 1) {} args with
  | .inr r => r
  | .inl p =>
    match p.file with
    | none => .invalid
    | some file =>
      .execute
        { action := if runs then .run p.listing else .disassemble
          file
          settings := p.settings.over outer }

def commandNames : List String := ["run", "disassemble", "help"]

/-- The arguments of the help command name a command, or none. -/
def readHelp : List String → Request
  | [] => .help
  | [a] => if a ∈ commandNames then .help else .invalid
  | _ => .invalid

/-- Reads the options before the command, then the command. -/
def readTop : Nat → Settings → List String → Request
  | 0, _, _ | _, _, [] => .invalid
  | fuel + 1, s, a :: rest =>
    match Word.ofArgument a with
    | .plain "run" => finishCommand true s rest
    | .plain "disassemble" => finishCommand false s rest
    | .plain "help" => readHelp rest
    | .short ('V' :: _) => .version
    | .short ('h' :: _) => .help
    | .long "version" none => .version
    | .long name value =>
      match readGlobal s name value rest with
      | .next s rest => readTop fuel s rest
      | .done r => r
    | _ => .invalid

def read (args : List String) : Request := readTop (args.length + 1) {} args

/-! ## Execution -/

def Settings.config (s : Settings) : MachineConfig where
  maxCallDepth := s.maxDepth.getD 1024
  collect := { auto := !s.manual, threshold := s.threshold.getD 10000 }

/-- What the program puts out, and its exit code. -/
structure Report where
  stdout : String := ""
  stderr : String := ""
  status : Nat := 0
  deriving DecidableEq, Repr

def versionText : String := "tern 0.1.0\n"

def usageText : String :=
  "Usage: tern [OPTIONS] <COMMAND>\n\nCommands:\n" ++
  "  run          Execute a prototype and print its result\n" ++
  "  disassemble  Print the disassembly of a prototype\n" ++
  "  help         Print this message or the help of the given subcommand(s)\n\nOptions:\n" ++
  "      --max-depth <MAX_DEPTH>        Maximum nested call depth [default: 1024]\n" ++
  "      --no-gc                        Disable automatic cycle collection\n" ++
  "      --gc-threshold <GC_THRESHOLD>  Registrations between automatic collections\n" ++
  "                                     [default: 10000]\n" ++
  "  -h, --help                         Print help\n" ++
  "  -V, --version                      Print version\n"

def failure (stdout : String) (e : HostError) : Report :=
  { stdout
    stderr := "Error: " ++ e.message ++ "\n"
    status := if e = .stopped then 101 else 1 }

/-- The result of a script is put out unless it is null. -/
def resultText (m : Machine) (v : Value) : String :=
  if v.isNull then "" else m.heap.display v ++ "\n"

/-- Executes a command on the contents of its file, or on the reason why the file
cannot be read. -/
def Command.execute (c : Command) (contents : Except String String) : Report :=
  match contents with
  | .error reason => failure "" (.unreadable c.file reason)
  | .ok text =>
    match c.action with
    | .disassemble =>
      match Session.listStored text with
      | .ok listing => { stdout := listing }
      | .error e => failure "" e
    | .run listing =>
      match (Session.start c.settings.config listing).executeStored text with
      | (.ok v, stdout, s) => { stdout := stdout ++ resultText s.machine v }
      | (.error e, stdout, _) => failure stdout e

/-- The report for a request that needs no file. -/
def Request.report? : Request → Command ⊕ Report
  | .execute c => .inl c
  | .version => .inr { stdout := versionText }
  | .help => .inr { stdout := usageText }
  | .invalid => .inr { stderr := usageText, status := 2 }

end CommandLine

end ScriptMachine

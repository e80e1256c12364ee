import Advplc.CommandLine.Arguments
import Advplc.Text.Integer

/-!
# The interface of the tool

The tool has two commands: one compiles a file, the other every script in a directory.  Its
arguments are switches that hold for either command, then the name of the command, then what the
command itself takes.  `Invocation.read` understands a list of arguments, or says why the tool stops
without doing anything: it was asked for help, or there is a fault.

Help is given at the moment it is asked for, so that a fault before it wins and a fault behind it
does not.  Arguments that nobody understands are reported last of all.
-/

set_option autoImplicit false

namespace Advplc.CommandLine

/-! ## Commands -/

/-- What the tool can be asked to do. -/
inductive Command where
  | transpile
  | batch
deriving DecidableEq

namespace Command

/-- All commands. -/
def all : List Command := [transpile, batch]

/-- What a command is called. -/
def name : Command → Text
  | transpile => "transpile"
  | batch => "batch"

/-- The command with a given name. -/
def ofName? (name : Text) : Option Command := all.find? fun c ↦ c.name = name

/-- The operands of a command: what it reads, then what it writes. -/
def operands : Command → List Operand
  | transpile => [⟨"input", .one⟩, ⟨"output", .optional⟩]
  | batch => [⟨"input_dir", .one⟩, ⟨"output_dir", .one⟩]

end Command

/-! ## Switches -/

/-- How help is asked for. -/
def helpNames : List Text := ["-h", "--help"]

/-- What a command takes.  Its one switch asks for help. -/
def Command.form (c : Command) : Form Unit := ⟨[⟨(), helpNames, false⟩], c.operands⟩

/-- The switches that stand before the name of a command. -/
inductive Setting where
  | help
  | debug
  | indent
  | since
deriving DecidableEq

/-- The operand that is the name of a command and everything that the command takes. -/
def commandOperand : Operand := ⟨"command", .everything⟩

/-- What the tool takes. -/
def toolForm : Form Setting :=
  ⟨[⟨.help, helpNames, false⟩, ⟨.debug, ["--debug"], false⟩, ⟨.indent, ["--indent"], true⟩,
    ⟨.since, ["--since"], true⟩], [commandOperand]⟩

/-! ## Help -/

/-- What help is about: the tool, or one of its commands. -/
inductive Page where
  | tool
  | command (c : Command)
deriving DecidableEq

namespace Page

/-- The name of the tool. -/
def toolName : Text := "js2advpl"

/-- What a page is about, by name. -/
def subject : Page → Text
  | tool => toolName
  | command c => toolName ++ " " ++ c.name

/-- The summary of what is taken. -/
def usage : Page → Text
  | tool =>
    "usage: js2advpl [-h] [--debug] [--indent INDENT] [--since SINCE]\n" ++
    "                \x7btranspile,batch\x7d ...\n"
  | command .transpile => "usage: js2advpl transpile [-h] input [output]\n"
  | command .batch => "usage: js2advpl batch [-h] input_dir output_dir\n"

/-- The explanation of what is taken. -/
def explanation : Page → Text
  | tool =>
    "positional arguments:\n" ++
    "  \x7btranspile,batch\x7d\n" ++
    "    transpile        Transpile .js → .prw\n" ++
    "    batch            Transpile every .js file of a directory\n" ++
    "\n" ++
    "options:\n" ++
    "  -h, --help         show this help message and exit\n" ++
    "  --debug            If set, log every stage and show full Python traceback on\n" ++
    "                     errors\n" ++
    "  --indent INDENT    Spaces per indentation level in the generated code\n" ++
    "  --since SINCE      Date for the @since header tag ('today' for the current\n" ++
    "                     date)\n"
  | command .transpile =>
    "positional arguments:\n" ++
    "  input       Input .js source file\n" ++
    "  output      Output .prw file (default: beside the input)\n" ++
    "\n" ++
    "options:\n" ++
    "  -h, --help  show this help message and exit\n"
  | command .batch =>
    "positional arguments:\n" ++
    "  input_dir   Directory holding .js sources\n" ++
    "  output_dir  Directory receiving the .prw files\n" ++
    "\n" ++
    "options:\n" ++
    "  -h, --help  show this help message and exit\n"

/-- The whole page. -/
def text (p : Page) : Text := p.usage ++ "\n" ++ p.explanation

end Page

/-- Why the tool stops without doing anything. -/
inductive Stop where
  | help (page : Page)
  | fault (page : Page) (f : Fault)
deriving DecidableEq

/-! ## Invocations -/

/-- What was given to a command. -/
structure Given where
  /-- What its operands found, in order. -/
  values : List Text := []
  /-- What it does not understand. -/
  extras : List Text := []

/-- Takes an event of a command into account. -/
def Given.add (c : Command) (g : Given) : Event Unit → Except Stop Given
  | .switch _ _ => .error (.help (.command c))
  | .operand _ arguments => .ok { g with values := g.values ++ arguments }
  | .extra argument => .ok { g with extras := g.extras ++ [argument] }
  | .fault f => .error (.fault (.command c) f)

/-- Reads what is given to a command. -/
def Command.read (c : Command) (arguments : List Text) : Except Stop Given :=
  (c.form.read arguments).foldlM (Given.add c) {}

/-- What the tool is asked to do, as far as its arguments were read. -/
structure Request where
  /-- Whether every stage is reported and errors are passed on. -/
  debug : Bool := false
  /-- The spaces of a level, unless a divider was given as their number. -/
  indent : Option Int := some 4
  /-- The date for the header. -/
  since : Option Text := none
  /-- The command, with what was given to it. -/
  command : Option (Command × Given) := none
  /-- What the tool does not understand. -/
  extras : List Text := []

namespace Request

/-- How a divider that was given as a value is written: as a list without values. -/
def noValues : Text := "[]"

/-- Takes a switch into account. -/
def set (r : Request) (s : Switch Setting) (value : Option Text) : Except Stop Request :=
  match s.key, value with
  | .help, _ => .error (.help .tool)
  | .debug, _ => .ok { r with debug := true }
  | .indent, none => .ok { r with indent := none }
  | .indent, some value =>
    match value.integer? with
    | some n => .ok { r with indent := some n }
    | none => .error (.fault .tool (.notInteger s.label value))
  | .since, value => .ok { r with since := some (value.getD noValues) }

/-- Takes the command into account. -/
def assign (r : Request) (arguments : List Text) : Except Stop Request :=
  let name := arguments.headD []
  match Command.ofName? name with
  | none =>
    .error (.fault .tool (.unknownCommand commandOperand.name name (Command.all.map Command.name)))
  | some c => do return { r with command := some (c, ← c.read (arguments.drop 1)) }

/-- Takes an event into account. -/
def add (r : Request) : Event Setting → Except Stop Request
  | .switch s value => r.set s value
  | .operand _ arguments => r.assign arguments
  | .extra argument => .ok { r with extras := r.extras ++ [argument] }
  | .fault f => .error (.fault .tool f)

end Request

/-- What the tool is asked to do. -/
structure Invocation where
  /-- Whether every stage is reported and errors are passed on. -/
  debug : Bool
  /-- The spaces of a level, unless a divider was given as their number. -/
  indent : Option Int
  /-- The date for the header. -/
  since : Option Text
  /-- The command. -/
  command : Command
  /-- What the command reads. -/
  input : Text
  /-- What it writes. -/
  output : Option Text

/-- The invocation that a request amounts to when nothing is left to read. -/
def Request.finish (r : Request) : Except Stop Invocation :=
  match r.command with
  | none => .error (.fault .tool (.missing [commandOperand.name]))
  | some (command, given) =>
    match r.extras ++ given.extras with
    | [] =>
      .ok ⟨r.debug, r.indent, r.since, command, given.values.headD [], (given.values.drop 1).head?⟩
    | extras => .error (.fault .tool (.unrecognized extras))

/-- Reads the arguments of the tool. -/
def Invocation.read (arguments : List Text) : Except Stop Invocation := do
  let request ← (toolForm.read arguments).foldlM Request.add {}
  request.finish

end Advplc.CommandLine

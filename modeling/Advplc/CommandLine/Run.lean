import Advplc.CommandLine.Interface
import Advplc.File.Compile

/-!
# Running the tool

`run` does what arguments ask for on a file system and reports what is shown and how the run ends.
A run ends with an exit code, or with an error that is passed on: every error of a command is, when
the tool was asked to debug, and an error about the indentation always is.
-/

set_option autoImplicit false

namespace Advplc.CommandLine

/-- Why a run fails. -/
inductive RunError where
  | file (e : File.FileError)
  /-- There is no name for the output directory, since a second divider stands in its place. -/
  | noOutputName
  /-- There is no number of spaces for a level, since a divider stands in its place. -/
  | noWidth
  /-- The spaces of a level cannot be counted in a machine word. -/
  | tooWide
  /-- The spaces of a level do not fit into memory. -/
  | noMemory

namespace RunError

/-- What the error says. -/
def message : RunError → Text
  | file e => e.message
  | noOutputName => "expected str, bytes or os.PathLike object, not list"
  | noWidth => "can't multiply sequence by non-int of type 'list'"
  | tooWide => "cannot fit 'int' into an index-sized integer"
  | noMemory => []

/-- Whether the input is at fault. -/
def isFlaw : RunError → Bool
  | file e => e.isFlaw
  | noOutputName | noWidth | tooWide | noMemory => false

end RunError

/-- How a run ends. -/
inductive Ending where
  | exit (code : Nat)
  | raised (e : RunError)

/-- What a run shows. -/
structure Report where
  /-- What is written to the standard output. -/
  output : Text
  /-- What is written to the standard error. -/
  diagnostics : Text
  /-- How the run ends. -/
  ending : Ending

/-- The report of a run that does nothing. -/
def Stop.report : Stop → Report
  | .help page => ⟨page.text, [], .exit 0⟩
  | .fault page f =>
    ⟨[], page.usage ++ page.subject ++ ": error: " ++ f.message ++ "\n", .exit 2⟩

/-- The first number beyond what a machine word of 64 bits can count. -/
def wordLimit : Int := 0x8000000000000000

/-- The least number of spaces that is taken to be too much for any memory. -/
def memoryLimit : Int := 0x8000000000

/-- The indentation with a number of spaces.  A negative number stands for none. -/
def spaces : Option Int → Except RunError Text
  | none => .error .noWidth
  | some width =>
    if width < -wordLimit ∨ wordLimit ≤ width then .error .tooWide
    else if memoryLimit ≤ width then .error .noMemory
    else .ok (Text.times width.toNat " ")

namespace Invocation

/-- The word that stands for the date of the run. -/
def todayWord : Text := "today"

/-- The options of the code that is generated on the day `today`. -/
def options (i : Invocation) (today : Text) : Except RunError Target.Options := do
  let indent ← spaces i.indent
  let since := i.since.map fun date ↦ if date = todayWord then today else date
  return { indent := some indent, since }

/-- The least level of the records that are shown. -/
def level (i : Invocation) : Level := if i.debug then .debug else .info

/-- The lines for the records that are shown. -/
def logLines (i : Invocation) (log : List Record) : Text :=
  (log.filter fun r ↦ i.level.rank ≤ r.level.rank).flatMap Record.line

/-- The line that reports an error. -/
def errorLine (i : Invocation) (e : RunError) : Text :=
  (if e.isFlaw then i.input ++ ":" else "Unexpected error: ") ++ e.message ++ "\n"

/-- The report of a run that has carried out its command, or failed to. -/
def report (i : Invocation) (l : Logged (Except RunError Unit)) : Report :=
  let shown := i.logLines l.log
  match l.outcome with
  | .ok () => ⟨[], shown, .exit 0⟩
  | .error e => if i.debug then ⟨[], shown, .raised e⟩ else ⟨[], shown ++ i.errorLine e, .exit 1⟩

end Invocation

/-- A result whose value does not matter any more. -/
def settled {α : Type} (l : Logged (Except File.FileError α)) : Logged (Except RunError Unit) :=
  ⟨l.log, (l.outcome.map fun _ ↦ ()).mapError RunError.file⟩

section

variable {m : Type → Type} [Monad m] [File.FileSystem m]

/-- Carries out the command of an invocation. -/
def Invocation.perform (i : Invocation) (options : Target.Options) :
    m (Logged (Except RunError Unit)) := do
  let input := File.Path.ofText i.input
  match i.command, i.output with
  | .transpile, output =>
    return settled (← File.compileFile options input (output.map File.Path.ofText))
  | .batch, some output =>
    return settled (← File.compileDirectory options input (File.Path.ofText output))
  | .batch, none =>
    match ← File.findDirectory input with
    | .error e => return ⟨[], .error (.file e)⟩
    | .ok () => return ⟨[], .error .noOutputName⟩

/-- Runs the tool on the day `today`. -/
def run (today : Text) (arguments : List Text) : m Report := do
  match Invocation.read arguments with
  | .error stop => return stop.report
  | .ok i =>
    match i.options today with
    | .error e => return ⟨[], [], .raised e⟩
    | .ok options => return i.report (← i.perform options)

end

end Advplc.CommandLine

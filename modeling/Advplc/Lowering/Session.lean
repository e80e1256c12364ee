import Advplc.Lowering.Stmt
import Advplc.Script.Show
import Advplc.Target.Layout

/-!
# Generating files

A `Session` is a file in the making: the lines written so far, and the level at which the next line
goes.  Code is written into it line by line.  When something fails, what was written before stays,
and the level stays where the failure left it.

`generate` is what a session makes of a whole program: its header and the code of its statements.
-/

set_option autoImplicit false

namespace Advplc.Lowering

open Target (Code Entry Options)

/-- Why a file cannot be generated. -/
inductive Failure where
  /-- The tree is at fault. -/
  | refused (e : Error)
  /-- A line has to be indented and there is no indentation. -/
  | noIndent
  /-- There is no option of this name. -/
  | unknownOption (name : Text)
deriving DecidableEq

/-- What can be given to a generator besides its options, and is given already. -/
def givenArguments : List Text := ["self", "program"]

/-- What the failure says. -/
def Failure.message : Failure → Text
  | refused e => e.message
  | noIndent => "unsupported operand type(s) for *: 'NoneType' and 'int'"
  | unknownOption name =>
    let complaint : Text :=
      if givenArguments.contains name then "multiple values for argument"
      else "an unexpected keyword argument"
    "CodeGen.__init__() got " ++ complaint ++ " '" ++ name ++ "'"

/-- A file in the making. -/
structure Session where
  /-- The options of the file. -/
  options : Options
  /-- The lines written so far. -/
  lines : List Text := []
  /-- The level of the next line. -/
  level : Int := 0

namespace Session

/-- Begins a file, unless an option was given that does not exist. -/
def start (options : Options) : Except Failure Session :=
  match options.unknown with
  | some name => .error (.unknownOption name)
  | none => .ok { options }

/-- Writes lines at their own depths below the current level.  Without an indentation, that ends at
the first line that is not empty. -/
def write (s : Session) (es : List Entry) : Session × Except Failure Unit :=
  match s.options.indent with
  | some indent =>
    ({ s with lines := s.lines ++ es.map (Target.Entry.render indent s.level) }, .ok ())
  | none =>
    let blank := es.takeWhile Target.Entry.isBlank
    let lines := s.lines ++ blank.map Target.Entry.text
    match es.dropWhile Target.Entry.isBlank with
    | [] => ({ s with lines }, .ok ())
    | e :: _ => ({ s with lines, level := s.level + e.depth }, .error .noIndent)

/-- Writes one line at the current level. -/
def emit (s : Session) (text : Text) : Session × Except Failure Unit := s.write [Target.outer text]

/-- Writes code, or as much of it as could be generated. -/
def writeCode (s : Session) (r : Generated) : Session × Except Failure Unit :=
  match r with
  | .ok code => s.write (Code.entriesAll code)
  | .error k =>
    match s.write k.entries with
    | (s, .ok ()) => ({ s with level := s.level + k.depth }, .error (.refused k.error))
    | (s, .error f) => (s, .error f)

/-- The code of statements in a loop with the given update. -/
def code (s : Session) (update : Option Text) (body : List Script.Stmt) : Generated :=
  lowerStmts s.options.functionWords update body

/-- Writes the code of a statement. -/
def stmt (s : Session) (statement : Script.Stmt) : Session × Except Failure Unit :=
  s.writeCode (lowerStmt s.options.functionWords none statement)

/-- Writes code one level deeper. -/
def writeBlock (s : Session) (r : Generated) : Session × Except Failure Unit :=
  match { s with level := s.level + 1 : Session }.writeCode r with
  | (s, .ok ()) => ({ s with level := s.level - 1 }, .ok ())
  | (s, .error f) => (s, .error f)

/-- Writes the code of statements one level deeper, as the body of a loop with the given update. -/
def block (s : Session) (update : Option Text) (body : List Script.Stmt) :
    Session × Except Failure Unit :=
  s.writeBlock (s.code update body)

/-- Writes the header of the file. -/
def header (s : Session) : Session × Except Failure Unit :=
  s.write ((Target.header s.options.since).map Target.outer)

/-- Writes a whole file from its beginning. -/
def generate (s : Session) (root : Script.Root) : Session × Except Failure Text :=
  match root with
  | .foreign f => (s, .error (.refused ⟨.notProgram f.sort, f.pos⟩))
  | .program p =>
    match { s with lines := [], level := 0 : Session }.header with
    | (s, .error f) => (s, .error f)
    | (s, .ok ()) =>
      match s.writeCode (s.code none p.body) with
      | (s, .error f) => (s, .error f)
      | (s, .ok ()) => (s, .ok (Target.file s.lines))

end Session

/-- The file for a program. -/
def generate (options : Options) (root : Script.Root) : Except Failure Text := do
  let s ← Session.start options
  (s.generate root).2

end Advplc.Lowering

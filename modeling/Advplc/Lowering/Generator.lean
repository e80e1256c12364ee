import Advplc.Lowering.Session

/-!
# Generating line by line

A `Generator` is a file in the making that is written one line at a time, while the tree is walked:
it keeps the level of the next line, and the updates of the loops around the place where it stands,
and these change as blocks and loops are entered and left.  `Generator.stmt` walks a statement, and
`Generator.file` a whole program.  Every line is put down together with its `Site`, which says what
the line is there for.

A session writes the same, but generates the code of a statement before it writes any of it; that is
shown in `Advplc.Proofs.Lowering.Traces`.
-/

set_option autoImplicit false

namespace Advplc.Lowering

open Target (Options)

/-- What a line is there for. -/
inductive Site where
  /-- It belongs to a statement that has no block. -/
  | plain
  /-- It is a `return`. -/
  | ret
  /-- The header of an `If`. -/
  | ifHead
  /-- The header of a further branch. -/
  | elseIfHead
  /-- The header of the last branch, which has no test. -/
  | elseHead
  | endIf
  /-- The header of a `For`. -/
  | forHead
  | next
  /-- The header of a `While`. -/
  | whileHead
  | endDo
  /-- The header of a function. -/
  | functionHead
  /-- The `Return` that closes a function. -/
  | functionEnd
  /-- The empty line behind a function. -/
  | gap
deriving DecidableEq

/-- A file that is written line by line. -/
structure Generator where
  /-- The options of the file. -/
  options : Options
  /-- The lines written so far. -/
  out : List (Site × Text)
  /-- The level of the next line. -/
  level : Int
  /-- The updates of the loops around the next line, that of the innermost loop first. -/
  updates : List (Option Text)

namespace Generator

/-- The update that a `continue` has to repeat. -/
def update (g : Generator) : Option Text := g.updates.head?.join

/-- The session that the generator is, seen without sites and loops. -/
def session (g : Generator) : Session := ⟨g.options, g.out.map Prod.snd, g.level⟩

end Generator

/-- A part of a walk.  What it did to the generator stays when it fails. -/
abbrev Gen (α : Type) := ExceptT Failure (StateM Generator) α

/-- What a part of a walk gives, and what it makes of a generator. -/
def Gen.on {α : Type} (m : Gen α) (g : Generator) : Except Failure α × Generator := m.run.run g

/-! ## The walk -/

namespace Generator

/-- Writes a line at the current level. -/
def emit (site : Site) (text : Text) : Gen Unit := do
  let g ← get
  if text.isEmpty then set { g with out := g.out ++ [(site, [])] }
  else
    match g.options.indent with
    | some indent => set { g with out := g.out ++ [(site, Target.indented indent g.level text)] }
    | none => throw .noIndent

/-- Changes the level. -/
def deepen (n : Int) : Gen Unit := modify fun g ↦ { g with level := g.level + n }

/-- Writes a block. -/
def block (body : Gen Unit) : Gen Unit := do
  deepen 1
  body
  deepen (-1)

/-- Walks through the inside of a loop with the given update.  The loop is left even if that
fails. -/
def inLoop (change : Option Text) (body : Gen Unit) : Gen Unit :=
  ExceptT.mk fun g ↦
    let (r, g) := body.on { g with updates := change :: g.updates }
    (r, { g with updates := g.updates.tail })

/-- What was computed, unless the tree is at fault. -/
def raise {α : Type} (r : Except Error α) : Gen α :=
  match r with
  | .ok a => pure a
  | .error e => throw (.refused e)

/-- The text of an expression. -/
def text (r : Except Error Target.Expr) : Gen Text := do return (← raise r).print

/-- Writes lines of a statement. -/
def plainLines : List Text → Gen Unit
  | [] => pure ()
  | t :: ts => do
    emit .plain t
    plainLines ts

/-- Writes a declaration. -/
def declare (v : Script.Variable) : Gen Unit :=
  match v.value with
  | none => emit .plain ("Local " ++ v.name.spelled)
  | some e => do emit .plain ("Local " ++ v.name.spelled ++ " := " ++ (← text (lower e)))

/-- Appends elements to an array one by one. -/
def pushes (receiver : Text) : List Script.Expr → Gen Unit
  | [] => pure ()
  | e :: es => do
    emit .plain (Target.callText Method.push.function [receiver, ← text (lower e)])
    pushes receiver es

/-- Writes an expression as a statement. -/
def exprStmt (e : Script.Expr) : Gen Unit :=
  match e with
  | .call _ (.member _ o _ _) as =>
    if appendsSeveral e then do
      let receiver ← text (lower o)
      pushes receiver as
    else do emit .plain (← text (lowerStatement e))
  | _ => do emit .plain (← text (lowerStatement e))

/-- Writes an output statement. -/
def outputStmt (arguments : List Script.Expr) : Gen Unit := do
  let o ← raise (lowerOutput arguments)
  emit .plain (Target.callText Target.outputFunction [o.print])

/-- Writes what a loop that does not count does first. -/
def initial : Script.ForInit → Gen Unit
  | .nothing => pure ()
  | .variable v => declare v
  | .expr e => do emit .plain (← text (lowerStatement e))

/-- Declares the variable that a counting loop declares. -/
def declareCounter : Script.ForInit → Gen Unit
  | .variable v => emit .plain ("Local " ++ v.name.spelled)
  | _ => pure ()

/-- The test of a loop. -/
def test : Option Script.Expr → Gen Text
  | some e => text (lower e)
  | none => pure (Target.Expr.print (.boolean true))

/-- The update of a loop. -/
def change : Option Script.Expr → Gen (Option Text)
  | some e => do return some (← text (lowerStatement e))
  | none => pure none

/-- Writes the update of a loop at the end of its body. -/
def lastUpdate : Option Text → Gen Unit
  | some u => block (emit .plain u)
  | none => pure ()

/-- Writes the update of a loop in front of a `Loop`. -/
def repeatUpdate : Option Text → Gen Unit
  | some u => emit .plain u
  | none => pure ()

/-- Closes a function, unless its body ends with a `return`. -/
def closeFunction (ends : Bool) : Gen Unit :=
  if ends then pure () else emit .functionEnd "Return"

/-- Walks through a `for` loop, given the walk through its body. -/
def forLoop (init : Script.ForInit) (condition step : Option Script.Expr) (body : Gen Unit) :
    Gen Unit :=
  match Counting.ofLoop? init condition step with
  | some c => do
    let last ← raise c.limit
    declareCounter init
    emit .forHead ("For " ++ c.header (← raise (lower c.start)) last)
    inLoop none (block body)
    emit .next "Next"
  | none => do
    initial init
    let condition ← test condition
    let update ← change step
    emit .whileHead ("While " ++ condition)
    inLoop update (block body)
    lastUpdate update
    emit .endDo "EndDo"

mutual

/-- Walks through a statement. -/
def stmt : Script.Stmt → Gen Unit
  | .lineComment _ t => emit .plain (lineCommentText t)
  | .blockComment _ t => plainLines (blockCommentLines t)
  | .importFrom _ source _ => emit .plain ("#include \"" ++ includePath source ++ "\"")
  | .exportDecl _ s _ _ => stmt s
  | .exportValue _ e _ _ => do emit .plain ("// export default " ++ (← text (lower e)))
  | .exportNames _ names _ =>
    emit .plain ("// exports: " ++ Target.commaList (names.map Lexeme.spelled))
  | .variable v => declare v
  | .output _ _ as => outputStmt as
  | .function _ name parameters body => do
    emit .functionHead (functionHeader (← get).options.functionWords name parameters)
    block (stmts body)
    closeFunction (endsWithReturn body)
    emit .gap []
  | .ret _ none => emit .ret "Return"
  | .ret _ (some e) => do emit .ret ("Return " ++ (← text (lower e)))
  | .ifThen _ condition yes => do
    emit .ifHead ("If " ++ (← text (lower condition)))
    block (stmts yes)
    emit .endIf "EndIf"
  | .ifElse _ condition yes no => do
    emit .ifHead ("If " ++ (← text (lower condition)))
    block (stmts yes)
    otherwise no
    emit .endIf "EndIf"
  | .forLoop _ init condition step body => forLoop init condition step (stmts body)
  | .whileLoop _ condition body => do
    emit .whileHead ("While " ++ (← text (lower condition)))
    inLoop none (block (stmts body))
    emit .endDo "EndDo"
  | .breakLoop _ => emit .plain "Exit"
  | .continueLoop _ => do
    repeatUpdate (← get).update
    emit .plain "Loop"
  | .expr _ e => exprStmt e
  | .foreign f => throw (.refused ⟨.unknownStmt f.sort, f.pos⟩)

/-- Walks through what stands behind `else`. -/
def otherwise : List Script.Stmt → Gen Unit
  | [] => do
    emit .elseHead "Else"
    block (pure ())
  | s :: ss =>
    if s.isIf ∧ ss.isEmpty then elseIf s
    else do
      emit .elseHead "Else"
      block do
        stmt s
        stmts ss

/-- Walks through an `if` behind `else`. -/
def elseIf : Script.Stmt → Gen Unit
  | .ifThen _ condition yes => do
    emit .elseIfHead ("ElseIf " ++ (← text (lower condition)))
    block (stmts yes)
  | .ifElse _ condition yes no => do
    emit .elseIfHead ("ElseIf " ++ (← text (lower condition)))
    block (stmts yes)
    otherwise no
  | _ => pure ()

/-- Walks through statements. -/
def stmts : List Script.Stmt → Gen Unit
  | [] => pure ()
  | s :: ss => do
    stmt s
    stmts ss

end

/-! ## Whole files -/

/-- Begins a file, unless an option was given that does not exist. -/
def start (options : Options) : Except Failure Generator := do
  let s ← Session.start options
  return ⟨s.options, [], s.level, []⟩

/-- Writes the header of the file. -/
def header : Gen Unit := do plainLines (Target.header (← get).options.since)

/-- Writes a whole file from its beginning. -/
def file (root : Script.Root) : Gen Text :=
  match root with
  | .foreign f => throw (.refused ⟨.notProgram f.sort, f.pos⟩)
  | .program p => do
    modify fun g ↦ { g with out := [], level := 0, updates := [] }
    header
    stmts p.body
    return Target.file ((← get).out.map Prod.snd)

end Generator

end Advplc.Lowering

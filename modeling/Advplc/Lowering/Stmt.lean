import Advplc.Lowering.Comment
import Advplc.Lowering.Counting
import Advplc.Target.Code

/-!
# Statements in ADVPL

`lowerStmt` turns a statement into ADVPL code.  Two things have to be known about its surroundings:
the words that a function begins with, and the update of the innermost loop.  The latter is there
for `continue`: a `for` loop that does not count becomes a `While` with the update at the end of its
body, and `Loop` jumps over that end, so the update is repeated in front of it.

When a statement cannot be turned into code, the lines before the place in question have been
written already, and the blocks around it are open.  `Stuck` says which lines and how many blocks.
-/

set_option autoImplicit false

namespace Advplc.Lowering

open Target (Code Branches Entry)

/-- How far code generation came before it failed. -/
structure Stuck where
  /-- The lines that were written. -/
  entries : List Entry
  /-- How many blocks are open. -/
  depth : Nat
  /-- Why it failed. -/
  error : Error

namespace Stuck

/-- A failure before any line was written. -/
def here (e : Error) : Stuck := ⟨[], 0, e⟩

/-- The failure seen from outside a block that begins with `header`. -/
def within (header : Text) (s : Stuck) : Stuck :=
  ⟨Target.outer header :: Target.inside s.entries, s.depth + 1, s.error⟩

/-- The failure after other lines. -/
def behind (entries : List Entry) (s : Stuck) : Stuck := { s with entries := entries ++ s.entries }

end Stuck

/-- Code, or how far it came. -/
abbrev Generated := Except Stuck (List Code)

/-! ## Putting code together -/

/-- The value of an expression, before any line of a statement is written. -/
def value (r : Except Error Target.Expr) : Except Stuck Text :=
  match r with
  | .ok e => .ok e.print
  | .error e => .error (.here e)

/-- Code after other code. -/
def sequence (first second : Generated) : Generated :=
  match first, second with
  | .ok cs, .ok ds => .ok (cs ++ ds)
  | .ok cs, .error s => .error (s.behind (Code.entriesAll cs))
  | .error s, _ => .error s

/-- Code inside a block that begins with `header`. -/
def nested (header : Text) (body : Generated) : Generated := body.mapError (Stuck.within header)

/-- The code of a branch that begins with `header`, together with the branches behind it. -/
def armed {α : Type} (header : Text) (yes : Generated) (rest : Except Stuck α) :
    Except Stuck (List Code × α) :=
  match nested header yes, rest with
  | .ok cs, .ok a => .ok (cs, a)
  | .ok cs, .error s =>
    .error (s.behind (Target.outer header :: Target.inside (Code.entriesAll cs)))
  | .error s, _ => .error s

/-! ## Statements without statements inside -/

/-- A declaration in ADVPL. -/
def lowerVariable (v : Script.Variable) : Generated :=
  match v.value with
  | none => .ok [.line ("Local " ++ v.name.spelled)]
  | some e => do return [.line ("Local " ++ v.name.spelled ++ " := " ++ (← value (lower e)))]

/-- Elements appended to an array one by one. -/
def lowerPushes (receiver : Text) : List Script.Expr → Generated
  | [] => .ok []
  | e :: es =>
    sequence
      (do return [.line (Target.callText Method.push.function [receiver, ← value (lower e)])])
      (lowerPushes receiver es)

/-- An expression as a statement.  Several elements are appended to an array one by one. -/
def lowerExprStmt (e : Script.Expr) : Generated :=
  match e with
  | .call _ (.member _ o _ _) as =>
    if appendsSeveral e then do
      let receiver ← value (lower o)
      lowerPushes receiver as
    else do return [.line (← value (lowerStatement e))]
  | _ => do return [.line (← value (lowerStatement e))]

/-- What an output statement becomes. -/
def lowerOutputStmt (arguments : List Script.Expr) : Generated :=
  match lowerOutput arguments with
  | .ok o => .ok [.line (Target.callText Target.outputFunction [o.print])]
  | .error e => .error (.here e)

/-- What a `for` loop that does not count does first. -/
def lowerInit : Script.ForInit → Generated
  | .nothing => .ok []
  | .variable v => lowerVariable v
  | .expr e => do return [.line (← value (lowerStatement e))]

/-- The declaration of the variable that a counting loop declares. -/
def declaration : Script.ForInit → List Code
  | .variable v => [.line ("Local " ++ v.name.spelled)]
  | _ => []

/-- The test of a `for` loop, which always holds if there is none. -/
def lowerTest : Option Script.Expr → Except Stuck Text
  | some e => value (lower e)
  | none => .ok (Target.Expr.print (.boolean true))

/-- The update of a `for` loop. -/
def lowerUpdate : Option Script.Expr → Except Stuck (Option Text)
  | some e => do return some (← value (lowerStatement e))
  | none => .ok none

/-- The line that an update becomes. -/
def updateCode (update : Option Text) : List Code := update.toList.map .line

/-- The header of a function. -/
def functionHeader (words : Text) (name : Lexeme) (parameters : List Lexeme) : Text :=
  words ++ " " ++ Target.callText name.spelled (parameters.map Lexeme.spelled)

/-- Whether a function body ends with a `return`. -/
def endsWithReturn (body : List Script.Stmt) : Bool := body.getLast?.any Script.Stmt.isReturn

/-- A `for` loop, given what its body becomes inside a loop with a given update. -/
def lowerFor (init : Script.ForInit) (test update : Option Script.Expr)
    (body : Option Text → Generated) : Generated :=
  match Counting.ofLoop? init test update with
  | some c => do
    match c.limit with
    | .error e => .error (.here e)
    | .ok last =>
      sequence (.ok (declaration init)) (do
        match lower c.start with
        | .error e => .error (.here e)
        | .ok first =>
          let header := c.header first last
          return [.forLoop header (← nested ("For " ++ header) (body none))])
  | none =>
    sequence (lowerInit init) (do
      let test ← lowerTest test
      let update ← lowerUpdate update
      let inside ← nested ("While " ++ test) (body update)
      return [.whileLoop test (inside ++ updateCode update)])

/-! ## Statements -/

mutual

/-- A statement in ADVPL. -/
def lowerStmt (words : Text) (update : Option Text) : Script.Stmt → Generated
  | .lineComment _ t => .ok [.line (lineCommentText t)]
  | .blockComment _ t => .ok ((blockCommentLines t).map .line)
  | .importFrom _ source _ => .ok [.line ("#include \"" ++ includePath source ++ "\"")]
  | .exportDecl _ s _ _ => lowerStmt words update s
  | .exportValue _ e _ _ => do return [.line ("// export default " ++ (← value (lower e)))]
  | .exportNames _ names _ =>
    .ok [.line ("// exports: " ++ Target.commaList (names.map Lexeme.spelled))]
  | .variable v => lowerVariable v
  | .output _ _ as => lowerOutputStmt as
  | .function _ name parameters body => do
    let header := functionHeader words name parameters
    let inside ← nested header (lowerStmts words update body)
    return [.function header inside (endsWithReturn body)]
  | .ret _ none => .ok [.ret none]
  | .ret _ (some e) => do return [.ret (some (← value (lower e)))]
  | .ifThen _ test yes => do
    let test ← value (lower test)
    let inside ← nested ("If " ++ test) (lowerStmts words update yes)
    return [.branch test inside .done]
  | .ifElse _ test yes no => do
    let test ← value (lower test)
    let (inside, rest) ← armed ("If " ++ test) (lowerStmts words update yes)
      (lowerElse words update no)
    return [.branch test inside rest]
  | .forLoop _ init test change body =>
    lowerFor init test change fun inner ↦ lowerStmts words inner body
  | .whileLoop _ test body => do
    let test ← value (lower test)
    let inside ← nested ("While " ++ test) (lowerStmts words none body)
    return [.whileLoop test inside]
  | .breakLoop _ => .ok [.exit]
  | .continueLoop _ => .ok (updateCode update ++ [.loop])
  | .expr _ e => lowerExprStmt e
  | .foreign f => .error (.here ⟨.unknownStmt f.sort, f.pos⟩)

/-- What stands behind `else`.  A single `if` there continues the chain of branches. -/
def lowerElse (words : Text) (update : Option Text) : List Script.Stmt → Except Stuck Branches
  | [] => .ok (.otherwise [])
  | s :: ss =>
    if s.isIf ∧ ss.isEmpty then lowerElseIf words update s
    else do
      let inside ← nested "Else" (sequence (lowerStmt words update s) (lowerStmts words update ss))
      return .otherwise inside

/-- An `if` behind `else` as further branches. -/
def lowerElseIf (words : Text) (update : Option Text) : Script.Stmt → Except Stuck Branches
  | .ifThen _ test yes => do
    let test ← value (lower test)
    let inside ← nested ("ElseIf " ++ test) (lowerStmts words update yes)
    return .elseIf test inside .done
  | .ifElse _ test yes no => do
    let test ← value (lower test)
    let (inside, rest) ← armed ("ElseIf " ++ test) (lowerStmts words update yes)
      (lowerElse words update no)
    return .elseIf test inside rest
  | _ => .ok .done

/-- Statements in ADVPL. -/
def lowerStmts (words : Text) (update : Option Text) : List Script.Stmt → Generated
  | [] => .ok []
  | s :: ss => sequence (lowerStmt words update s) (lowerStmts words update ss)

end

end Advplc.Lowering

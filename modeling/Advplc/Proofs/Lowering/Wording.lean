import Advplc.Lowering.Comment
import Advplc.Lowering.Counting

/-!
# The lines of a program

A program is a tree, and the lines that it runs can be told from the tree: a statement without
statements inside stands for its `simpleLines`, a `for` loop begins with a line and repeats a line
if it has a beginning and an update, and `linesWithin` collects all these lines.  Which lines there
are is read off the tree alone.  Only the texts of the expressions in them are taken from generated
code, because that is what expressions are called there.
-/

set_option autoImplicit false

namespace Advplc.Lowering

/-! ## Texts of expressions -/

/-- The text of an ADVPL expression, which is empty if there is none. -/
def textOf (r : Except Error Target.Expr) : Text :=
  match r with
  | .ok e => e.print
  | .error _ => []

/-- The text of a value. -/
def valueText (e : Script.Expr) : Text := textOf (lower e)

/-- The text of an expression that is a statement, the beginning of a loop or its update. -/
def actionText (e : Script.Expr) : Text := textOf (lowerStatement e)

/-- The text of what an output statement writes. -/
def outputText (arguments : List Script.Expr) : Text :=
  match lowerOutput arguments with
  | .ok o => o.print
  | .error _ => []

/-- The text of the test of a loop.  One that is missing always holds. -/
def testText : Option Script.Expr → Text
  | some e => valueText e
  | none => ".T."

/-- The text of the range of a loop that counts. -/
def countText (c : Counting) : Text :=
  let range := c.name.spelled ++ " := " ++ valueText c.start ++ " To " ++ textOf c.limit
  if c.step = 1 then range else range ++ " Step " ++ Text.ofInt c.step

/-! ## Lines -/

/-- The line of a declaration. -/
def declarationLine (name : Lexeme) : Option Script.Expr → Text
  | none => "Local " ++ name.spelled
  | some e => "Local " ++ name.spelled ++ " := " ++ valueText e

/-- The line that appends an element to an array. -/
def pushLine (array element : Script.Expr) : Text :=
  Target.callText "aAdd" [valueText array, valueText element]

/-- The lines of an expression that is a statement.  Where several elements are appended to an
array, there is one for each of them. -/
def actionLines (e : Script.Expr) : List Text :=
  match e with
  | .call _ (.member _ o _ _) as =>
    if appendsSeveral e then as.map (pushLine o) else [actionText e]
  | _ => [actionText e]

/-- Whether a statement has no statements inside and is not a jump. -/
def isSimple : Script.Stmt → Bool
  | .lineComment _ _ | .blockComment _ _ | .importFrom _ _ _ | .exportValue _ _ _ _
  | .exportNames _ _ _ | .variable _ | .output _ _ _ | .expr _ _ => true
  | _ => false

/-- The lines of a simple statement; others have no lines of their own. -/
def simpleLines : Script.Stmt → List Text
  | .lineComment _ t => [lineCommentText t]
  | .blockComment _ t => blockCommentLines t
  | .importFrom _ source _ => ["#include \"" ++ includePath source ++ "\""]
  | .exportValue _ e _ _ => ["// export default " ++ valueText e]
  | .exportNames _ names _ => ["// exports: " ++ Target.commaList (names.map Lexeme.spelled)]
  | .variable v => [declarationLine v.name v.value]
  | .output _ _ as => [Target.callText "ConOut" [outputText as]]
  | .expr _ e => actionLines e
  | _ => []

/-- The lines that a loop begins with which does not count. -/
def initLines : Script.ForInit → List Text
  | .nothing => []
  | .variable v => [declarationLine v.name v.value]
  | .expr e => [actionText e]

/-- The lines that a loop begins with which counts.  The first value of its variable belongs to the
counting. -/
def counterLines : Script.ForInit → List Text
  | .variable v => [declarationLine v.name none]
  | _ => []

/-- The lines of a `for` loop, without those of its body. -/
def forLines (init : Script.ForInit) (test change : Option Script.Expr) : List Text :=
  match Counting.ofLoop? init test change with
  | some _ => counterLines init
  | none => initLines init ++ (change.map actionText).toList

mutual

/-- All lines that a statement may run.  What functions do is left out. -/
def linesWithin : Script.Stmt → List Text
  | .ifThen _ _ yes => linesWithinAll yes
  | .ifElse _ _ yes no => linesWithinAll yes ++ linesWithinAll no
  | .forLoop _ init test change body => forLines init test change ++ linesWithinAll body
  | .whileLoop _ _ body => linesWithinAll body
  | .exportDecl _ s _ _ => linesWithin s
  | s => simpleLines s

/-- All lines that statements may run. -/
def linesWithinAll : List Script.Stmt → List Text
  | [] => []
  | s :: ss => linesWithin s ++ linesWithinAll ss

end

end Advplc.Lowering

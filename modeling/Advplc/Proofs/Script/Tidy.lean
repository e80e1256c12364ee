import Advplc.Proofs.Script.Parts
import Advplc.Proofs.Target.Lines

/-!
# Programs whose words stay on their lines

A program is *tidy* if the names, numerals, operators and line comments in it have no line feed in
them, and no template has more holes than chunks.  Nothing is said about the texts of strings, the
keys of objects and the paths of modules, in which a line feed may be escaped.
-/

set_option autoImplicit false

namespace Advplc.Script

mutual

/-- Whether the words of an expression stay on their lines. -/
def Expr.Tidy : Expr → Prop
  | .number _ n | .name _ n => n.spelled.broken = false
  | .template _ cs hs => hs.length ≤ cs.length ∧ Expr.AllTidy hs
  | .binary _ _ l r | .assign _ _ l r | .index _ l r => l.Tidy ∧ r.Tidy
  | .unary _ _ e => e.Tidy
  | .update _ op _ e => op.spelled.broken = false ∧ e.Tidy
  | .member _ e n _ => e.Tidy ∧ n.spelled.broken = false
  | .conditional _ t y n => t.Tidy ∧ y.Tidy ∧ n.Tidy
  | .object _ ps => Expr.AllTidyValues ps
  | .array _ es => Expr.AllTidy es
  | .call _ f as | .new _ f as => f.Tidy ∧ Expr.AllTidy as
  | .string _ _ | .boolean _ _ | .null _ | .this _ | .foreign _ => True

/-- Whether the words of all expressions of a list stay on their lines. -/
def Expr.AllTidy : List Expr → Prop
  | [] => True
  | e :: es => e.Tidy ∧ Expr.AllTidy es

/-- Whether the words in the values of all properties stay on their lines. -/
def Expr.AllTidyValues : List (Lexeme × Expr) → Prop
  | [] => True
  | (_, v) :: ps => v.Tidy ∧ Expr.AllTidyValues ps

end

/-- Whether the words of a declaration stay on their lines. -/
def Variable.Tidy (v : Variable) : Prop :=
  v.name.spelled.broken = false ∧ Expr.AllTidy v.value.toList

/-- Whether the words in the first part of a `for` loop stay on their lines. -/
def ForInit.Tidy : ForInit → Prop
  | .nothing => True
  | .variable v => v.Tidy
  | .expr e => e.Tidy

mutual

/-- Whether the words of a statement stay on their lines. -/
def Stmt.Tidy : Stmt → Prop
  | .lineComment _ t => t.broken = false
  | .exportDecl _ s _ _ => s.Tidy
  | .exportValue _ e _ _ | .expr _ e => e.Tidy
  | .exportNames _ ns _ => ∀ n ∈ ns, n.spelled.broken = false
  | .variable v => v.Tidy
  | .output _ _ as => Expr.AllTidy as
  | .function _ n ps b =>
    n.spelled.broken = false ∧ (∀ p ∈ ps, p.spelled.broken = false) ∧ Stmt.AllTidy b
  | .ret _ v => Expr.AllTidy v.toList
  | .ifThen _ t b | .whileLoop _ t b => t.Tidy ∧ Stmt.AllTidy b
  | .ifElse _ t y n => t.Tidy ∧ Stmt.AllTidy y ∧ Stmt.AllTidy n
  | .forLoop _ i t u b =>
    i.Tidy ∧ Expr.AllTidy t.toList ∧ Expr.AllTidy u.toList ∧ Stmt.AllTidy b
  | .blockComment _ _ | .importFrom _ _ _ | .breakLoop _ | .continueLoop _ | .foreign _ => True

/-- Whether the words of all statements stay on their lines. -/
def Stmt.AllTidy : List Stmt → Prop
  | [] => True
  | s :: ss => s.Tidy ∧ Stmt.AllTidy ss

end

end Advplc.Script

import Advplc.Script.Same

/-!
# Foreign things in a tree

How the things that may stand in the place of a node are described: plain values by their usual
spelling, nodes of an unknown sort by that sort alone, and nodes that are known but misplaced by the
descriptions they have in their own place.  Plain values are compared by what they are worth,
misplaced nodes by their full descriptions.
-/

set_option autoImplicit false

namespace Advplc.Script

namespace Foreign

/-- A missing value. -/
def missing : Foreign := ⟨"NoneType", none, "None", "None", some "None"⟩

/-- A truth value, which is worth one or nothing. -/
def boolean (b : Bool) : Foreign :=
  ⟨"bool", none, shownBool b, shownBool b, some (Text.ofNat b.toNat)⟩

/-- An integer. -/
def integer (n : Int) : Foreign :=
  ⟨"int", none, Text.ofInt n, Text.ofInt n, some (Text.ofInt n)⟩

/-- A decimal fraction, given by its spelling. -/
def decimal (spelling : Text) : Foreign := ⟨"float", none, spelling, spelling, some spelling⟩

/-- A text. -/
def text (t : Text) : Foreign := ⟨"str", none, t, t.quoted, some t.quoted⟩

/-- A list of things. -/
def list (items : List Foreign) : Foreign :=
  let spelling := brackets (items.map Foreign.inspected)
  ⟨"list", none, spelling, spelling, (items.mapM Foreign.identity).map brackets⟩

/-- A node of an unknown sort. -/
def unknown (sort : Text) (pos : Option Pos) : Foreign :=
  ⟨sort, pos, node sort [], node sort [], none⟩

/-- A node by its full description, if it agrees with itself. -/
def identityIf (agrees : Bool) (inspected : Text) : Option Text :=
  if agrees then some inspected else none

/-- An expression in the place of something else. -/
def ofExpr (e : Expr) : Foreign :=
  ⟨e.sort, e.pos, e.shown, e.inspected, identityIf (e.same e) e.inspected⟩

/-- A statement in the place of something else. -/
def ofStmt (s : Stmt) : Foreign :=
  ⟨s.sort, s.pos, s.shown, s.inspected, identityIf (s.same s) s.inspected⟩

/-- A program in the place of something else. -/
def ofProgram (p : Program) : Foreign :=
  ⟨"Program", p.pos, p.shown, p.inspected,
    identityIf (Root.same (.program p) (.program p)) p.inspected⟩

end Foreign

end Advplc.Script

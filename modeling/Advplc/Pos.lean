import Advplc.Text.Basic

/-!
# Positions

A position is a line and a column.  There is one rule for moving through a text: a line feed goes to
the first column of the next line, and every other code point goes one column on.  The lexer, the
end of a token stream and the holes of a template all find their positions by this rule, which is
why they agree with each other.

Lines and columns are integers, because a token that was put together by hand may carry any.
-/

set_option autoImplicit false

namespace Advplc

/-- A place in a source: a line and a column, both counted from one in an ordinary source. -/
structure Pos where
  /-- The line. -/
  line : Int
  /-- The column, in code points. -/
  column : Int
deriving DecidableEq

namespace Pos

/-- Where a source begins. -/
def origin : Pos := ⟨1, 1⟩

/-- The position after one code point. -/
def step (p : Pos) (c : CodePoint) : Pos :=
  if c = '\n' then ⟨p.line + 1, 1⟩ else ⟨p.line, p.column + 1⟩

/-- The position after a text. -/
def advance (p : Pos) (t : Text) : Pos := t.foldl step p

@[simp] theorem advance_nil (p : Pos) : p.advance [] = p := rfl

@[simp] theorem advance_cons (p : Pos) (c : CodePoint) (t : Text) :
    p.advance (c :: t) = (p.step c).advance t := rfl

theorem advance_append (p : Pos) (s t : Text) : p.advance (s ++ t) = (p.advance s).advance t :=
  List.foldl_append

/-- A position as `line:column`. -/
def label (p : Pos) : Text := Text.ofInt p.line ++ ":" ++ Text.ofInt p.column

/-- A position as it is named in a message. -/
def describe (p : Pos) : Text :=
  "line " ++ Text.ofInt p.line ++ ", column " ++ Text.ofInt p.column

end Pos

end Advplc

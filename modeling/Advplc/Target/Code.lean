import Advplc.Target.Expr

/-!
# ADVPL code

Generated code is a list of `Code`s.  A loop, a branch or a function is one `Code` with its body
inside, so a block is closed exactly once and by its own keyword whatever its body is.

`entries` lays code out as a list of lines, each with the number of blocks around it; the
indentation is put in only when the lines are written.
-/

set_option autoImplicit false

namespace Advplc.Target

/-- A line of code: how many blocks it stands in, and its text without indentation. -/
structure Entry where
  /-- The number of blocks around the line. -/
  depth : Nat
  /-- The text of the line. -/
  text : Text
deriving DecidableEq

mutual

/-- A piece of code. -/
inductive Code where
  /-- One line that is executed or stands for itself. -/
  | line (text : Text)
  /-- Leaves the function. -/
  | ret (value : Option Text)
  /-- Leaves the innermost loop. -/
  | exit
  /-- Goes on with the next round of the innermost loop. -/
  | loop
  | whileLoop (test : Text) (body : List Code)
  /-- A loop over the values of a variable, which the header names with their limits. -/
  | forLoop (header : Text) (body : List Code)
  | branch (test : Text) (yes : List Code) (rest : Branches)
  /-- A function, closed by a `Return` of its own unless it ends with one. -/
  | function (header : Text) (body : List Code) (ends : Bool)

/-- What follows the first branch of an `If`. -/
inductive Branches where
  | done
  | otherwise (body : List Code)
  | elseIf (test : Text) (yes : List Code) (rest : Branches)

end

/-- The line one block deeper. -/
def Entry.deeper (e : Entry) : Entry := { e with depth := e.depth + 1 }

/-- Lines as the inside of a block. -/
def inside (es : List Entry) : List Entry := es.map Entry.deeper

/-- A line at the outermost level. -/
def outer (text : Text) : Entry := ⟨0, text⟩

mutual

/-- The lines of a piece of code. -/
def Code.entries : Code → List Entry
  | .line t => [outer t]
  | .ret none => [outer "Return"]
  | .ret (some v) => [outer ("Return " ++ v)]
  | .exit => [outer "Exit"]
  | .loop => [outer "Loop"]
  | .whileLoop test body =>
    [outer ("While " ++ test)] ++ inside (Code.entriesAll body) ++ [outer "EndDo"]
  | .forLoop header body =>
    [outer ("For " ++ header)] ++ inside (Code.entriesAll body) ++ [outer "Next"]
  | .branch test yes rest =>
    [outer ("If " ++ test)] ++ inside (Code.entriesAll yes) ++ rest.entries ++ [outer "EndIf"]
  | .function header body ends =>
    [outer header] ++ inside (Code.entriesAll body) ++
      (if ends then [] else [outer "Return"]) ++ [outer []]

/-- The lines of the further branches of an `If`. -/
def Branches.entries : Branches → List Entry
  | .done => []
  | .otherwise body => [outer "Else"] ++ inside (Code.entriesAll body)
  | .elseIf test yes rest =>
    [outer ("ElseIf " ++ test)] ++ inside (Code.entriesAll yes) ++ rest.entries

/-- The lines of several pieces of code. -/
def Code.entriesAll : List Code → List Entry
  | [] => []
  | c :: cs => c.entries ++ Code.entriesAll cs

end

@[simp] theorem Code.entriesAll_append (cs ds : List Code) :
    Code.entriesAll (cs ++ ds) = Code.entriesAll cs ++ Code.entriesAll ds := by
  induction cs with
  | nil => simp [Code.entriesAll]
  | cons c cs ih => simp [Code.entriesAll, ih]

end Advplc.Target

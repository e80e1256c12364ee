import Advplc.Lowering.Expr

/-!
# Counting loops

ADVPL has a loop that counts a variable from one value to another, the last one included, by a fixed
step.  A `for` loop counts if it starts a variable at a value, compares that variable with a bound,
and changes it by a known step in the direction of the bound.  `Counting.ofLoop?` recognises such
loops.

A bound that the variable must stay below, or above, becomes the last value by moving it by one.
-/

set_option autoImplicit false

namespace Advplc.Lowering

/-- How the variable of a counting loop is compared with the bound. -/
inductive Comparison where
  | less
  | lessEqual
  | greater
  | greaterEqual
deriving DecidableEq

namespace Comparison

/-- The comparison that an operator makes. -/
def ofOperator? (op : Lexeme) : Option Comparison :=
  if op = "<" then some .less
  else if op = "<=" then some .lessEqual
  else if op = ">" then some .greater
  else if op = ">=" then some .greaterEqual
  else none

/-- Whether the variable counts up to the bound. -/
def ascending : Comparison → Bool
  | less | lessEqual => true
  | greater | greaterEqual => false

end Comparison

/-- A loop that counts. -/
structure Counting where
  /-- The variable. -/
  name : Lexeme
  /-- Its first value. -/
  start : Script.Expr
  /-- How it is compared with the bound. -/
  comparison : Comparison
  /-- The bound. -/
  bound : Script.Expr
  /-- What is added to it in each round. -/
  step : Int

namespace Counting

/-- The variable a loop starts, and its first value. -/
def startOf? : Script.ForInit → Option (Lexeme × Script.Expr)
  | .variable v => v.value.map fun e ↦ (v.name, e)
  | .expr (.assign _ op (.name _ n) e) => if op = "=" then some (n, e) else none
  | _ => none

/-- The comparison of the variable `name` that a test makes, and what it is compared with. -/
def boundOf? (name : Lexeme) : Option Script.Expr → Option (Comparison × Script.Expr)
  | some (.binary _ op (.name _ n) e) =>
    if n = name then (Comparison.ofOperator? op).map fun c ↦ (c, e) else none
  | _ => none

/-- What an update adds to the variable `name`, if that is known. -/
def stepOf? (name : Lexeme) : Option Script.Expr → Option Int
  | some (.update _ op _ (.name _ n)) =>
    if n = name then some (if op = "++" then 1 else -1) else none
  | some (.assign _ op (.name _ n) e) =>
    if n = name then
      if op = "+=" then (natural? e).map Int.ofNat
      else if op = "-=" then (natural? e).map fun k ↦ -Int.ofNat k
      else none
    else none
  | _ => none

/-- The loop that counts in the same way as the `for` loop with these parts, if it does count. -/
def ofLoop? (init : Script.ForInit) (test update : Option Script.Expr) : Option Counting := do
  let (name, start) ← startOf? init
  let (comparison, bound) ← boundOf? name test
  let step ← stepOf? name update
  if step ≠ 0 ∧ comparison.ascending = decide (0 < step) then
    return ⟨name, start, comparison, bound, step⟩
  else none

/-- The last value that the variable may have. -/
def limit (c : Counting) : Except Error Target.Expr :=
  match c.comparison with
  | .less => lowerShifted c.bound (-1)
  | .greater => lowerShifted c.bound 1
  | .lessEqual | .greaterEqual => lower c.bound

/-- The header of the loop, given its first and its last value. -/
def header (c : Counting) (first last : Target.Expr) : Text :=
  let range := c.name.spelled ++ " := " ++ first.print ++ " To " ++ last.print
  if c.step = 1 then range else range ++ " Step " ++ Text.ofInt c.step

end Counting

end Advplc.Lowering

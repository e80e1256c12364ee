import Advplc.Lowering.Error
import Advplc.Script.Syntax
import Advplc.Target.Expr
import Advplc.Text.Digit

/-!
# Expressions in ADVPL

`lower` turns an expression of the source language into an ADVPL expression.  Most nodes have a
direct counterpart.  The exceptions are the members that ADVPL only has as functions (`a.length`,
`a.push(x)` and a few more), whose object becomes the first argument, and `substring`, whose
arguments are a start from zero and an end, where ADVPL wants a start from one and a count.  That
arithmetic is done on the spot where the numbers are known.

An expression is refused if it holds a node that is not an expression, an operator that ADVPL has no
counterpart for, or a `push` that does not append exactly one element.  Of several reasons the first
one met is reported: an operator before its operands, arguments before the object they are passed
to.
-/

set_option autoImplicit false

namespace Advplc.Lowering

open Script (Side)

/-! ## Tables -/

/-- The ADVPL operator for a binary operator.  There is no strict equality. -/
def binaryOperators : List (Lexeme × Text) :=
  [("===", "=="), ("!==", "!="), ("==", "=="), ("!=", "!="), ("<", "<"), (">", ">"), ("<=", "<="),
   (">=", ">="), ("+", "+"), ("-", "-"), ("*", "*"), ("/", "/"), ("%", "%"), ("&&", ".And."),
   ("||", ".Or.")]

/-- The ADVPL operator for a unary operator, with the space it needs behind it. -/
def unaryOperators : List (Lexeme × Text) := [("!", ".Not. "), ("-", "-"), ("+", "+")]

/-- The ADVPL operator for an assignment operator. -/
def assignmentOperators : List (Lexeme × Text) :=
  [("=", ":="), ("+=", "+="), ("-=", "-="), ("*=", "*="), ("/=", "/=")]

/-- The functions with a counterpart of another name. -/
def globalFunctions : List (Lexeme × Text) :=
  [("String", "cValToChar"), ("parseInt", "Val"), ("parseFloat", "Val")]

/-- The methods that ADVPL has as functions. -/
inductive Method where
  | push
  | toUpperCase
  | toLowerCase
  | substring
  | indexOf
deriving DecidableEq

/-- The method of a given name. -/
def Method.ofName? (name : Lexeme) : Option Method :=
  if name = "push" then some .push
  else if name = "toUpperCase" then some .toUpperCase
  else if name = "toLowerCase" then some .toLowerCase
  else if name = "substring" then some .substring
  else if name = "indexOf" then some .indexOf
  else none

/-- The function that takes the place of a method. -/
def Method.function : Method → Text
  | push => "aAdd"
  | toUpperCase => "Upper"
  | toLowerCase => "Lower"
  | substring => "SubStr"
  | indexOf => "aScan"

/-- The function that takes the place of the member `length`. -/
def lengthFunction : Text := "Len"

/-- A call of a function by its name. -/
def apply (function : Text) (arguments : List Target.Expr) : Target.Expr :=
  .call (.name function) arguments

/-! ## Arithmetic that is done on the spot -/

/-- The number an expression is, if it is an integer literal. -/
def natural? : Script.Expr → Option Nat
  | .number _ (.text t) => t.natural?
  | _ => none

/-- The value of `node` plus `delta`, where `e` is what `node` is turned into. -/
def shift (node : Script.Expr) (e : Target.Expr) (delta : Int) : Target.Expr :=
  match natural? node with
  | some n => .integer (n + delta)
  | none => .binary (if 0 < delta then "+" else "-") e (.integer delta.natAbs)

/-- The value of `last` minus the value of `start`, where `l` and `s` are what they become. -/
def distance (start : Script.Expr) (s : Target.Expr) (last : Script.Expr) (l : Target.Expr) :
    Target.Expr :=
  match natural? start, natural? last with
  | some m, some n => .integer (n - m)
  | some 0, none => l
  | _, _ => .binary "-" l s

/-! ## Methods -/

/-- A call of a method as a call of the function that takes its place.  `receiver` is what the
method is called on, at `pos`; each argument comes with what it is turned into. -/
def applyMethod (m : Method) (pos : Option Pos) (receiver : Target.Expr)
    (arguments : List (Script.Expr × Target.Expr)) : Except Error Target.Expr :=
  match m, arguments with
  | .substring, [] => .ok (apply m.function [receiver, .integer 1])
  | .substring, [(start, s)] => .ok (apply m.function [receiver, shift start s 1])
  | .substring, (start, s) :: (last, l) :: _ =>
    .ok (apply m.function [receiver, shift start s 1, distance start s last l])
  | .toUpperCase, _ | .toLowerCase, _ => .ok (apply m.function [receiver])
  | .push, [(_, e)] => .ok (apply m.function [receiver, e])
  | .push, _ => .error ⟨.pushCount arguments.length, pos⟩
  | .indexOf, _ => .ok (apply m.function (receiver :: arguments.map Prod.snd))

/-! ## Expressions -/

/-- The pieces of a chunk of a template, none if it is empty. -/
def chunkPieces (chunk : Text) : List Target.Piece :=
  if chunk.isEmpty then [] else Target.Piece.ofText chunk

/-- The pieces of a string, which are at least one. -/
def orEmpty : List Target.Piece → List Target.Piece
  | [] => [.literal []]
  | pieces => pieces

/-- Whether a unary operator needs parentheses around this operand, so that it does not run into the
operator that the operand begins with. -/
def startsWithOperator : Script.Expr → Bool
  | .unary _ _ _ | .update _ _ _ _ => true
  | _ => false

/-- Whether an expression is the object that the code belongs to. -/
def isThis : Script.Expr → Bool
  | .this _ => true
  | _ => false

/-- An operand of a unary operator. -/
def unaryOperand (node : Script.Expr) (e : Target.Expr) : Target.Expr :=
  if startsWithOperator node then .group e else e

mutual

/-- An expression in ADVPL. -/
def lower : Script.Expr → Except Error Target.Expr
  | .number _ n => .ok (.number n.spelled)
  | .string _ v => .ok (.ofText v)
  | .template _ chunks holes => do
    let pieces ← lowerTemplate chunks holes
    return .concat (orEmpty pieces)
  | .boolean _ b => .ok (.boolean b)
  | .null _ => .ok .nil
  | .this _ => .ok .self
  | .name _ n => .ok (.name n.spelled)
  | .binary pos op l r =>
    match binaryOperators.lookup op with
    | none => .error ⟨.binaryOperator op.spelled, pos⟩
    | some o => do return .binary o (← lower l) (← lower r)
  | .unary pos op e =>
    match unaryOperators.lookup op with
    | none => .error ⟨.unaryOperator op.spelled, pos⟩
    | some o => do return .before o (unaryOperand e (← lower e))
  | .update _ op .before e => do return .before op.spelled (← lower e)
  | .update _ op .after e => do return .after op.spelled (← lower e)
  | .assign pos op t v =>
    match assignmentOperators.lookup op with
    | none => .error ⟨.assignmentOperator op.spelled, pos⟩
    | some o => do return .group (.assign o (← lower t) (← lower v))
  | .conditional _ t y n => do return .choice (← lower t) (← lower y) (← lower n)
  | .object _ ps => do return .hash (← lowerProperties ps)
  | .array _ es => do return .array (← lowerAll es)
  | .index _ o k => do return .index (← lower o) (← lower k)
  | .member _ o n _ => do
    if n = "length" then return apply lengthFunction [← lower o]
    else if isThis o then return .ownMember n.spelled
    else return .member (← lower o) n.spelled
  | .call _ (.member _ o n _) as => do
    let args ← lowerAll as
    match Method.ofName? n with
    | some m => applyMethod m o.pos (← lower o) (as.zip args)
    | none =>
      if isThis o then return .ownMethod n.spelled args
      else return .method (← lower o) n.spelled args
  | .call _ (.name _ n) as => do
    return apply ((globalFunctions.lookup n).getD n.spelled) (← lowerAll as)
  | .call _ f as => do
    let args ← lowerAll as
    return .call (← lower f) args
  | .new _ f as => do
    let args ← lowerAll as
    return .construct (← lower f) args
  | .foreign f => .error ⟨.unknownExpr f.sort, f.pos⟩

/-- Expressions in ADVPL. -/
def lowerAll : List Script.Expr → Except Error (List Target.Expr)
  | [] => .ok []
  | e :: es => do
    let e' ← lower e
    return e' :: (← lowerAll es)

/-- The properties of an object in ADVPL. -/
def lowerProperties : List (Lexeme × Script.Expr) → Except Error (List (Text × Target.Expr))
  | [] => .ok []
  | (k, v) :: ps => do
    let v' ← lower v
    return (k.spelled, v') :: (← lowerProperties ps)

/-- The pieces of a template: each chunk, and behind it the value of its hole, if it has one. -/
def lowerTemplate : List Text → List Script.Expr → Except Error (List Target.Piece)
  | cs, [] => .ok (cs.flatMap chunkPieces)
  | [], _ :: _ => .ok []
  | c :: cs, e :: es => do
    let e' ← lower e
    return chunkPieces c ++ .value e' :: (← lowerTemplate cs es)

end

/-- An assignment in ADVPL, without parentheses. -/
def lowerAssign (pos : Option Pos) (op : Lexeme) (t v : Script.Expr) :
    Except Error Target.Expr :=
  match assignmentOperators.lookup op with
  | none => .error ⟨.assignmentOperator op.spelled, pos⟩
  | some o => do return .assign o (← lower t) (← lower v)

/-- An expression that is a whole statement, where an assignment needs no parentheses. -/
def lowerStatement : Script.Expr → Except Error Target.Expr
  | .assign pos op t v => lowerAssign pos op t v
  | e => lower e

/-- The value of an expression plus `delta`. -/
def lowerShifted (e : Script.Expr) (delta : Int) : Except Error Target.Expr := do
  return shift e (← lower e) delta

/-- The value of `last` minus the value of `start`. -/
def lowerDistance (start last : Script.Expr) : Except Error Target.Expr := do
  let l ← lower last
  return distance start (← lower start) last l

/-! ## Output -/

/-- What an output statement writes: one value as it is, or a concatenation. -/
inductive Output where
  | value (e : Target.Expr)
  | pieces (ps : List Target.Piece)

/-- The argument of the output function. -/
def Output.print : Output → Text
  | .value e => e.print
  | .pieces ps => Target.sum (Target.Piece.printAll ps)

/-- One of several arguments of an output statement.  What is not text is converted to text. -/
def outputPieces : Script.Expr → Except Error (List Target.Piece)
  | .string _ v => .ok (Target.Piece.ofText v)
  | .template _ chunks holes => do return orEmpty (← lowerTemplate chunks holes)
  | e => do return [.value (← lower e)]

/-- The arguments of an output statement, one after another. -/
def outputAll : List Script.Expr → Except Error (List Target.Piece)
  | [] => .ok []
  | e :: es => do
    let ps ← outputPieces e
    return ps ++ (← outputAll es)

/-- What an output statement with these arguments writes. -/
def lowerOutput : List Script.Expr → Except Error Output
  | [] => .ok (.pieces [.literal []])
  | [.string _ v] => .ok (.pieces (Target.Piece.ofText v))
  | [.template _ chunks holes] => do return .pieces (orEmpty (← lowerTemplate chunks holes))
  | [e] => do return .value (← lower e)
  | es => do return .pieces (← outputAll es)

/-! ## Appending to arrays -/

/-- Whether an expression appends to an array. -/
def isPush : Script.Expr → Bool
  | .call _ (.member _ _ n _) _ => n = "push"
  | _ => false

/-- Whether an expression appends several elements to an array. -/
def appendsSeveral (e : Script.Expr) : Bool :=
  match e with
  | .call _ _ as => isPush e && 1 < as.length
  | _ => false

theorem appendsSeveral_call {pos pos' namePos : Option Pos} {o : Script.Expr} {n : Lexeme}
    {as : List Script.Expr} :
    appendsSeveral (.call pos (.member pos' o n namePos) as) = true ↔
      n = "push" ∧ 1 < as.length := by
  rw [appendsSeveral, isPush, Bool.and_eq_true, decide_eq_true_iff, decide_eq_true_iff]

end Advplc.Lowering

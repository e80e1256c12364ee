import Advplc.Pos

/-!
# Why code cannot be generated

A tree that was parsed has one flaw at most that stops code from being generated, a `push` with the
wrong number of arguments.  The other causes are for trees that were put together by hand.  An error
carries the position of the node it is about, if that node has one.
-/

set_option autoImplicit false

namespace Advplc.Lowering

/-- What is wrong with a node. -/
inductive Cause where
  /-- There is something else where a program should be. -/
  | notProgram (sort : Text)
  | unknownStmt (sort : Text)
  | unknownExpr (sort : Text)
  | binaryOperator (operator : Text)
  | unaryOperator (operator : Text)
  | assignmentOperator (operator : Text)
  /-- An array can only be appended to one element at a time. -/
  | pushCount (given : Nat)
deriving DecidableEq

/-- What is said about a cause. -/
def Cause.message : Cause → Text
  | notProgram sort => "Expected Program node, got " ++ sort
  | unknownStmt sort => "Unknown statement node: " ++ sort
  | unknownExpr sort => "Unknown expression node: " ++ sort
  | binaryOperator op => "Unsupported binary operator '" ++ op ++ "'"
  | unaryOperator op => "Unsupported unary operator '" ++ op ++ "'"
  | assignmentOperator op => "Unsupported assignment operator '" ++ op ++ "'"
  | pushCount n => "aAdd appends exactly one element, push() got " ++ Text.ofNat n ++ " arguments"

/-- Why code cannot be generated. -/
structure Error where
  /-- What is wrong. -/
  cause : Cause
  /-- Where it is wrong. -/
  pos : Option Pos
deriving DecidableEq

/-- What the error says, with its position in front. -/
def Error.message (e : Error) : Text :=
  match e.pos with
  | some p => p.label ++ ": " ++ e.cause.message
  | none => e.cause.message

end Advplc.Lowering

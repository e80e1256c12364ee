import Advplc.Token.Basic

/-!
# Program trees

The source language is a small part of JavaScript.  Its programs are lists of statements, and
statements contain expressions; expressions never contain statements, so the two are separate types.

Names, numerals, operators and object keys are the lexemes that they were read from.  A string, a
comment and a chunk of a template are texts, because reading them takes something off: the quotes,
the delimiters, the escapes.

A tree can also be put together by hand, and then a place for a node may hold something that is none
of the nodes that fit there: a node of another language, a statement in the place of an expression,
or a plain value.  Such a thing is a `Foreign`.  It is a leaf of the tree that can be shown and
compared, but not compiled.
-/

set_option autoImplicit false

namespace Advplc.Script

/-- Something in the place of a node that is none of the nodes that fit there. -/
structure Foreign where
  /-- What sort of thing it is. -/
  sort : Text
  /-- Its position, if it has one. -/
  pos : Option Pos
  /-- Its short description. -/
  shown : Text
  /-- Its full description. -/
  inspected : Text
  /-- What it is compared by.  A thing without it is not the same as anything, itself included. -/
  identity : Option Text
deriving DecidableEq

/-- On which side of its operand `++` or `--` stands. -/
inductive Side where
  | before
  | after
deriving DecidableEq

/-- An expression.  Every expression may have a position, which is the position of the first token
it was read from, opening parentheses apart. -/
inductive Expr where
  | number (pos : Option Pos) (numeral : Lexeme)
  | string (pos : Option Pos) (value : Text)
  /-- Chunks of text with the values of expressions between them. -/
  | template (pos : Option Pos) (chunks : List Text) (holes : List Expr)
  | boolean (pos : Option Pos) (value : Bool)
  | null (pos : Option Pos)
  | name (pos : Option Pos) (name : Lexeme)
  | this (pos : Option Pos)
  | binary (pos : Option Pos) (operator : Lexeme) (left right : Expr)
  | unary (pos : Option Pos) (operator : Lexeme) (operand : Expr)
  | update (pos : Option Pos) (operator : Lexeme) (side : Side) (operand : Expr)
  | assign (pos : Option Pos) (operator : Lexeme) (target value : Expr)
  | conditional (pos : Option Pos) (test yes no : Expr)
  | object (pos : Option Pos) (properties : List (Lexeme × Expr))
  | array (pos : Option Pos) (elements : List Expr)
  /-- A property by name, `object.name`; `namePos` is the position of the name. -/
  | member (pos : Option Pos) (object : Expr) (name : Lexeme) (namePos : Option Pos)
  /-- A property by value, `object[key]`. -/
  | index (pos : Option Pos) (object key : Expr)
  | call (pos : Option Pos) (callee : Expr) (arguments : List Expr)
  | new (pos : Option Pos) (callee : Expr) (arguments : List Expr)
  | foreign (thing : Foreign)

/-- The position of an expression. -/
def Expr.pos : Expr → Option Pos
  | .number p _ | .string p _ | .template p _ _ | .boolean p _ | .null p | .name p _ | .this p
  | .binary p _ _ _ | .unary p _ _ | .update p _ _ _ | .assign p _ _ _ | .conditional p _ _ _
  | .object p _ | .array p _ | .member p _ _ _ | .index p _ _ | .call p _ _ | .new p _ _ => p
  | .foreign f => f.pos

/-- The declaration of a variable, with its first value if it has one. -/
structure Variable where
  /-- The position of the declaration. -/
  pos : Option Pos
  /-- The name of the variable. -/
  name : Lexeme
  /-- Its first value. -/
  value : Option Expr
  /-- The word that declares it. -/
  word : Lexeme

/-- What a `for` loop does first. -/
inductive ForInit where
  | nothing
  | variable (v : Variable)
  | expr (e : Expr)

/-- One name that an `import` brings in: how it is imported, its name in the module, and its name
here. -/
structure Specifier where
  /-- How the name is imported: as the default, by name, or as the whole module. -/
  form : Lexeme
  /-- Its name in the module. -/
  name : Lexeme
  /-- Its name here. -/
  localName : Lexeme
deriving DecidableEq

/-- The two statements that write output. -/
inductive Output where
  | print
  | console
deriving DecidableEq

/-- A statement.  Its position is the position of its first token. -/
inductive Stmt where
  | lineComment (pos : Option Pos) (text : Text)
  | blockComment (pos : Option Pos) (text : Text)
  | importFrom (pos : Option Pos) (source : Text) (specifiers : List Specifier)
  /-- An exported declaration. -/
  | exportDecl (pos : Option Pos) (declaration : Stmt) (names : List Lexeme) (byDefault : Bool)
  /-- An exported value. -/
  | exportValue (pos : Option Pos) (value : Expr) (names : List Lexeme) (byDefault : Bool)
  /-- Exported names. -/
  | exportNames (pos : Option Pos) (names : List Lexeme) (byDefault : Bool)
  | variable (declared : Variable)
  | output (pos : Option Pos) (form : Output) (arguments : List Expr)
  | function (pos : Option Pos) (name : Lexeme) (parameters : List Lexeme) (body : List Stmt)
  | ret (pos : Option Pos) (value : Option Expr)
  /-- An `if` without an `else`. -/
  | ifThen (pos : Option Pos) (test : Expr) (yes : List Stmt)
  /-- An `if` with an `else`. -/
  | ifElse (pos : Option Pos) (test : Expr) (yes no : List Stmt)
  | forLoop (pos : Option Pos) (init : ForInit) (test update : Option Expr) (body : List Stmt)
  | whileLoop (pos : Option Pos) (test : Expr) (body : List Stmt)
  | breakLoop (pos : Option Pos)
  | continueLoop (pos : Option Pos)
  | expr (pos : Option Pos) (value : Expr)
  | foreign (thing : Foreign)

/-- The position of a statement. -/
def Stmt.pos : Stmt → Option Pos
  | .lineComment p _ | .blockComment p _ | .importFrom p _ _ | .exportDecl p _ _ _
  | .exportValue p _ _ _ | .exportNames p _ _ | .output p _ _ | .function p _ _ _ | .ret p _
  | .ifThen p _ _ | .ifElse p _ _ _ | .forLoop p _ _ _ _ | .whileLoop p _ _ | .breakLoop p
  | .continueLoop p | .expr p _ => p
  | .variable v => v.pos
  | .foreign f => f.pos

/-- Whether a statement is an `if`. -/
def Stmt.isIf : Stmt → Bool
  | .ifThen _ _ _ | .ifElse _ _ _ _ => true
  | _ => false

/-- Whether a statement is a `return`. -/
def Stmt.isReturn : Stmt → Bool
  | .ret _ _ => true
  | _ => false

/-- Whether a statement is an `if` whose `else` is again one `if`. -/
def Stmt.hasElseIf : Stmt → Bool
  | .ifElse _ _ _ [s] => s.isIf
  | _ => false

/-- A program: a list of statements. -/
structure Program where
  /-- The position of the program. -/
  pos : Option Pos
  /-- Its statements. -/
  body : List Stmt

/-- What a tree put together by hand may be: a program, or something in its place. -/
inductive Root where
  | program (p : Program)
  | foreign (thing : Foreign)

end Advplc.Script

import Advplc.Text.Basic

/-!
# ADVPL expressions

The expressions that generated code consists of, and how they are written.  The tree decides where
parentheses stand: a binary expression always has its own, and `Expr.group` puts them around
anything else.

ADVPL strings have no escapes.  A literal cannot contain the quote it is written between, nor a line
break, so a text becomes a concatenation of `Piece`s: literals, the constant for a line break, and
values that are converted to strings.
-/

set_option autoImplicit false

namespace Advplc.Target

mutual

/-- An ADVPL expression. -/
inductive Expr where
  /-- A numeral as it was given. -/
  | number (numeral : Text)
  /-- A computed integer. -/
  | integer (value : Int)
  | name (name : Text)
  | boolean (value : Bool)
  | nil
  | self
  /-- Two operands and an operator between them, in parentheses. -/
  | binary (operator : Text) (left right : Expr)
  /-- An operator right before its operand. -/
  | before (operator : Text) (operand : Expr)
  /-- An operator right behind its operand. -/
  | after (operator : Text) (operand : Expr)
  /-- An expression in parentheses. -/
  | group (inner : Expr)
  | assign (operator : Text) (target value : Expr)
  | choice (test yes no : Expr)
  | hash (entries : List (Text × Expr))
  | array (elements : List Expr)
  | index (object key : Expr)
  | member (object : Expr) (name : Text)
  /-- A member of the object that the code belongs to. -/
  | ownMember (name : Text)
  | call (callee : Expr) (arguments : List Expr)
  | method (object : Expr) (name : Text) (arguments : List Expr)
  /-- A method of the object that the code belongs to. -/
  | ownMethod (name : Text) (arguments : List Expr)
  /-- A new object of a class. -/
  | construct (class_ : Expr) (arguments : List Expr)
  /-- Pieces of a string, concatenated. -/
  | concat (pieces : List Piece)

/-- A piece of a string. -/
inductive Piece where
  | literal (text : Text)
  | lineBreak
  /-- The value of an expression, converted to a string. -/
  | value (e : Expr)

end

/-! ## The names of ADVPL -/

/-- The function that converts a value to a string. -/
def toStringFunction : Text := "cValToChar"

/-- The function that writes a line of output. -/
def outputFunction : Text := "ConOut"

/-- The function that chooses between two values. -/
def choiceFunction : Text := "IIf"

/-- The constant for a line break. -/
def lineBreakConstant : Text := "CRLF"

/-- The method that sets up a new object. -/
def constructor : Text := "New"

/-- The hash without entries. -/
def emptyHash : Text := "\x7b=>\x7d"

/-! ## Writing expressions -/

/-- A text as a string literal: between quotation marks if it holds none, else between apostrophes
if it holds none, and else cut at its quotation marks, with each of them as a literal of its own. -/
def quote (t : Text) : Text :=
  if CodePoint.scalar '"' ∉ t then "\"" ++ t ++ "\""
  else if CodePoint.scalar '\'' ∉ t then "'" ++ t ++ "'"
  else Text.joinWith " + '\"' + " ((Text.splitAt '"' t).map fun part ↦ "\"" ++ part ++ "\"")

/-- Items with commas between them. -/
def commaList (items : List Text) : Text := Text.joinWith ", " items

/-- A call of the function with this text. -/
def callText (callee : Text) (arguments : List Text) : Text :=
  callee ++ "(" ++ commaList arguments ++ ")"

/-- Items between braces. -/
def braced (items : List Text) : Text := "\x7b" ++ commaList items ++ "\x7d"

/-- Operands of a concatenation. -/
def sum (operands : List Text) : Text := Text.joinWith " + " operands

/-- A concatenation that can stand inside another expression. -/
def groupedSum : List Text → Text
  | [operand] => operand
  | operands => "(" ++ sum operands ++ ")"

mutual

/-- An expression as text. -/
def Expr.print : Expr → Text
  | .number n => n
  | .integer i => Text.ofInt i
  | .name n => n
  | .boolean b => if b then ".T." else ".F."
  | .nil => "Nil"
  | .self => "Self"
  | .binary op l r => "(" ++ l.print ++ " " ++ op ++ " " ++ r.print ++ ")"
  | .before op e => op ++ e.print
  | .after op e => e.print ++ op
  | .group e => "(" ++ e.print ++ ")"
  | .assign op t v => t.print ++ " " ++ op ++ " " ++ v.print
  | .choice t y n => callText choiceFunction [t.print, y.print, n.print]
  | .hash [] => emptyHash
  | .hash (e :: es) => braced (Expr.printEntries (e :: es))
  | .array es => braced (Expr.printAll es)
  | .index o k => o.print ++ "[" ++ k.print ++ "]"
  | .member o n => o.print ++ ":" ++ n
  | .ownMember n => "::" ++ n
  | .call f as => callText f.print (Expr.printAll as)
  | .method o n as => o.print ++ ":" ++ callText n (Expr.printAll as)
  | .ownMethod n as => "::" ++ callText n (Expr.printAll as)
  | .construct c as => c.print ++ "():" ++ callText constructor (Expr.printAll as)
  | .concat ps => groupedSum (Piece.printAll ps)

/-- Expressions as texts. -/
def Expr.printAll : List Expr → List Text
  | [] => []
  | e :: es => e.print :: Expr.printAll es

/-- The entries of a hash as texts. -/
def Expr.printEntries : List (Text × Expr) → List Text
  | [] => []
  | (k, v) :: es => (quote k ++ " => " ++ v.print) :: Expr.printEntries es

/-- A piece of a string as text. -/
def Piece.print : Piece → Text
  | .literal t => quote t
  | .lineBreak => lineBreakConstant
  | .value e => callText toStringFunction [e.print]

/-- Pieces of a string as texts. -/
def Piece.printAll : List Piece → List Text
  | [] => []
  | p :: ps => p.print :: Piece.printAll ps

end

/-! ## Texts as pieces -/

/-- The pieces of one line of several: a literal, or nothing if the line is empty. -/
def Piece.ofLine (line : Text) : List Piece := if line.isEmpty then [] else [.literal line]

/-- The pieces of a text: its lines as literals, with line breaks between them.  A carriage return
before a line feed belongs to the line break. -/
def Piece.ofText (t : Text) : List Piece :=
  match t.joinLineEnds.lines with
  | [line] => [.literal line]
  | lines => List.intercalate [.lineBreak] (lines.map Piece.ofLine)

/-- A text as an expression. -/
def Expr.ofText (t : Text) : Expr := .concat (Piece.ofText t)

end Advplc.Target

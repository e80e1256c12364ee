import Advplc.Grammar.Parse
import Advplc.Grammar.Template
import Advplc.Script.Show
import Advplc.Text.Escape
import Advplc.Text.Name

/-!
# The grammar of expressions

From the loosest to the tightest binding: assignment, conditional, the binary operators in six
levels, unary operators and `++` and `--` in front, suffixes (members, calls, `++` and `--` behind),
and the primary expressions.  The binary operators associate to the left, assignment and the
conditional to the right.

Each rule is written against `Inner`, the parsers for the expressions inside it.  A rule only uses
them after it has read a token, so an expression over `n` tokens nests at most `n` deep, and `expr`
and the other public parsers close the recursion by unrolling it once more than there are tokens.
-/

set_option autoImplicit false

namespace Advplc.Grammar

open Script Parse

/-! ## Tables -/

/-- The operators that assign. -/
def assignmentOps : List Kind :=
  [.mark .assign, .mark .plusEqual, .mark .minusEqual, .mark .timesEqual, .mark .divideEqual]

/-- The operators of each level of binary expressions, the loosest first. -/
def binaryLevels : List (List Kind) :=
  [[.mark .or],
   [.mark .and],
   [.mark .equal, .mark .notEqual, .mark .strictEqual, .mark .strictNotEqual],
   [.mark .less, .mark .greater, .mark .lessEqual, .mark .greaterEqual],
   [.mark .plus, .mark .minus],
   [.mark .star, .mark .slash, .mark .percent]]

/-- The operators in front of one operand. -/
def unaryOps : List Kind := [.mark .not, .mark .minus, .mark .plus]

/-- The operators that change a variable by one. -/
def updateOps : List Kind := [.mark .increment, .mark .decrement]

/-- The kinds of tokens that can begin an expression. -/
def expressionStart : List Kind :=
  [.number, .string, .template, .identifier, .keyword .thisWord, .keyword .newWord,
   .mark .openParen, .mark .openBrace, .mark .openBracket, .mark .not, .mark .minus, .mark .plus,
   .mark .increment, .mark .decrement]

/-- Fails because an expression is wanted. -/
def missingExpr : Parse Expr :=
  fail (.kinds expressionStart)
    ("an expression (" ++ Text.joinWith ", " (expressionStart.map Kind.name) ++ ")")

/-! ## The rules -/

/-- The parsers for the expressions inside an expression. -/
structure Inner where
  /-- Any expression. -/
  expr : Parse Expr
  /-- An operand of a unary operator. -/
  unary : Parse Expr

/-- The name of a property and its position.  Anything that has the form of a name will do, reserved
words included. -/
def propertyName : Parse (Lexeme × Option Pos) := do
  match ← peekToken with
  | some t =>
    if t.kind ≠ .identifier then
      if (← textFor .nameTest t.lexeme).isName then
        let _ ← next
        return (t.lexeme, some t.pos)
    let t ← expect .identifier
    return (t.lexeme, some t.pos)
  | none =>
    let t ← expect .identifier
    return (t.lexeme, some t.pos)

/-- Arguments up to the closing parenthesis, which is not read. -/
def argumentList (inner : Inner) : Parse (List Expr) := do
  if ← atMark .closeParen then return [] else separated inner.expr

/-- Arguments between parentheses. -/
def arguments (inner : Inner) : Parse (List Expr) := do
  let _ ← mark .openParen
  let args ← argumentList inner
  let _ ← mark .closeParen
  return args

/-- The names behind the points of the callee of `new`, at most `n` of them. -/
def calleeAt : Nat → Expr → Parse Expr
  | 0, callee => pure callee
  | n + 1, callee => do
    if ← atMark .dot then
      let _ ← next
      let (name, pos) ← propertyName
      calleeAt n (.member callee.pos callee name pos)
    else return callee

/-- Arguments between parentheses, if there are any. -/
def newArguments (inner : Inner) : Parse (List Expr) := do
  if ← atMark .openParen then arguments inner else return []

/-- `new`, a name with properties, and arguments if there are any. -/
def newExpr (inner : Inner) : Parse Expr := do
  let t ← keyword .newWord
  let name ← expect .identifier
  let callee ← withSize fun n ↦ calleeAt n (.name (some name.pos) name.lexeme)
  let args ← newArguments inner
  return .new (some t.pos) callee args

/-- The value of a string literal: what stands between its quotes, with the escapes replaced. -/
def stringValue (t : Token) : Parse Text := do
  return Text.unescape (Text.trimEnds 1 (← textFor .slice t.lexeme))

/-- The key of a property, which begins with a token of the given kind: a string, a numeral or a
name. -/
def propertyKey : Kind → Parse Lexeme
  | .string => do
    let t ← next
    return .text (← stringValue t)
  | .number => do
    let t ← next
    return t.lexeme
  | _ => do
    let (name, _) ← propertyName
    return name

/-- One property of an object literal.  A name on its own stands for the variable of that name. -/
def property (inner : Inner) : Parse (Lexeme × Expr) := do
  match ← peekToken with
  | none =>
    let (key, _) ← propertyName
    let _ ← mark .colon
    return (key, ← inner.expr)
  | some t =>
    let key ← propertyKey t.kind
    let shorthand ← check [.mark .comma, .mark .closeBrace]
    if t.kind = .identifier ∧ shorthand then
      return (key, .name (some t.pos) key)
    else
      let _ ← mark .colon
      return (key, ← inner.expr)

/-- An object literal. -/
def objectLiteral (inner : Inner) : Parse Expr := do
  let t ← mark .openBrace
  let properties ← listed .closeBrace (property inner)
  let _ ← mark .closeBrace
  return .object (some t.pos) properties

/-- An array literal. -/
def arrayLiteral (inner : Inner) : Parse Expr := do
  let t ← mark .openBracket
  let elements ← listed .closeBracket inner.expr
  let _ ← mark .closeBracket
  return .array (some t.pos) elements

/-- The chunks of an outline with the escapes replaced, and the expressions in its holes.  `t` is
the template that an open hole is reported for. -/
def fillOutline (t : Token) : Outline → Parse (List Text × List Expr)
  | .last chunk => pure ([chunk.unescape], [])
  | .hole chunk source pos rest => do
    let e ← hole source pos
    let (chunks, holes) ← fillOutline t rest
    return (chunk.unescape :: chunks, e :: holes)
  | .unclosed _ => throw (.openHole t.pos)

/-- The template that a token stands for. -/
def templateLiteral (t : Token) : Parse Expr := do
  let text ← textFor .slice t.lexeme
  let inside : Pos := ⟨t.pos.line, t.pos.column + 1⟩
  let (chunks, holes) ← fillOutline t (Outline.of inside (Text.trimEnds 1 text))
  return .template (some t.pos) chunks holes

/-- What an identifier stands for: a literal if it is one of four words, and otherwise a name. -/
def identifierExpr (t : Token) : Expr :=
  if t.lexeme = "true" then .boolean (some t.pos) true
  else if t.lexeme = "false" then .boolean (some t.pos) false
  else if t.lexeme = "null" ∨ t.lexeme = "undefined" then .null (some t.pos)
  else .name (some t.pos) t.lexeme

/-- A primary expression: a literal, a name, `this`, `new`, or an expression in parentheses. -/
def primary (inner : Inner) : Parse Expr := do
  match ← peek with
  | .number =>
    let t ← next
    return .number (some t.pos) t.lexeme
  | .string =>
    let t ← next
    return .string (some t.pos) (← stringValue t)
  | .template =>
    let t ← next
    templateLiteral t
  | .identifier =>
    let t ← next
    return identifierExpr t
  | .keyword .thisWord =>
    let t ← next
    return .this (some t.pos)
  | .keyword .newWord => newExpr inner
  | .mark .openParen =>
    let _ ← next
    let e ← inner.expr
    let _ ← mark .closeParen
    return e
  | .mark .openBrace => objectLiteral inner
  | .mark .openBracket => arrayLiteral inner
  | _ => missingExpr

/-- The members and calls behind an expression, at most `n` of them. -/
def suffixesAt (inner : Inner) : Nat → Expr → Parse Expr
  | 0, e => pure e
  | n + 1, e => do
    match ← peek with
    | .mark .dot =>
      let _ ← next
      let (name, pos) ← propertyName
      suffixesAt inner n (.member e.pos e name pos)
    | .mark .openBracket =>
      let _ ← next
      let key ← inner.expr
      let _ ← mark .closeBracket
      suffixesAt inner n (.index e.pos e key)
    | .mark .openParen =>
      let args ← arguments inner
      suffixesAt inner n (.call e.pos e args)
    | _ => return e

/-- A primary expression with its suffixes. -/
def suffixed (inner : Inner) : Parse Expr := do
  let first ← primary inner
  let e ← withSize fun n ↦ suffixesAt inner n first
  if ← check updateOps then
    let op ← next
    return .update e.pos op.lexeme .after e
  else return e

/-- An operand with the unary operators in front of it. -/
def unaryExpr (inner : Inner) : Parse Expr := do
  let k ← peek
  if k ∈ unaryOps then
    let op ← next
    return .unary (some op.pos) op.lexeme (← inner.unary)
  else if k ∈ updateOps then
    let op ← next
    return .update (some op.pos) op.lexeme .before (← inner.unary)
  else suffixed inner

/-- Further operands of one level behind `left`, at most `n` of them. -/
def chainAt (operand : Parse Expr) (ops : List Kind) : Nat → Expr → Parse Expr
  | 0, left => pure left
  | n + 1, left => do
    if ← check ops then
      let op ← next
      let right ← operand
      chainAt operand ops n (.binary left.pos op.lexeme left right)
    else return left

/-- A binary expression whose operators belong to the given levels, the loosest first. -/
def binaryExpr (inner : Inner) : List (List Kind) → Parse Expr
  | [] => unaryExpr inner
  | ops :: tighter => do
    let left ← binaryExpr inner tighter
    withSize fun n ↦ chainAt (binaryExpr inner tighter) ops n left

/-- A binary expression, or a choice between two values. -/
def conditionalExpr (inner : Inner) : Parse Expr := do
  let test ← binaryExpr inner binaryLevels
  if ← atMark .question then
    let _ ← next
    let yes ← inner.expr
    let _ ← mark .colon
    let no ← inner.expr
    return .conditional test.pos test yes no
  else return test

/-- Whether an expression can be assigned to. -/
def isTarget : Expr → Bool
  | .name _ _ | .member _ _ _ _ | .index _ _ _ => true
  | _ => false

/-- Any expression: a conditional one, or an assignment. -/
def assignmentExpr (inner : Inner) : Parse Expr := do
  let left ← conditionalExpr inner
  if ← check assignmentOps then
    let op ← next
    if isTarget left then
      return .assign left.pos op.lexeme left (← inner.expr)
    else throw (.badTarget left.shown op.kind op.pos)
  else return left

/-! ## Closing the recursion -/

mutual

/-- Expressions that nest less than `n` deep. -/
def exprAt : Nat → Parse Expr
  | 0 => missingExpr
  | n + 1 => assignmentExpr ⟨exprAt n, unaryAt n⟩

/-- Operands of unary operators that nest less than `n` deep. -/
def unaryAt : Nat → Parse Expr
  | 0 => missingExpr
  | n + 1 => unaryExpr ⟨exprAt n, unaryAt n⟩

end

/-- A rule closed off with parsers for all expressions that the tokens left can hold. -/
def closed {α : Type} (rule : Inner → Parse α) : Parse α :=
  withSize fun n ↦ rule ⟨exprAt n, unaryAt n⟩

/-- An expression. -/
def expr : Parse Expr := closed assignmentExpr

/-- One expression that uses up all tokens. -/
def standalone : Parse Expr := do
  let e ← expr
  if ← check [.endOfInput] then return e else want (.one "end of expression")

end Advplc.Grammar

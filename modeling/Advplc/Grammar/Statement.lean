import Advplc.Grammar.Expression

/-!
# The grammar of statements

The first token of a statement says which rule reads it; what begins with no other token is an
expression statement.  Comments are statements as well, so a comment is allowed wherever a statement
is, and nowhere else.

Like the rules for expressions, each rule is written against a parser for the statements inside it,
and `stmt` closes the recursion by the number of tokens left.
-/

set_option autoImplicit false

namespace Advplc.Grammar

open Script Parse

/-- The words that declare a variable. -/
def declarationWords : List Kind :=
  [.keyword .letWord, .keyword .constWord, .keyword .varWord]

/-! ## Rules without statements inside -/

/-- A comment. -/
def commentStmt : Parse Stmt := do
  let t ← next
  let text ← textFor .slice t.lexeme
  if t.kind = .lineComment then return .lineComment (some t.pos) (text.drop 2)
  else return .blockComment (some t.pos) (Text.trimEnds 2 text)

/-- The path of a module. -/
def moduleSource : Parse Text := do
  let t ← expect .string
  stringValue t

/-- An identifier and, behind the word `as`, another name for it. -/
def renamed : Parse (Lexeme × Option Lexeme) := do
  let name ← expect .identifier
  if ← atWord "as" then
    let _ ← next
    let localName ← expect .identifier
    return (name.lexeme, some localName.lexeme)
  else return (name.lexeme, none)

/-- One name that is imported by its name. -/
def namedSpecifier : Parse Specifier := do
  let (name, localName) ← renamed
  return ⟨"named", name, localName.getD name⟩

/-- Names between braces that are imported by their names. -/
def importNamed : Parse (List Specifier) := do
  let _ ← mark .openBrace
  let specifiers ← listed .closeBrace namedSpecifier
  let _ ← mark .closeBrace
  return specifiers

/-- A whole module under a name. -/
def importNamespace : Parse Specifier := do
  let _ ← mark .star
  let _ ← word "as"
  let localName ← expect .identifier
  return ⟨"namespace", "*", localName.lexeme⟩

/-- What is imported besides the default. -/
def importFurther : Parse (List Specifier) := do
  if ← atMark .star then return [← importNamespace] else importNamed

/-- What is imported from a module. -/
def importSpecifiers : Parse (List Specifier) := do
  match ← peek with
  | .mark .openBrace => importNamed
  | .mark .star => return [← importNamespace]
  | _ =>
    let name ← expect .identifier
    let first : Specifier := ⟨"default", name.lexeme, name.lexeme⟩
    if ← atMark .comma then
      let _ ← next
      return first :: (← importFurther)
    else return [first]

/-- What is imported, up to the path of the module.  If the path comes first, that is nothing. -/
def importClause : Parse (List Specifier) := do
  if ← check [.string] then return []
  else
    let specifiers ← importSpecifiers
    let _ ← keyword .fromWord
    return specifiers

/-- An import. -/
def importStmt : Parse Stmt := do
  let t ← keyword .importWord
  let specifiers ← importClause
  let source ← moduleSource
  let _ ← mark .semicolon
  return .importFrom (some t.pos) source specifiers

/-- The first value of a variable, if it has one. -/
def firstValue : Parse (Option Expr) := do
  if ← atMark .assign then
    let _ ← next
    let e ← expr
    return some e
  else return none

/-- A declaration of a variable without the semicolon behind it. -/
def variableDecl : Parse Variable := do
  let t ← next
  let name ← expect .identifier
  let value ← firstValue
  return ⟨some t.pos, name.lexeme, value, t.lexeme⟩

/-- A declaration of a variable. -/
def variableStmt : Parse Variable := do
  let v ← variableDecl
  let _ ← mark .semicolon
  return v

/-- A `print` statement. -/
def printStmt : Parse Stmt := do
  let t ← keyword .printWord
  let args ← separated expr
  let _ ← mark .semicolon
  return .output (some t.pos) .print args

/-- A `console.log` statement. -/
def consoleStmt : Parse Stmt := do
  let t ← expect .consoleLog
  let args ← closed arguments
  let _ ← mark .semicolon
  return .output (some t.pos) .console args

/-- An expression, unless the next token is the mark `close`. -/
def exprUnless (close : Mark) : Parse (Option Expr) := do
  if ← atMark close then return none
  else
    let e ← expr
    return some e

/-- A `return` statement. -/
def returnStmt : Parse Stmt := do
  let t ← keyword .returnWord
  let value ← exprUnless .semicolon
  let _ ← mark .semicolon
  return .ret (some t.pos) value

/-- A `break` statement. -/
def breakStmt : Parse Stmt := do
  let t ← next
  let _ ← mark .semicolon
  return .breakLoop (some t.pos)

/-- A `continue` statement. -/
def continueStmt : Parse Stmt := do
  let t ← next
  let _ ← mark .semicolon
  return .continueLoop (some t.pos)

/-- An expression statement. -/
def exprStmt : Parse Stmt := do
  let t ← peekToken
  let e ← expr
  let _ ← mark .semicolon
  return .expr (t.map Token.pos) e

/-- One name of an export list. -/
def exportedName : Parse Lexeme := do
  let (name, localName) ← renamed
  match localName with
  | some a => return .text (name.spelled ++ " as " ++ a.spelled)
  | none => return name

/-- What a `for` loop does first. -/
def forInit : Parse ForInit := do
  if ← check declarationWords then return .variable (← variableDecl)
  else match ← exprUnless .semicolon with
    | some e => return .expr e
    | none => return .nothing

/-! ## Rules with statements inside -/

/-- Statements between braces. -/
def block (inner : Parse Stmt) : Parse (List Stmt) := do
  let _ ← mark .openBrace
  let body ← untilKind [.mark .closeBrace, .endOfInput] inner
  let _ ← mark .closeBrace
  return body

/-- A block, or a single statement. -/
def body (inner : Parse Stmt) : Parse (List Stmt) := do
  if ← atMark .openBrace then block inner else return [← inner]

/-- The name of a parameter. -/
def parameter : Parse Lexeme := do
  let t ← expect .identifier
  return t.lexeme

/-- Parameters up to the closing parenthesis, which is not read. -/
def parameterList : Parse (List Lexeme) := do
  if ← atMark .closeParen then return [] else separated parameter

/-- A function. -/
def functionDecl (inner : Parse Stmt) : Parse Stmt := do
  let t ← keyword .functionWord
  let name ← expect .identifier
  let _ ← mark .openParen
  let parameters ← parameterList
  let _ ← mark .closeParen
  let body ← block inner
  return .function (some t.pos) name.lexeme parameters body

/-- An export. -/
def exportStmt (inner : Parse Stmt) : Parse Stmt := do
  let t ← keyword .exportWord
  match ← peek with
  | .keyword .defaultWord =>
    let _ ← next
    if ← atKeyword .functionWord then
      return .exportDecl (some t.pos) (← functionDecl inner) [] true
    else
      let e ← expr
      let _ ← mark .semicolon
      return .exportValue (some t.pos) e [] true
  | .keyword .functionWord => return .exportDecl (some t.pos) (← functionDecl inner) [] false
  | .keyword .letWord | .keyword .constWord | .keyword .varWord =>
    return .exportDecl (some t.pos) (.variable (← variableStmt)) [] false
  | .mark .openBrace =>
    let _ ← next
    let names ← listed .closeBrace exportedName
    let _ ← mark .closeBrace
    let _ ← mark .semicolon
    return .exportNames (some t.pos) names false
  | _ =>
    want (.kinds ([.keyword .defaultWord, .keyword .functionWord] ++ declarationWords ++
      [.mark .openBrace]))

/-- A condition between parentheses. -/
def condition : Parse Expr := do
  let _ ← mark .openParen
  let test ← expr
  let _ ← mark .closeParen
  return test

/-- An `if` statement.  An `if` right behind `else` is read as the only statement of that branch. -/
def ifStmt (inner : Parse Stmt) : Parse Stmt := do
  let t ← keyword .ifWord
  let test ← condition
  let yes ← body inner
  if ← atKeyword .elseWord then
    let _ ← next
    let no ← body inner
    return .ifElse (some t.pos) test yes no
  else return .ifThen (some t.pos) test yes

/-- A `for` loop. -/
def forStmt (inner : Parse Stmt) : Parse Stmt := do
  let t ← keyword .forWord
  let _ ← mark .openParen
  let init ← forInit
  let _ ← mark .semicolon
  let test ← exprUnless .semicolon
  let _ ← mark .semicolon
  let update ← exprUnless .closeParen
  let _ ← mark .closeParen
  let body ← body inner
  return .forLoop (some t.pos) init test update body

/-- A `while` loop. -/
def whileStmt (inner : Parse Stmt) : Parse Stmt := do
  let t ← keyword .whileWord
  let test ← condition
  let body ← body inner
  return .whileLoop (some t.pos) test body

/-- The rule for statements whose first token has the given kind. -/
def statementRule (inner : Parse Stmt) : Kind → Parse Stmt
  | .lineComment | .blockComment => commentStmt
  | .keyword .importWord => importStmt
  | .keyword .exportWord => exportStmt inner
  | .keyword .letWord | .keyword .constWord | .keyword .varWord => do
    return .variable (← variableStmt)
  | .keyword .printWord => printStmt
  | .consoleLog => consoleStmt
  | .keyword .functionWord => functionDecl inner
  | .keyword .returnWord => returnStmt
  | .keyword .ifWord => ifStmt inner
  | .keyword .forWord => forStmt inner
  | .keyword .whileWord => whileStmt inner
  | .keyword .breakWord => breakStmt
  | .keyword .continueWord => continueStmt
  | _ => exprStmt

/-- A statement, by its first token. -/
def statement (inner : Parse Stmt) : Parse Stmt := do
  statementRule inner (← peek)

/-! ## Closing the recursion -/

/-- Statements that nest less than `n` deep. -/
def stmtAt : Nat → Parse Stmt
  | 0 => exprStmt
  | n + 1 => statement (stmtAt n)

/-- A rule closed off with a parser for all statements that the tokens left can hold. -/
def enclosed {α : Type} (rule : Parse Stmt → Parse α) : Parse α :=
  withSize fun n ↦ rule (stmtAt n)

/-- A statement. -/
def stmt : Parse Stmt := enclosed statement

end Advplc.Grammar

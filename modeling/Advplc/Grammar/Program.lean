import Advplc.Grammar.Statement

/-!
# Parsing programs

Here the grammar is put to work.  The hole of a template is a source of its own: it is scanned from
the position at which it stands and must be one expression.  Its text is shorter than the template
it is in, which is what bounds the nesting of templates.

`parse` reads a whole program.  A `Cursor` is a place in a token stream from which any rule of the
grammar can be tried, one after another.
-/

set_option autoImplicit false

namespace Advplc.Grammar

open Script Parse

/-- Where a token stream ends: behind its last token, or at `start` if it has none. -/
def endPosition (tokens : List Token) (start : Pos) : Except Unusable Pos :=
  match tokens.getLast? with
  | none => .ok start
  | some t =>
    match t.lexeme with
    | .text text => .ok (t.pos.advance text)
    | l => .error ⟨.search, l.sort⟩

/-- Reads the source of a hole that begins at `p` and in which templates nest less than `n` deep. -/
def holeAt : Nat → Text → Pos → Except Fault Expr
  | 0, _, p => .error (.openHole p)
  | n + 1, source, p =>
    match tokenize source p with
    | .error e => .error (.lexical e)
    | .ok tokens =>
      match standalone ⟨endPosition tokens p, holeAt n⟩ tokens with
      | .ok e _ => .ok e
      | .error f _ => .error f

/-- Reads the source of a hole that begins at `p`. -/
def readHole (source : Text) (p : Pos) : Except Fault Expr := holeAt (source.length + 1) source p

/-- The context of a token stream; `start` is where it ends if it is empty. -/
def Context.of (tokens : List Token) (start : Pos) : Context :=
  ⟨endPosition tokens start, readHole⟩

/-- A program: statements up to the end of the stream.  If a token without a text gets in the way,
the fault names the tokens that come next. -/
def program : Parse Program := fun env ts ↦
  match untilKind [.endOfInput] stmt env ts with
  | .ok body rest => .ok ⟨some Pos.origin, body⟩ rest
  | .error (.unusable u) rest => .error (.interrupted u (rest.take 5)) rest
  | .error f rest => .error f rest

/-- The program that a token stream stands for. -/
def parse (tokens : List Token) : Except Fault Program :=
  match program (Context.of tokens Pos.origin) tokens with
  | .ok p _ => .ok p
  | .error f _ => .error f

/-- The expression that a source stands for, whose first code point stands at `start`. -/
def parseExpr (source : Text) (start : Pos) : Except Fault Expr := readHole source start

/-! ## Cursors -/

/-- A place in a token stream. -/
structure Cursor where
  /-- The whole stream. -/
  tokens : List Token
  /-- How many tokens lie behind. -/
  index : Nat
  /-- Where the stream ends if it is empty. -/
  start : Pos

namespace Cursor

/-- The tokens that lie ahead. -/
def rest (c : Cursor) : List Token := c.tokens.drop c.index

/-- Tries a rule, and moves as far as it came. -/
def run {α : Type} (c : Cursor) (rule : Parse α) : Except Fault α × Cursor :=
  let moved (rest : List Token) : Cursor := { c with index := c.tokens.length - rest.length }
  match rule (Context.of c.tokens c.start) c.rest with
  | .ok a rest => (.ok a, moved rest)
  | .error f rest => (.error f, moved rest)

/-- The token at a distance from the cursor.  A place before the beginning counts from the end. -/
def token? (c : Cursor) (offset : Int) : Option Token :=
  match (c.index : Int) + offset with
  | .ofNat i => c.tokens[i]?
  | .negSucc i => c.tokens.reverse[i]?

/-- The kind of the token at a distance from the cursor. -/
def kind (c : Cursor) (offset : Int) : Kind := ((c.token? offset).map Token.kind).getD .endOfInput

/-- The fault of wanting something at the cursor. -/
def fault (c : Cursor) (wanted : Wanted) (label : Text) : Fault :=
  faultAt wanted label (Context.of c.tokens c.start) c.rest

end Cursor

end Advplc.Grammar

import Advplc.Grammar.Fault
import Advplc.Script.Syntax

/-!
# Parsers of token streams

A `Parse α` reads an `α` off the front of a list of tokens.  It always says how far it came: with a
value when it succeeds, with a fault when it fails.  A failure does not give the tokens back, since
the grammar decides by the next token and never tries twice.

Two things come from outside the stream and make up the `Context`: the position at which the stream
ends, which is where a missing token is reported, and the way in which the text of a template hole
is read, which is what lets the rules be written before the knot between templates and expressions
is tied.

Repetition is bounded by the number of tokens left (`withSize`).  Every repeated rule takes at least
one token, so the bound is never what ends a repetition.
-/

set_option autoImplicit false

namespace Advplc.Grammar

open Script

/-- What a parser has to know besides its tokens. -/
structure Context where
  /-- The position behind the last token of the stream, if that token has a text. -/
  finish : Except Unusable Pos
  /-- How the text of a template hole that begins at a position is read. -/
  hole : Text → Pos → Except Fault Expr

/-- What a parser answers: a value or a fault, and the tokens it has not read. -/
inductive Outcome (α : Type) where
  | ok (value : α) (rest : List Token)
  | error (fault : Fault) (rest : List Token)

/-- A parser of `α`. -/
def Parse (α : Type) : Type := Context → List Token → Outcome α

namespace Parse

variable {α β : Type}

instance : Monad Parse where
  pure a := fun _ ts ↦ .ok a ts
  bind p f := fun env ts ↦
    match p env ts with
    | .ok a rest => f a env rest
    | .error e rest => .error e rest

/-! ## Looking at the stream -/

/-- The next token, which stays where it is. -/
def peekToken : Parse (Option Token) := fun _ ts ↦ .ok ts.head? ts

/-- The kind of the next token, which stays where it is. -/
def peek : Parse Kind := fun _ ts ↦ .ok ((ts.head?.map Token.kind).getD .endOfInput) ts

/-- Whether the next token has one of the given kinds. -/
def check (ks : List Kind) : Parse Bool := fun _ ts ↦
  .ok (ks.contains ((ts.head?.map Token.kind).getD .endOfInput)) ts

/-- A parser that is given the number of tokens left. -/
def withSize (f : Nat → Parse α) : Parse α := fun env ts ↦ f ts.length env ts

/-! ## Failing -/

/-- Fails with the given fault. -/
def throw (f : Fault) : Parse α := fun _ ts ↦ .error f ts

/-- The fault of wanting something that the next token is not. -/
def faultAt (wanted : Wanted) (label : Text) (env : Context) : List Token → Fault
  | t :: _ => .unexpected wanted label (some t.kind) t.pos
  | [] =>
    match env.finish with
    | .ok p => .unexpected wanted label none p
    | .error u => .unusable u

/-- Fails because something else is wanted than the next token. -/
def fail (wanted : Wanted) (label : Text) : Parse α := fun env ts ↦
  .error (faultAt wanted label env ts) ts

/-- Fails because something else is wanted than the next token, and names it in the usual way. -/
def want (wanted : Wanted) : Parse α := fail wanted wanted.label

/-! ## Reading tokens -/

/-- Reads a token of any kind. -/
def next : Parse Token := fun env ts ↦
  match ts with
  | t :: rest => .ok t rest
  | [] => want (.one "a token") env []

/-- Reads a token of the given kind. -/
def expect (k : Kind) : Parse Token := fun env ts ↦
  match ts with
  | t :: rest => if t.kind = k then .ok t rest else want (.kind k) env ts
  | [] => want (.kind k) env []

/-- Reads the mark `m`. -/
def mark (m : Mark) : Parse Token := expect (.mark m)

/-- Reads the reserved word `w`. -/
def keyword (w : Keyword) : Parse Token := expect (.keyword w)

/-- Whether the next token is the mark `m`. -/
def atMark (m : Mark) : Parse Bool := check [.mark m]

/-- Whether the next token is the reserved word `w`. -/
def atKeyword (w : Keyword) : Parse Bool := check [.keyword w]

/-- Whether the next token is the identifier `w`. -/
def atWord (w : Text) : Parse Bool := fun _ ts ↦
  .ok (ts.head?.any fun t ↦ t.kind = .identifier ∧ t.lexeme = .text w) ts

/-- Reads the identifier `w`. -/
def word (w : Text) : Parse Token := do
  if ← atWord w then next else want (.one ("'" ++ w ++ "'"))

/-- The text of a lexeme that is about to be used. -/
def textFor (use : Use) : Lexeme → Parse Text
  | .text t => pure t
  | l => throw (.unusable ⟨use, l.sort⟩)

/-- Reads the text of a template hole that begins at `p`. -/
def hole (source : Text) (p : Pos) : Parse Expr := fun env ts ↦
  match env.hole source p with
  | .ok e => .ok e ts
  | .error f => .error f ts

/-! ## Repetition -/

/-- Items with commas between them, at least one and at most `n + 1`. -/
def separatedAt (item : Parse α) : Nat → Parse (List α)
  | 0 => do return [← item]
  | n + 1 => do
    let a ← item
    if ← atMark .comma then
      let _ ← next
      return a :: (← separatedAt item n)
    else return [a]

/-- Items with commas between them, at least one. -/
def separated (item : Parse α) : Parse (List α) := withSize (separatedAt item)

/-- Items with commas between them up to the mark `close`, at most `n + 1`.  A comma may stand
before `close`. -/
def listedAt (close : Mark) (item : Parse α) : Nat → Parse (List α)
  | 0 => do if ← atMark close then return [] else return [← item]
  | n + 1 => do
    if ← atMark close then return []
    else
      let a ← item
      if ← atMark .comma then
        let _ ← next
        return a :: (← listedAt close item n)
      else return [a]

/-- Items with commas between them up to the mark `close`, which is not read.  A comma may stand
before `close`. -/
def listed (close : Mark) (item : Parse α) : Parse (List α) := withSize (listedAt close item)

/-- Items until the next token has one of the kinds `stop`, at most `n`. -/
def untilAt (stop : List Kind) (item : Parse α) : Nat → Parse (List α)
  | 0 => pure []
  | n + 1 => do
    if ← check stop then return []
    else
      let a ← item
      return a :: (← untilAt stop item n)

/-- Items until the next token has one of the kinds `stop`. -/
def untilKind (stop : List Kind) (item : Parse α) : Parse (List α) :=
  withSize (untilAt stop item)

end Parse

end Advplc.Grammar

import Advplc.Token.Scan

/-!
# What can go wrong while parsing

A `Fault` says why a token stream could not be parsed.  The ordinary one is `Fault.unexpected`: the
grammar wanted something and the stream had something else, or nothing more.  Faults of the lexer
occur because the holes of a template are sources of their own and are only read when the template
is.

A token that carries no text can be asked for something only a text can give.  What the grammar
asked for is an `Unusable`; a rule on its own reports it as it is, and the parser for whole programs
reports it with the tokens that come next.
-/

set_option autoImplicit false

namespace Advplc.Grammar

/-- What the grammar wanted: one thing, or one of several. -/
inductive Wanted where
  | one (what : Text)
  | oneOf (choices : List Text)
deriving DecidableEq

namespace Wanted

/-- A token of the given kind is wanted. -/
def kind (k : Kind) : Wanted := .one k.name

/-- A token of one of the given kinds is wanted. -/
def kinds (ks : List Kind) : Wanted := .oneOf (ks.map Kind.name)

/-- How the wanted things are named when there is no better name. -/
def label : Wanted → Text
  | one what => what
  | oneOf choices => Text.joinWith ", " choices.dropLast ++ " or " ++ choices.getLastD []

end Wanted

/-- What only a text can be asked for. -/
inductive Use where
  /-- A part of it. -/
  | slice
  /-- Whether it has the form of a name. -/
  | nameTest
  /-- Whether it contains something. -/
  | search
deriving DecidableEq

/-- A lexeme that is not a text was asked for something only a text can give. -/
structure Unusable where
  /-- What it was asked for. -/
  use : Use
  /-- What sort of value it is. -/
  sort : Text
deriving DecidableEq

/-- What is said about an unusable lexeme. -/
def Unusable.message (u : Unusable) : Text :=
  match u.use with
  | .slice => "'" ++ u.sort ++ "' object is not subscriptable"
  | .nameTest => "'" ++ u.sort ++ "' object has no attribute 'isidentifier'"
  | .search => "argument of type '" ++ u.sort ++ "' is not iterable"

/-- Why a token stream could not be parsed. -/
inductive Fault where
  /-- The lexer failed inside a hole of a template. -/
  | lexical (e : LexError)
  /-- Something else was wanted than was found at `pos`; nothing is found at the end. -/
  | unexpected (wanted : Wanted) (label : Text) (found : Option Kind) (pos : Pos)
  /-- What stands before an assignment operator cannot be assigned to. -/
  | badTarget (target : Text) (found : Kind) (pos : Pos)
  /-- A hole of the template at `pos` is not closed. -/
  | openHole (pos : Pos)
  /-- A token without a text could not be used. -/
  | unusable (u : Unusable)
  /-- Parsing a program was broken off before the tokens `near`. -/
  | interrupted (u : Unusable) (near : List Token)
deriving DecidableEq

namespace Fault

/-- How a found kind is named. -/
def foundName : Option Kind → Text
  | some k => k.name
  | none => "end of input"

/-- How the tokens at which parsing was broken off are named. -/
def nearby : List Token → Text
  | [] => foundName none
  | near => Text.joinWith " " (near.map Token.describe)

/-- What the fault says. -/
def message : Fault → Text
  | lexical e => e.message
  | unexpected _ label found pos =>
    "Expected " ++ label ++ ", got " ++ foundName found ++ " at " ++ pos.describe
  | badTarget target _ pos => "Invalid assignment target " ++ target ++ " at " ++ pos.describe
  | openHole pos => "Expected RBRACE closing '$\x7b' in template string at " ++ pos.describe
  | unusable u => u.message
  | interrupted u near =>
    "Internal parser error: " ++ u.message ++ " (near: " ++ nearby near ++ ")"

/-- What was wanted, for the faults that want something. -/
def wanted? : Fault → Option Wanted
  | unexpected w _ _ _ => some w
  | badTarget _ _ _ => some (.kind .identifier)
  | openHole _ => some (.kind (.mark .closeBrace))
  | lexical _ | unusable _ | interrupted _ _ => none

/-- What was found instead. -/
def found? : Fault → Option Text
  | unexpected _ _ found _ => some (foundName found)
  | badTarget _ found _ => some found.name
  | openHole _ => some "end of template"
  | lexical _ | unusable _ | interrupted _ _ => none

/-- Where the fault is. -/
def pos? : Fault → Option Pos
  | lexical e => some e.pos
  | unexpected _ _ _ pos | badTarget _ _ pos | openHole pos => some pos
  | unusable _ | interrupted _ _ => none

end Fault

end Advplc.Grammar

import Advplc.Pos
import Advplc.Text.Quoted
import Advplc.Token.Kind

/-!
# Tokens

A token is a kind, a lexeme and the position of its first code point.  The lexer always gives a
token the text it stands for; a token that was put together by hand may also carry a number, or
nothing.  A `Lexeme` is what a token carries, and since names, numerals and operators go into a
program tree as the lexeme they were read from, it is also what those parts of a tree are made of.
-/

set_option autoImplicit false

namespace Advplc

/-- What a token carries: its text, or for a token made by hand possibly a number or nothing. -/
inductive Lexeme where
  | text (t : Text)
  | number (n : Int)
  | absent
deriving DecidableEq

namespace Lexeme

instance : Coe Text Lexeme := ⟨.text⟩

instance : Coe String Lexeme := ⟨fun s ↦ .text s⟩

/-- The lexeme as it appears in generated code and in short descriptions. -/
def spelled : Lexeme → Text
  | text t => t
  | number n => Text.ofInt n
  | absent => "None"

/-- The lexeme as it appears in full descriptions, where a text is quoted. -/
def inspected : Lexeme → Text
  | text t => t.quoted
  | number n => Text.ofInt n
  | absent => "None"

/-- What sort of value a lexeme is. -/
def sort : Lexeme → Text
  | text _ => "str"
  | number _ => "int"
  | absent => "NoneType"

end Lexeme

/-- A token of a source. -/
structure Token where
  /-- What the token is. -/
  kind : Kind
  /-- What it carries, which for a token of the lexer is the text it stands for. -/
  lexeme : Lexeme
  /-- Where its first code point stands. -/
  pos : Pos
deriving DecidableEq

/-- A token in the form `KIND(lexeme)@line:column`. -/
def Token.describe (t : Token) : Text :=
  t.kind.name ++ "(" ++ t.lexeme.inspected ++ ")@" ++ t.pos.label

end Advplc

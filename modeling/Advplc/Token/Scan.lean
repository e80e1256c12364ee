import Advplc.Token.Rule

/-!
# Scanning a source

`scan` reads a source from beginning to end: at every place the first rule that matches says how
much text the next token takes, or how much white space there is to skip.  Where no rule matches,
scanning stops; what was read before that place is kept, so that the tokens found so far and the
place itself can be inspected.  `tokenize` is the same reading for callers who only want all tokens
or the error.

Every match takes at least one code point, so the length of what is left decreases and the scan ends
on every source.
-/

set_option autoImplicit false

namespace Advplc

/-- No rule of the lexer matches here. -/
structure LexError where
  /-- The code point that begins no token. -/
  char : CodePoint
  /-- Where it stands. -/
  pos : Pos
  /-- The text that begins with it, at most twenty code points. -/
  context : Text
deriving DecidableEq

/-- What the error says. -/
def LexError.message (e : LexError) : Text :=
  "Unexpected character '" ++ [e.char] ++ "' at " ++ e.pos.describe ++ " (context: \"" ++
    Text.substitute '\n' "\\n" e.context ++ "\")"

/-- How far a source has been read. -/
structure Scan where
  /-- The tokens that were read, in order. -/
  tokens : List Token
  /-- How many code points were read. -/
  taken : Nat
  /-- The position behind the last of them. -/
  stop : Pos
  /-- Why reading stopped before the end, if it did. -/
  error? : Option LexError
deriving DecidableEq

namespace Scan

/-- The scan that has read nothing and stopped at `p`. -/
def idle (p : Pos) (e : Option LexError) : Scan := ⟨[], 0, p, e⟩

/-- A scan with `n` more code points read before it, and with the token they make up, if any. -/
def precededBy (token? : Option Token) (n : Nat) (s : Scan) : Scan :=
  { s with tokens := token?.toList ++ s.tokens, taken := n + s.taken }

/-- Scans a text that begins at `p`, behind a token of kind `before`. -/
def ofText (before : Option Kind) (p : Pos) (t : Text) : Scan :=
  match t with
  | [] => idle p none
  | c :: rest =>
    match _ : Rule.first? before (c :: rest) with
    | none => idle p (some ⟨c, p, (c :: rest).take 20⟩)
    | some (kind, n) =>
      let lexeme := (c :: rest).take n
      let token? := kind.map fun k ↦ ⟨k, .text lexeme, p⟩
      precededBy token? n (Scan.ofText (kind <|> before) (p.advance lexeme) ((c :: rest).drop n))
termination_by t.length
decreasing_by
  have hn := Rule.pos_of_first? ‹Rule.first? before (c :: rest) = some (kind, n)›
  simp only [List.length_drop, List.length_cons]
  omega

end Scan

/-- Scans a source whose first code point stands at `p`.  A carriage return before a line feed is
dropped first. -/
def scan (source : Text) (p : Pos) : Scan := Scan.ofText none p source.joinLineEnds

/-- The tokens of a source whose first code point stands at `p`. -/
def tokenize (source : Text) (p : Pos) : Except LexError (List Token) :=
  let s := scan source p
  match s.error? with
  | none => .ok s.tokens
  | some e => .error e

end Advplc

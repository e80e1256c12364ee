import Advplc.Text.Blank
import Advplc.Text.Digit
import Advplc.Text.Word
import Advplc.Token.Basic

/-!
# The rules of the lexer

Each rule says how many code points at the beginning of a text it matches; zero means that it does
not match.  The rules are tried in order and the first one that matches decides, so their order is
part of their meaning: reserved words come before identifiers, comments and regular expressions
before the slash, and a mark before the marks that begin it.

A rule may also ask about the token before.  Only the rule for regular expressions does: a slash
behind an operand is a division.
-/

set_option autoImplicit false

namespace Advplc

/-- A rule of the lexer. -/
structure Rule where
  /-- The kind of the tokens it produces.  What it matches is skipped when there is none. -/
  kind : Option Kind
  /-- How many code points at the beginning of a text it matches. -/
  length : Text → Nat
  /-- Whether it may be used behind a token of the given kind. -/
  allowed : Option Kind → Bool := fun _ ↦ true

namespace Rule

/-! ## What the rules match -/

/-- The length of the run of code points with the property `p` that a text begins with. -/
def run (p : CodePoint → Bool) (t : Text) : Nat := (t.takeWhile p).length

/-- Matches the text `w`. -/
def literal (w t : Text) : Nat := if w.isPrefixOf t then w.length else 0

/-- Matches the text `w` where no word character follows it. -/
def word (w t : Text) : Nat :=
  if w.isPrefixOf t ∧ Text.atWordEnd (t.drop w.length) then w.length else 0

/-- Matches two slashes and the rest of the line. -/
def lineComment : Text → Nat
  | .scalar '/' :: .scalar '/' :: rest => 2 + run (· ≠ '\n') rest
  | _ => 0

/-- The length of a text up to and including the first `*/` in it. -/
def commentEnd : Text → Option Nat
  | .scalar '*' :: .scalar '/' :: _ => some 2
  | _ :: rest => (commentEnd rest).map (· + 1)
  | [] => none

/-- Matches from `/*` to the first `*/` behind it. -/
def blockComment : Text → Nat
  | .scalar '/' :: .scalar '*' :: rest =>
    match commentEnd rest with
    | some n => n + 2
    | none => 0
  | _ => 0

/-- The length of the rest of a regular expression up to and including its closing slash, where
`inClass` says whether a character class is open.  An opening bracket begins a class if the
expression can be closed that way, and otherwise stands for itself. -/
def regexEnd : Bool → Text → Option Nat
  | _, [] => none
  | inClass, .scalar '\\' :: c :: rest =>
    if c = '\n' then none else (regexEnd inClass rest).map (· + 2)
  | true, c :: rest =>
    if c = '\n' ∨ c = '\\' then none
    else if c = ']' then (regexEnd false rest).map (· + 1)
    else (regexEnd true rest).map (· + 1)
  | false, c :: rest =>
    if c = '\n' ∨ c = '\\' then none
    else if c = '/' then some 1
    else if c = '[' then (regexEnd true rest <|> regexEnd false rest).map (· + 1)
    else (regexEnd false rest).map (· + 1)

/-- The letters that may follow a regular expression. -/
def isFlag (c : CodePoint) : Bool := ("gimsuy" : Text).contains c

/-- Matches a regular expression between slashes, with its flags. -/
def regex : Text → Nat
  | .scalar '/' :: rest =>
    if rest.head? = some (.scalar '*') ∨ rest.head? = some (.scalar '/') then 0
    else match regexEnd false rest with
      | some n => 1 + n + run isFlag (rest.drop n)
      | none => 0
  | _ => 0

/-- Whether an identifier may begin with this code point. -/
def startsIdentifier : CodePoint → Bool
  | .scalar c => c.isAlpha || c = '_'
  | .surrogate _ => false

/-- Whether an identifier may go on with this code point. -/
def continuesIdentifier : CodePoint → Bool
  | .scalar c => c.isAlphanum || c = '_'
  | .surrogate _ => false

/-- Matches a letter or an underscore and the letters, digits and underscores behind it, all of them
ASCII. -/
def identifier : Text → Nat
  | [] => 0
  | c :: rest => if startsIdentifier c then 1 + run continuesIdentifier rest else 0

/-- Matches a point and at least one digit. -/
def fraction : Text → Nat
  | .scalar '.' :: rest =>
    let digits := run CodePoint.isDigit rest
    if digits = 0 then 0 else 1 + digits
  | _ => 0

/-- Matches an optional sign and at least one digit. -/
def signedDigits (t : Text) : Nat :=
  let sign := if t.head? = some (.scalar '+') ∨ t.head? = some (.scalar '-') then 1 else 0
  let digits := run CodePoint.isDigit (t.drop sign)
  if digits = 0 then 0 else sign + digits

/-- Matches the letter `e` in either case, an optional sign and at least one digit. -/
def exponent : Text → Nat
  | c :: rest =>
    let digits := signedDigits rest
    if (c = 'e' ∨ c = 'E') ∧ digits ≠ 0 then 1 + digits else 0
  | [] => 0

/-- Matches digits, then a fraction and an exponent if there are any. -/
def number (t : Text) : Nat :=
  let whole := run CodePoint.isDigit t
  if whole = 0 then 0
  else
    let withFraction := whole + fraction (t.drop whole)
    withFraction + exponent (t.drop withFraction)

/-- The length of the rest of a literal up to and including its closing quote.  A backslash takes
the code point behind it along, which must not be a line feed; another line feed is only allowed in
a literal over several lines. -/
def literalEnd (quote : CodePoint) (severalLines : Bool) : Text → Option Nat
  | [] => none
  | .scalar '\\' :: c :: rest =>
    if c = '\n' then none else (literalEnd quote severalLines rest).map (· + 2)
  | c :: rest =>
    if c = quote then some 1
    else if c = '\\' ∨ (c = '\n' ∧ !severalLines) then none
    else (literalEnd quote severalLines rest).map (· + 1)

/-- Matches a literal between two `quote`s. -/
def quotedLiteral (quote : CodePoint) (severalLines : Bool) : Text → Nat
  | [] => 0
  | c :: rest =>
    if c = quote then
      match literalEnd quote severalLines rest with
      | some n => n + 1
      | none => 0
    else 0

/-! ## The rules in their order -/

/-- Whether a regular expression may begin behind a token of this kind. -/
def regexAllowed : Option Kind → Bool
  | none => true
  | some k => !k.endsOperand

/-- The rules of the lexer.  The first that matches decides. -/
def all : List Rule :=
  [⟨none, run CodePoint.isBlank, fun _ ↦ true⟩,
   ⟨some .lineComment, lineComment, fun _ ↦ true⟩,
   ⟨some .blockComment, blockComment, fun _ ↦ true⟩] ++
  Keyword.all.map (fun k ↦ ⟨some (.keyword k), word k.spelling, fun _ ↦ true⟩) ++
  [⟨some .consoleLog, word "console.log", fun _ ↦ true⟩,
   ⟨some .regex, regex, regexAllowed⟩,
   ⟨some .identifier, identifier, fun _ ↦ true⟩,
   ⟨some .number, number, fun _ ↦ true⟩,
   ⟨some .string, quotedLiteral '"' false, fun _ ↦ true⟩,
   ⟨some .string, quotedLiteral '\'' false, fun _ ↦ true⟩,
   ⟨some .template, quotedLiteral '`' true, fun _ ↦ true⟩] ++
  Mark.all.map (fun m ↦ ⟨some (.mark m), literal m.spelling, fun _ ↦ true⟩)

/-- What a rule makes of a text behind a token of kind `before`: the kind of the token, if one is
produced, and the number of code points matched, which is not zero. -/
def attempt (before : Option Kind) (t : Text) (r : Rule) : Option (Option Kind × Nat) :=
  if r.allowed before ∧ 0 < r.length t then some (r.kind, r.length t) else none

/-- What the first rule that matches makes of a text. -/
def first? (before : Option Kind) (t : Text) : Option (Option Kind × Nat) :=
  all.findSome? (attempt before t)

theorem pos_of_attempt {before : Option Kind} {t : Text} {r : Rule} {k : Option Kind} {n : Nat}
    (h : r.attempt before t = some (k, n)) : 0 < n := by
  rw [attempt] at h
  split at h
  · rename_i hr
    simp only [Option.some.injEq, Prod.mk.injEq] at h
    exact h.2 ▸ hr.2
  · exact absurd h (by simp)

/-- **A match is not empty**, so the lexer moves on with every match. -/
theorem pos_of_first? {before : Option Kind} {t : Text} {k : Option Kind} {n : Nat}
    (h : first? before t = some (k, n)) : 0 < n := by
  obtain ⟨r, _, hr⟩ := List.exists_of_findSome?_eq_some h
  exact pos_of_attempt hr

end Rule

end Advplc

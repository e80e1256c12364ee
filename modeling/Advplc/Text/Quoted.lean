import Advplc.Text.Printable

/-!
# Quoted texts

`Text.quoted` writes a text between quotes so that it fits on a line and can be told from the text
around it.  The quote is the apostrophe, unless the text holds an apostrophe and no quotation mark,
in which case it is the quotation mark.  The backslash and the chosen quote are written after a
backslash, line feed, carriage return and tab by a letter, and every other code point that is not
printable by its number in two, four or eight hexadecimal digits.
-/

set_option autoImplicit false

namespace Advplc

/-- The last `k` hexadecimal digits of `n`, in lower case. -/
def hexDigits : Nat → Nat → Text
  | 0, _ => []
  | k + 1, n => hexDigits k (n / 16) ++ [CodePoint.scalar (Nat.digitChar (n % 16))]

/-- How a code point is written between two `quote`s. -/
def CodePoint.quotedIn (quote : CodePoint) (c : CodePoint) : Text :=
  if c = quote ∨ c = '\\' then ['\\', c]
  else if c = '\n' then "\\n"
  else if c = '\r' then "\\r"
  else if c = '\t' then "\\t"
  else if c.isPrintable then [c]
  else if c.val < 0x100 then "\\x" ++ hexDigits 2 c.val
  else if c.val < 0x10000 then "\\u" ++ hexDigits 4 c.val
  else "\\U" ++ hexDigits 8 c.val

/-- The quote a text is written between. -/
def Text.quoteFor (t : Text) : CodePoint :=
  if CodePoint.scalar '\'' ∈ t ∧ CodePoint.scalar '"' ∉ t then '"' else '\''

/-- A text between quotes, on one line. -/
def Text.quoted (t : Text) : Text :=
  [t.quoteFor] ++ t.flatMap (CodePoint.quotedIn t.quoteFor) ++ [t.quoteFor]

end Advplc

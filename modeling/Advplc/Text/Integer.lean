import Advplc.Text.Blank
import Advplc.Text.Digit

/-!
# Integers as they are typed in

An integer on a command line may have blanks around it, a sign in front, and single underscores
between its digits, which may be the digits of any script.  The information separators, which are
blank elsewhere, do not count as blanks here.
-/

set_option autoImplicit false

namespace Advplc

/-- Whether a code point may stand around an integer. -/
def CodePoint.isPadding (c : CodePoint) : Bool := c.isBlank && !(0x1C ≤ c.val && c.val ≤ 0x1F)

namespace Text

/-- A text without the padding at either end. -/
def withoutPadding (t : Text) : Text :=
  ((t.dropWhile CodePoint.isPadding).reverse.dropWhile CodePoint.isPadding).reverse

/-- The digits of a numeral without the underscores between them; `none` where an underscore does
not stand between two digits. -/
def withoutUnderscores : Text → Option Text
  | [] => some []
  | [c] => if c = '_' then none else some [c]
  | c :: d :: rest =>
    if c = '_' then none
    else if d = '_' then
      match rest with
      | [] => none
      | _ :: _ => (withoutUnderscores rest).map (c :: ·)
    else (withoutUnderscores (d :: rest)).map (c :: ·)

/-- The natural number of a numeral without a sign. -/
def unsigned? (t : Text) : Option Nat := (withoutUnderscores t).bind natural?

/-- The integer that a text stands for. -/
def integer? (t : Text) : Option Int :=
  match t.withoutPadding with
  | .scalar '-' :: digits => (unsigned? digits).map fun n ↦ -Int.ofNat n
  | .scalar '+' :: digits => (unsigned? digits).map Int.ofNat
  | digits => (unsigned? digits).map Int.ofNat

end Text

end Advplc

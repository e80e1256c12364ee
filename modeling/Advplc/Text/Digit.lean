import Advplc.Text.Basic

/-!
# Decimal digits

Unicode has many sets of decimal digits, and each of them occupies ten consecutive code points that
begin with its zero.  A table of the zeros therefore gives both which code points are digits and
what each of them is worth.  A numeral may use the digits of any set, or of several at once, and has
one value; `Text.ofNat` writes that value back with the ASCII digits.
-/

set_option autoImplicit false

namespace Advplc

/-- The zero of every set of decimal digits, in ascending order. -/
def digitZeros : List Nat :=
  [0x30, 0x0660, 0x06F0, 0x07C0, 0x0966, 0x09E6, 0x0A66, 0x0AE6, 0x0B66, 0x0BE6, 0x0C66, 0x0CE6,
   0x0D66, 0x0DE6, 0x0E50, 0x0ED0, 0x0F20, 0x1040, 0x1090, 0x17E0, 0x1810, 0x1946, 0x19D0, 0x1A80,
   0x1A90, 0x1B50, 0x1BB0, 0x1C40, 0x1C50, 0xA620, 0xA8D0, 0xA900, 0xA9D0, 0xA9F0, 0xAA50, 0xABF0,
   0xFF10, 0x104A0, 0x10D30, 0x11066, 0x110F0, 0x11136, 0x111D0, 0x112F0, 0x11450, 0x114D0, 0x11650,
   0x116C0, 0x11730, 0x118E0, 0x11950, 0x11C50, 0x11D50, 0x11DA0, 0x16A60, 0x16AC0, 0x16B50,
   0x1D7CE, 0x1D7D8, 0x1D7E2, 0x1D7EC, 0x1D7F6, 0x1E140, 0x1E2F0, 0x1E950, 0x1FBF0]

/-- The value of `n` as a decimal digit, given the zeros that may still be its own. -/
def digitValueIn : List Nat → Nat → Option Nat
  | [], _ => none
  | base :: rest, n =>
    if n < base then none else if n < base + 10 then some (n - base) else digitValueIn rest n

namespace CodePoint

/-- The value of a decimal digit. -/
def digitValue? (c : CodePoint) : Option Nat := digitValueIn digitZeros c.val

/-- Whether a code point is a decimal digit. -/
def isDigit (c : CodePoint) : Bool := c.digitValue?.isSome

end CodePoint

namespace Text

/-- The number that the digits `t` write after the number `n`. -/
def numeralAfter (n : Nat) : Text → Option Nat
  | [] => some n
  | c :: rest =>
    match c.digitValue? with
    | some d => numeralAfter (10 * n + d) rest
    | none => none

/-- The number a non-empty sequence of decimal digits writes.  Any other text writes none. -/
def natural? (t : Text) : Option Nat := if t.isEmpty then none else numeralAfter 0 t

end Text

end Advplc

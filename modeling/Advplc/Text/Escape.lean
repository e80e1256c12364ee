import Advplc.Text.Basic

/-!
# Escapes in string literals

Between its quotes a string literal stands for a text in which every backslash and what follows it
have been replaced.  After `u` and four hexadecimal digits it is the code point with that number,
which may be a surrogate; after one of `n t r 0 b f v` it is the control character of that name; a
backslash at the end of a line joins the line to the next; and any other code point stands for
itself.  A backslash that nothing follows stays.
-/

set_option autoImplicit false

namespace Advplc

namespace CodePoint

/-- The value of an ASCII hexadecimal digit, in either case. -/
def hexValue? : CodePoint → Option Nat
  | .scalar c =>
    if '0' ≤ c ∧ c ≤ '9' then some (c.toNat - 48)
    else if 'a' ≤ c ∧ c ≤ 'f' then some (c.toNat - 87)
    else if 'A' ≤ c ∧ c ≤ 'F' then some (c.toNat - 55)
    else none
  | .surrogate _ => none

/-- What a backslash and this code point stand for together, numbered escapes apart. -/
def escaped (c : CodePoint) : Text :=
  match c with
  | .scalar 'n' => ['\n']
  | .scalar 't' => ['\t']
  | .scalar 'r' => ['\r']
  | .scalar '0' => ['\x00']
  | .scalar 'b' => ['\x08']
  | .scalar 'f' => ['\x0c']
  | .scalar 'v' => ['\x0b']
  | .scalar '\n' => []
  | _ => [c]

end CodePoint

namespace Text

/-- The code point that four hexadecimal digits number. -/
def numbered? (a b c d : CodePoint) : Option CodePoint :=
  match a.hexValue?, b.hexValue?, c.hexValue?, d.hexValue? with
  | some i, some j, some k, some l => some (CodePoint.ofNat (((i * 16 + j) * 16 + k) * 16 + l))
  | _, _, _, _ => none

/-- The text that the inside of a string literal stands for. -/
def unescape : Text → Text
  | .scalar '\\' :: .scalar 'u' :: a :: b :: c :: d :: rest =>
    match numbered? a b c d with
    | some e => e :: unescape rest
    | none => 'u' :: unescape (a :: b :: c :: d :: rest)
  | .scalar '\\' :: c :: rest => c.escaped ++ unescape rest
  | c :: rest => c :: unescape rest
  | [] => []

end Text

end Advplc

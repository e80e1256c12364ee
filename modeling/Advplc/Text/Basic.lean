/-!
# Code points and texts

A `Text` is a list of code points, and a code point is either a Unicode scalar value (a `Char`) or
one of the 2048 surrogates.  Surrogates have to be representable because an escape such as `\uD83D`
in a string literal names one, and two such escapes in a row are two code points that are never
joined.  A source file never holds one, and a text that holds one cannot be written as UTF-8; both
facts are visible in the type, because a surrogate has a constructor of its own.

Being plain lists, texts inherit the whole list library.  What is added here is the bridge from
string literals, decimal numerals, and the few operations on separators and line ends that the rest
of the library is written with.
-/

set_option autoImplicit false

namespace Advplc

/-- A Unicode code point: a scalar value, or a surrogate given by its distance from `U+D800`. -/
inductive CodePoint where
  | scalar (c : Char)
  | surrogate (index : Fin 0x800)
deriving DecidableEq

namespace CodePoint

instance : Coe Char CodePoint := ⟨.scalar⟩

/-- The number of a code point. -/
def val : CodePoint → Nat
  | .scalar c => c.toNat
  | .surrogate i => 0xD800 + i.val

/-- The code point with the number `n`, for an `n` that is the number of one. -/
def ofNat (n : Nat) : CodePoint :=
  if n.isValidChar then .scalar (Char.ofNat n) else .surrogate (Fin.ofNat _ (n - 0xD800))

/-- Code points are ordered by their numbers. -/
def le (a b : CodePoint) : Bool := a.val ≤ b.val

end CodePoint

/-- A text: a sequence of code points. -/
abbrev Text := List CodePoint

namespace Text

/-- The code points of a string. -/
def ofString (s : String) : Text := s.toList.map CodePoint.scalar

instance : Coe String Text := ⟨ofString⟩

/-- A natural number in decimal digits. -/
def ofNat (n : Nat) : Text := (Nat.toDigits 10 n).map CodePoint.scalar

/-- An integer in decimal digits, with a minus sign in front of a negative one. -/
def ofInt : Int → Text
  | .ofNat n => ofNat n
  | .negSucc n => "-" ++ ofNat (n + 1)

/-- The texts of a list one after another, with `sep` between neighbours. -/
def joinWith (sep : Text) (ts : List Text) : Text := List.intercalate sep ts

/-- The text repeated `n` times. -/
def times (n : Nat) (t : Text) : Text := (List.replicate n t).flatten

/-- Cuts a text at every `sep`.  There is always one more part than there are separators, so the
empty text has one empty part. -/
def splitAt (sep : CodePoint) : Text → List Text
  | [] => [[]]
  | c :: rest =>
    if c = sep then [] :: splitAt sep rest
    else match splitAt sep rest with
      | [] => [[c]]
      | part :: parts => (c :: part) :: parts

/-- The lines of a text, which are what stands between its line feeds. -/
def lines (t : Text) : List Text := splitAt '\n' t

/-- Every carriage return that a line feed follows is dropped. -/
def joinLineEnds : Text → Text
  | .scalar '\r' :: .scalar '\n' :: rest => '\n' :: joinLineEnds rest
  | c :: rest => c :: joinLineEnds rest
  | [] => []

/-- The text with `replacement` in place of every `c`. -/
def substitute (c : CodePoint) (replacement : Text) (t : Text) : Text :=
  t.flatMap fun d ↦ if d = c then replacement else [d]

/-- The lexicographic order on texts, by the numbers of their code points. -/
def le : Text → Text → Bool
  | [], _ => true
  | _ :: _, [] => false
  | a :: s, b :: t => if a = b then le s t else a.le b

/-- The text without its first and its last `n` code points. -/
def trimEnds (n : Nat) (t : Text) : Text := (t.drop n).take (t.length - 2 * n)

end Text

end Advplc

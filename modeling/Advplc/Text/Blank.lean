import Advplc.Text.Basic
import Advplc.Text.Ranges

/-!
# White space

The blank code points are the ones Unicode counts as white space together with the four information
separators `U+001C` to `U+001F`.  The zero-width space, the byte order mark and the Mongolian vowel
separator are not blank.

`trim` and `trimRight` cut blanks off the ends of a text; `words` are the maximal runs without one.
-/

set_option autoImplicit false

namespace Advplc

/-- The ranges of blank code points. -/
def blankRanges : Ranges :=
  [(0x09, 0x0D), (0x1C, 0x20), (0x85, 0x85), (0xA0, 0xA0), (0x1680, 0x1680), (0x2000, 0x200A),
   (0x2028, 0x2029), (0x202F, 0x202F), (0x205F, 0x205F), (0x3000, 0x3000)]

/-- Whether a code point is white space. -/
def CodePoint.isBlank (c : CodePoint) : Bool := blankRanges.has c.val

namespace Text

/-- The text without the blanks at its beginning. -/
def trimLeft (t : Text) : Text := t.dropWhile CodePoint.isBlank

/-- The text without the blanks at its end. -/
def trimRight (t : Text) : Text := (trimLeft t.reverse).reverse

/-- The text without the blanks at either end. -/
def trim (t : Text) : Text := trimRight (trimLeft t)

/-- The maximal runs of code points that are not blank.  `word` holds the run that the text goes on
with, in reverse. -/
def wordsAfter (word : Text) : Text → List Text
  | [] => if word.isEmpty then [] else [word.reverse]
  | c :: rest =>
    if c.isBlank then
      if word.isEmpty then wordsAfter [] rest else word.reverse :: wordsAfter [] rest
    else wordsAfter (c :: word) rest

/-- The maximal runs of code points that are not blank. -/
def words (t : Text) : List Text := wordsAfter [] t

/-- The text on one line: its words with one space between neighbours. -/
def squeeze (t : Text) : Text := joinWith " " (words t)

end Text

end Advplc

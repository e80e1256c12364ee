import Advplc.Text.Blank

/-!
# Comments and includes

How the texts of comments and the paths of modules look in generated code.

A comment over several lines loses the column of stars that such comments are often written with,
and the empty lines at its ends, and gets a column of stars of its own.
-/

set_option autoImplicit false

namespace Advplc.Lowering

/-! ## Comments -/

/-- A comment to the end of the line. -/
def lineCommentText (text : Text) : Text :=
  if text.trim.isEmpty then "//" else "// " ++ text.trim

/-- A line without the star, and the blank behind it, that it begins with. -/
def withoutGutter : Text → Text
  | .scalar '*' :: c :: rest => if c.isBlank then rest else c :: rest
  | [.scalar '*'] => []
  | line => line

/-- The lines without the empty ones at the beginning. -/
def dropEmpty (lines : List Text) : List Text := lines.dropWhile List.isEmpty

/-- What a comment over several lines says, line by line. -/
def commentBody (lines : List Text) : List Text :=
  (dropEmpty (dropEmpty (lines.map fun line ↦ withoutGutter line.trim)).reverse).reverse

/-- The lines that a block comment becomes. -/
def blockCommentLines (text : Text) : List Text :=
  match text.lines with
  | [_] => ["/* " ++ text.trim ++ " */"]
  | lines =>
    ("/*" : Text) :: ((commentBody lines).map fun line ↦ Text.trimRight (" * " ++ line)) ++
      [(" */" : Text)]

/-! ## Includes -/

/-- The text without `ending`, if it ends with it. -/
def withoutEnding (ending t : Text) : Text :=
  if ending.isSuffixOf t then t.take (t.length - ending.length) else t

/-- The text with `ending` at its end, which is added if it is missing. -/
def withEnding (ending t : Text) : Text := if ending.isSuffixOf t then t else t ++ ending

/-- The text without the `./` that it begins with. -/
def withoutHere : Text → Text
  | .scalar '.' :: .scalar '/' :: rest => rest
  | t => t

/-- The file to include for a module: the ending of a script is replaced by that of an include file,
and the parts of the path are separated by backslashes. -/
def includePath (source : Text) : Text :=
  Text.substitute '/' "\\" (withEnding ".ch" (withoutEnding ".js" (withoutHere source)))

end Advplc.Lowering

import Advplc.Target.Code

/-!
# Laying out a file

A generated file is a header, a comment that describes it, followed by the lines of its code.  How
the lines are indented, what the header says about the date and which words begin a function are
options.
-/

set_option autoImplicit false

namespace Advplc.Target

/-- The options of generated code. -/
structure Options where
  /-- The indentation of one level.  Without one, no line can be indented. -/
  indent : Option Text := some "    "
  /-- The date in the header, which is left out when there is none. -/
  since : Option Text := none
  /-- The words before the name of a function. -/
  functionWords : Text := "User Function"
  /-- The name of an option that does not exist but was given. -/
  unknown : Option Text := none

/-- A line indented `level` times; a negative level counts as zero.  An empty line stays empty. -/
def indented (indent : Text) (level : Int) (text : Text) : Text :=
  if text.isEmpty then [] else Text.times level.toNat indent ++ text

/-- Whether a line is empty. -/
def Entry.isBlank (e : Entry) : Bool := e.text.isEmpty

/-- A line as it is written when the outermost lines stand at `level`. -/
def Entry.render (indent : Text) (level : Int) (e : Entry) : Text :=
  indented indent (level + e.depth) e.text

/-- The header up to its date. -/
def headerTop : List Text :=
  ["#INCLUDE \"Protheus.ch\"",
   "",
   "/*/\x7bProtheus.doc\x7d Generated-File",
   "Description: Auto-generated AdvPL code",
   "@type function",
   "@author Transpiler"]

/-- The line of the header with the date, if there is one. -/
def dateLine : Option Text → List Text
  | some date => ["@since " ++ date]
  | none => []

/-- The end of the header. -/
def headerEnd : List Text := ["/*/", ""]

/-- The lines of the header. -/
def header (since : Option Text) : List Text := headerTop ++ dateLine since ++ headerEnd

/-- A file with the given lines. -/
def file (lines : List Text) : Text := Text.joinWith "\n" lines ++ "\n"

end Advplc.Target

import Advplc.Text.Basic

/-!
# Paths

A path is a list of names, taken from the root of the file system or from the working directory.
Empty parts and single points mean nothing and are dropped when a path is read; a double point is
kept, since what it means depends on the directories that exist.
-/

set_option autoImplicit false

namespace Advplc.File

/-- A path in normal form. -/
structure Path where
  /-- The slashes in front of a path that is taken from the root. -/
  root : Text
  /-- The names, none of them empty or a single point. -/
  parts : List Text
deriving DecidableEq

namespace Path

/-- The slashes that a path begins with.  Exactly two are kept apart from one; more count as one. -/
def rootOf : Text → Text
  | .scalar '/' :: .scalar '/' :: rest => if rest.head? = some '/' then "/" else "//"
  | .scalar '/' :: _ => "/"
  | _ => []

/-- Whether a part of a path means something. -/
def isName (part : Text) : Bool := !part.isEmpty && part ≠ "."

/-- The path that a text stands for. -/
def ofText (t : Text) : Path := ⟨rootOf t, (Text.splitAt '/' t).filter isName⟩

/-- A path as text.  The empty path is written as a point. -/
def label (p : Path) : Text :=
  if p.root.isEmpty ∧ p.parts.isEmpty then "." else p.root ++ Text.joinWith "/" p.parts

/-- The directory that a path lies in. -/
def parent (p : Path) : Path := { p with parts := p.parts.dropLast }

/-- The last name of a path. -/
def name (p : Path) : Text := p.parts.getLastD []

/-- The path of a name in a directory. -/
def child (p : Path) (name : Text) : Path := { p with parts := p.parts ++ [name] }

/-- A name without its ending, which is its last point and what follows it.  A point at the
beginning or at the end of a name does not begin an ending. -/
def stem (name : Text) : Text :=
  let ending := name.reverse.takeWhile fun c : CodePoint ↦ c ≠ '.'
  let front := name.length - ending.length - 1
  if ending.length < name.length ∧ 0 < front ∧ 0 < ending.length then name.take front else name

/-- The path with another ending. -/
def withEnding (ending : Text) (p : Path) : Path :=
  { p with parts := p.parts.dropLast ++ [stem p.name ++ ending] }

end Path

end Advplc.File

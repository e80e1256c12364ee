import Advplc.File.Path
import Advplc.Text.Utf8

/-!
# File systems

What the compiler asks of a file system, and how a file system refuses.  `FileSystem m` is the
interface: the same programs run on the files of a machine and on a tree of files that is a plain
value.
-/

set_option autoImplicit false

namespace Advplc.File

/-- Why a file system refuses. -/
inductive Refusal where
  | missing
  | occupied
  | notDirectory
  | isDirectory
  | nameTooLong
  /-- The path holds a null character, and is no path for that reason. -/
  | nullCharacter
deriving DecidableEq

namespace Refusal

/-- The number of a refusal.  What is no path is refused without one. -/
def number : Refusal → Option Nat
  | missing => some 2
  | occupied => some 17
  | notDirectory => some 20
  | isDirectory => some 21
  | nameTooLong => some 36
  | nullCharacter => none

/-- What is said about a refusal. -/
def message : Refusal → Text
  | missing => "No such file or directory"
  | occupied => "File exists"
  | notDirectory => "Not a directory"
  | isDirectory => "Is a directory"
  | nameTooLong => "File name too long"
  | nullCharacter => "embedded null byte"

/-- Whether a refusal to look at a path only says that there is nothing. -/
def meansNothing : Refusal → Bool
  | missing | notDirectory | nullCharacter => true
  | occupied | isDirectory | nameTooLong => false

end Refusal

/-- A refusal and the path it is about. -/
structure SystemError where
  /-- Why the file system refuses. -/
  refusal : Refusal
  /-- What it was asked for. -/
  path : Path
deriving DecidableEq

/-- What the error says. -/
def SystemError.message (e : SystemError) : Text :=
  match e.refusal.number with
  | some n =>
    "[Errno " ++ Text.ofNat n ++ "] " ++ e.refusal.message ++ ": " ++ e.path.label.quoted
  | none => e.refusal.message

/-- A file system that is used in the monad `m`. -/
class FileSystem (m : Type → Type) where
  /-- Whether there is a file at a path. -/
  isFile : Path → m (Except Refusal Bool)
  /-- Whether there is a directory at a path. -/
  isDirectory : Path → m (Except Refusal Bool)
  /-- What a file contains. -/
  read : Path → m Bytes
  /-- The names in a directory. -/
  names : Path → m (List Text)
  /-- Makes a directory in a directory that exists. -/
  makeDirectory : Path → m (Except Refusal Unit)
  /-- Makes an empty file, or empties one that exists. -/
  openFile : Path → m (Except Refusal Unit)
  /-- Fills a file that was opened. -/
  fill : Path → Bytes → m Unit

section

variable {m : Type → Type} [Monad m] [FileSystem m]

/-- What a refusal to make a directory means: nothing if the directory is there. -/
def unlessDirectory (p : Path) (r : Refusal) : m (Except SystemError Unit) := do
  match ← FileSystem.isDirectory p with
  | .ok true => return .ok ()
  | _ => return .error ⟨r, p⟩

/-- Makes a directory and, `n` levels up at most, the directories that it lies in. -/
def makeDirectoriesAt (n : Nat) (p : Path) : m (Except SystemError Unit) := do
  match ← FileSystem.makeDirectory p with
  | .ok () => return .ok ()
  | .error .missing =>
    match n with
    | 0 => return .error ⟨.missing, p⟩
    | n + 1 =>
      match ← makeDirectoriesAt n p.parent with
      | .error e => return .error e
      | .ok () =>
        match ← FileSystem.makeDirectory p with
        | .ok () => return .ok ()
        | .error r => unlessDirectory p r
  | .error r => unlessDirectory p r

/-- Makes a directory and the directories that it lies in, and leaves alone those that exist. -/
def makeDirectories (p : Path) : m (Except SystemError Unit) :=
  makeDirectoriesAt p.parts.length p

end

end Advplc.File

import Advplc.Compile
import Advplc.File.System

/-!
# Compiling files

`compileFile` compiles one file and `compileDirectory` every script in a directory.  The source is
read and compiled before anything is written, so that a faulty source leaves the file system as it
was.  The output is opened before its text is encoded: a text that cannot be encoded leaves an empty
file behind.
-/

set_option autoImplicit false

namespace Advplc.File

/-- The ending of a script. -/
def sourceEnding : Text := ".js"

/-- The ending of generated code. -/
def targetEnding : Text := ".prw"

/-- Why a file or a directory cannot be compiled. -/
inductive FileError where
  | noFile (path : Path)
  | noDirectory (path : Path)
  | compile (e : CompileError)
  | decode (e : Utf8.DecodeError)
  | encode (e : Utf8.EncodeError)
  | system (e : SystemError)
  /-- The error is in one of the files of a directory. -/
  | inFile (name : Text) (e : FileError)

namespace FileError

/-- What the error says. -/
def message : FileError → Text
  | noFile path => "File not found: " ++ path.label
  | noDirectory path => "Input directory not found: " ++ path.label
  | compile e => e.message
  | decode e => e.message
  | encode e => e.message
  | system e => e.message
  | inFile name e => name ++ ": " ++ e.message

/-- Whether the input is at fault: it is missing, or it is not a program. -/
def isFlaw : FileError → Bool
  | noFile _ | noDirectory _ | inFile _ _ => true
  | compile e => e.isFlaw
  | decode _ | encode _ | system _ => false

end FileError

/-- Lines of a file end with a line feed, with a carriage return and a line feed, or with a carriage
return; when a file is read, each of these becomes a line feed. -/
def plainLineEnds (t : Text) : Text :=
  t.joinLineEnds.map fun c : CodePoint ↦ if c = '\r' then '\n' else c

section

variable {m : Type → Type} [Monad m] [FileSystem m]

/-- Writes a text into a file, whose directory is made if necessary. -/
def writeText (output : Path) (t : Text) : m (Except FileError Unit) := do
  match ← makeDirectories output.parent with
  | .error e => return .error (.system e)
  | .ok () =>
    match ← FileSystem.openFile output with
    | .error r => return .error (.system ⟨r, output⟩)
    | .ok () =>
      match Utf8.encode t with
      | .error e => return .error (.encode e)
      | .ok bytes =>
        FileSystem.fill output bytes
        return .ok ()

/-- Compiles a file into another one, which by default has the same name with another ending.
Returns the path of the generated file. -/
def compileFile (options : Target.Options) (input : Path) (output : Option Path) :
    m (Logged (Except FileError Path)) := do
  match ← FileSystem.isFile input with
  | .error r => return ⟨[], .error (.system ⟨r, input⟩)⟩
  | .ok false => return ⟨[], .error (.noFile input)⟩
  | .ok true =>
    match Utf8.decode (← FileSystem.read input) with
    | .error e => return ⟨[], .error (.decode e)⟩
    | .ok text =>
      let compiled := compile options (plainLineEnds text)
      match compiled.outcome with
      | .error e => return ⟨compiled.log, .error (.compile e)⟩
      | .ok code =>
        let output := output.getD (input.withEnding targetEnding)
        match ← writeText output code with
        | .error e => return ⟨compiled.log, .error e⟩
        | .ok () =>
          let record : Record := ⟨.info, "Generated " ++ output.label⟩
          return ⟨compiled.log ++ [record], .ok output⟩

/-- Compiles scripts of a directory one after another, until one fails.  Returns the paths of the
generated files. -/
def compileAll (options : Target.Options) (input output : Path) :
    List Text → m (Logged (Except FileError (List Path)))
  | [] => return ⟨[], .ok []⟩
  | name :: names => do
    let source := input.child name
    let target := output.child (source.withEnding targetEnding).name
    let first ← compileFile options source (some target)
    match first.outcome with
    | .error e => return ⟨first.log, .error (if e.isFlaw then .inFile name e else e)⟩
    | .ok path =>
      let others ← compileAll options input output names
      return ⟨first.log ++ others.log, others.outcome.map (path :: ·)⟩

/-- The names of scripts among the names in a directory, in order. -/
def scriptNames (names : List Text) : List Text :=
  (names.filter sourceEnding.isSuffixOf).mergeSort Text.le

/-- Makes sure that there is a directory to read. -/
def findDirectory (input : Path) : m (Except FileError Unit) := do
  match ← FileSystem.isDirectory input with
  | .error r => return .error (.system ⟨r, input⟩)
  | .ok false => return .error (.noDirectory input)
  | .ok true => return .ok ()

/-- Compiles every script in a directory into another directory.  Returns the paths of the generated
files. -/
def compileDirectory (options : Target.Options) (input output : Path) :
    m (Logged (Except FileError (List Path))) := do
  match ← findDirectory input with
  | .error e => return ⟨[], .error e⟩
  | .ok () =>
    match ← makeDirectories output with
    | .error e => return ⟨[], .error (.system e)⟩
    | .ok () =>
      let names ← FileSystem.names input
      let all ← compileAll options input output (scriptNames names)
      match all.outcome with
      | .error e => return ⟨all.log, .error e⟩
      | .ok paths =>
        let record : Record :=
          ⟨.info, "Transpiled " ++ Text.ofNat paths.length ++ " file(s) into " ++ output.label⟩
        return ⟨all.log ++ [record], .ok paths⟩

end

end Advplc.File

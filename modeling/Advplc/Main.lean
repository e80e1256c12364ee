import Advplc.CommandLine.Run
import Std.Time.Zoned

/-!
# The program

The tool on the files of a machine, with the arguments and the clock of a process.  Everything that
is decided is decided in `CommandLine.run`; here are only the ways in and out.
-/

set_option autoImplicit false

namespace Advplc

/-- A text as a string.  No string holds a surrogate, which becomes the replacement character. -/
def Text.toPlain (t : Text) : String :=
  String.ofList (t.map fun
    | .scalar c => c
    | .surrogate _ => '\uFFFD')

namespace File

/-- The reason with a given number.  Some calls report the number negated. -/
def Refusal.ofCode? (code : UInt32) : Option Refusal :=
  [Refusal.notDirectory, Refusal.isDirectory, Refusal.nameTooLong].find? fun r ↦
    r.number = some code.toNat ∨ r.number = some (-code).toNat

/-- The reason for which a file system refused, if it is one of those that the compiler knows. -/
def Refusal.ofError? : IO.Error → Option Refusal
  | .noFileOrDirectory _ _ _ => some .missing
  | .alreadyExists _ _ _ => some .occupied
  | .inappropriateType _ code _ | .invalidArgument _ code _ => Refusal.ofCode? code
  | _ => none

/-- Does something that may be refused. -/
def attempt (act : IO Unit) : IO (Except Refusal Unit) := do
  try
    act
    return .ok ()
  catch e =>
    match Refusal.ofError? e with
    | some r => return .error r
    | none => throw e

/-- Whether there is something of the given type at a path. -/
def hasType (type : IO.FS.FileType) (p : Path) : IO (Except Refusal Bool) := do
  try
    let found ← ((← IO.currentDir) / p.label.toPlain).metadata
    return .ok (found.type == type)
  catch e =>
    match Refusal.ofError? e with
    | some .nameTooLong => return .error .nameTooLong
    | _ => return .ok false

instance : FileSystem IO where
  isFile := hasType .file
  isDirectory := hasType .dir
  read p := do return (← IO.FS.readBinFile p.label.toPlain).data.toList
  names p := do
    let entries ← ((← IO.currentDir) / p.label.toPlain).readDir
    return entries.toList.map fun entry ↦ Text.ofString entry.fileName
  makeDirectory p := attempt (IO.FS.createDir p.label.toPlain)
  openFile p := attempt (IO.FS.writeBinFile p.label.toPlain .empty)
  fill p content := IO.FS.writeBinFile p.label.toPlain ⟨content.toArray⟩

end File

namespace CommandLine

/-- A number with at least `width` digits. -/
def padded (width n : Nat) : Text :=
  let digits := Text.ofNat n
  Text.times (width - digits.length) "0" ++ digits

/-- A date as year, month and day. -/
def dateText (d : Std.Time.PlainDate) : Text :=
  padded 4 d.year.toInt.toNat ++ "-" ++ padded 2 d.month.val.toNat ++ "-" ++
    padded 2 d.day.val.toNat

/-- The code with which a process ends. -/
def Ending.code : Ending → Nat
  | exit code => code
  | raised _ => 1

/-- What is shown of an error that is passed on. -/
def Ending.trace : Ending → Text
  | exit _ => []
  | raised e => e.message ++ "\n"

end CommandLine

end Advplc

open Advplc in
/-- Runs the tool with the arguments of the process. -/
def main (arguments : List String) : IO UInt32 := do
  let today := CommandLine.dateText (← Std.Time.PlainDate.now)
  let report : CommandLine.Report ← CommandLine.run today (arguments.map Text.ofString)
  (← IO.getStdout).putStr report.output.toPlain
  (← IO.getStderr).putStr (report.diagnostics ++ report.ending.trace).toPlain
  return UInt32.ofNat report.ending.code

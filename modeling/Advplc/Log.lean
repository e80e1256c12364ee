import Advplc.Text.Basic

/-!
# Log records

What the compiler reports about its work is data: a computation that reports is `Logged`, its
outcome together with the records it made, in order.  Who runs it decides which records are shown.
-/

set_option autoImplicit false

namespace Advplc

/-- How important a record is. -/
inductive Level where
  | debug
  | info
  | error
deriving DecidableEq

namespace Level

/-- What a level is called. -/
def name : Level → Text
  | debug => "DEBUG"
  | info => "INFO"
  | error => "ERROR"

/-- The levels from the least important on. -/
def rank : Level → Nat
  | debug => 0
  | info => 1
  | error => 2

end Level

/-- One report. -/
structure Record where
  /-- How important it is. -/
  level : Level
  /-- What it says. -/
  message : Text
deriving DecidableEq

/-- A record as a line of output. -/
def Record.line (r : Record) : Text := r.level.name ++ ": " ++ r.message ++ "\n"

/-- An outcome with the records that were made on the way to it. -/
structure Logged (α : Type) where
  /-- The records, in order. -/
  log : List Record
  /-- The outcome. -/
  outcome : α

/-- An outcome with further records before its own. -/
def Logged.after {α : Type} (log : List Record) (l : Logged α) : Logged α :=
  ⟨log ++ l.log, l.outcome⟩

end Advplc

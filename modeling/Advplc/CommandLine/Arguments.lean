import Advplc.Text.Digit
import Advplc.Text.Quoted

/-!
# Reading arguments

A command takes *switches*, whose names begin with a hyphen, and *operands*, which are told apart by
their order.  A `Form` says which ones, and `Form.read` turns a list of arguments into what they ask
for, a list of events in the order in which the events count.  Reading ends at the first fault,
which then is the last event.

Reading has two steps.  The first looks at every argument by itself and makes an `Item` of it.  A
switch may be written in full, with a value behind an equals sign, or with a name of two hyphens cut
short; an argument that begins with a hyphen and yet is a negative number or holds a space is an
operand; behind a double hyphen, the divider, everything is.  The second step goes through the items
and gives operands what they take.

* A switch that needs a value takes the next item, which has to be an operand.  A divider behind an
  equals sign is no value.
* Text behind a switch that is named by a letter names further switches, letter by letter, whether
  there is an equals sign before it or not.
* Operands take items as they come.  One that may be left out is left out for good if a switch
  stands where it could have been.
* What nobody takes is an extra.  Whether extras are allowed is left to the command.
-/

set_option autoImplicit false

namespace Advplc.CommandLine

/-! ## What a command takes -/

/-- A switch.  A switch that is named by a letter takes no value. -/
structure Switch (σ : Type) where
  /-- Which switch it is. -/
  key : σ
  /-- The ways to write it. -/
  names : List Text
  /-- Whether it needs a value. -/
  takesValue : Bool

/-- What a switch is called in messages. -/
def Switch.label {σ : Type} (s : Switch σ) : Text := Text.joinWith "/" s.names

/-- How much an operand takes. -/
inductive Arity where
  | one
  /-- One argument, or none. -/
  | optional
  /-- One argument and everything behind it. -/
  | everything
deriving DecidableEq

/-- An operand. -/
structure Operand where
  /-- What it is called. -/
  name : Text
  /-- How much it takes. -/
  arity : Arity
deriving DecidableEq

/-- Whether an operand has to be there. -/
def Operand.isRequired (o : Operand) : Bool := o.arity ≠ .optional

/-- What a command takes.  Operands that may be left out stand last. -/
structure Form (σ : Type) where
  /-- The switches. -/
  switches : List (Switch σ)
  /-- The operands, in order. -/
  operands : List Operand

/-! ## Faults -/

/-- What is wrong with arguments. -/
inductive Fault where
  /-- A name that was cut too short. -/
  | ambiguous (argument : Text) (names : List Text)
  | unexpectedValue (label value : Text)
  | noValue (label : Text)
  | notInteger (label value : Text)
  | unknownCommand (label given : Text) (known : List Text)
  | missing (names : List Text)
  | unrecognized (arguments : List Text)
deriving DecidableEq

namespace Fault

/-- What is said about one argument. -/
def about (label message : Text) : Text := "argument " ++ label ++ ": " ++ message

/-- What is said about a fault. -/
def message : Fault → Text
  | ambiguous argument names =>
    "ambiguous option: " ++ argument ++ " could match " ++ Text.joinWith ", " names
  | unexpectedValue label value => about label ("ignored explicit argument " ++ value.quoted)
  | noValue label => about label "expected one argument"
  | notInteger label value => about label ("invalid int value: " ++ value.quoted)
  | unknownCommand label given known =>
    about label ("invalid choice: " ++ given.quoted ++ " (choose from " ++
      Text.joinWith ", " (known.map Text.quoted) ++ ")")
  | missing names => "the following arguments are required: " ++ Text.joinWith ", " names
  | unrecognized arguments => "unrecognized arguments: " ++ Text.joinWith " " arguments

end Fault

/-! ## Items -/

/-- What an argument is by itself. -/
inductive Sense (σ : Type) where
  | divider
  | operand
  /-- A switch that the command does not know. -/
  | unknown
  /-- A switch, with the value behind its equals sign. -/
  | switch (s : Switch σ) (value : Option Text)
  /-- A switch that is named by a letter, with the text behind it. -/
  | letters (s : Switch σ) (tail : Text)

/-- An argument with its sense. -/
structure Item (σ : Type) where
  /-- The argument as it was given. -/
  argument : Text
  /-- What it is. -/
  sense : Sense σ

namespace Item

variable {σ : Type}

/-- Whether an item is the divider. -/
def isDivider (i : Item σ) : Bool :=
  match i.sense with
  | .divider => true
  | _ => false

/-- Whether an item is an operand. -/
def isOperand (i : Item σ) : Bool :=
  match i.sense with
  | .operand => true
  | _ => false

end Item

/-- The divider. -/
def dividerText : Text := "--"

/-- A text up to its first equals sign, and what stands behind that. -/
def cutAtEquals (t : Text) : Text × Option Text :=
  let name := t.takeWhile fun c : CodePoint ↦ c ≠ '='
  match t.drop name.length with
  | [] => (name, none)
  | _ :: value => (name, some value)

/-- Whether a text is a digit or more. -/
def isDigits (t : Text) : Bool := !t.isEmpty && t.all CodePoint.isDigit

/-- Whether a text is a number without a sign, which may have a point with digits behind it. -/
def isUnsigned (t : Text) : Bool :=
  match Text.splitAt '.' t with
  | [whole] => isDigits whole
  | [whole, decimals] => whole.all CodePoint.isDigit && isDigits decimals
  | _ => false

/-- Whether what follows a hyphen makes a negative number of it.  A line feed at the end does no
harm. -/
def isNegated (t : Text) : Bool :=
  isUnsigned (if t.getLast? = some '\n' then t.dropLast else t)

namespace Form

variable {σ : Type} (f : Form σ)

/-- The switch with a given name. -/
def find? (name : Text) : Option (Switch σ) := f.switches.find? fun s ↦ s.names.contains name

/-- The names that a text may be short for, with their switches. -/
def completions (short : Text) : List (Text × Switch σ) :=
  f.switches.flatMap fun s ↦ (s.names.filter short.isPrefixOf).map fun name ↦ (name, s)

/-- The sense of an argument that begins with a hyphen and is not the name of a switch. -/
def senseOfHyphen (argument : Text) : Sense σ :=
  if isNegated (argument.drop 1) || argument.contains (' ' : CodePoint) then .operand else .unknown

/-- The sense of an argument. -/
def sense (argument : Text) : Except Fault (Sense σ) :=
  match argument with
  | .scalar '-' :: second :: tail =>
    let (name, value) := cutAtEquals argument
    match f.find? argument, f.find? name with
    | some s, _ => .ok (.switch s none)
    | none, some s => .ok (if second = '-' then .switch s value else .letters s (value.getD []))
    | none, none =>
      if second = '-' then
        match f.completions name with
        | [] => .ok (senseOfHyphen argument)
        | [(_, s)] => .ok (.switch s value)
        | several => .error (.ambiguous argument (several.map Prod.fst))
      else
        match f.find? ['-', second] with
        | some s => .ok (.letters s tail)
        | none => .ok (senseOfHyphen argument)
  | _ => .ok .operand

/-- The items that arguments are. -/
def items : List Text → Except Fault (List (Item σ))
  | [] => .ok []
  | argument :: rest =>
    if argument = dividerText then
      .ok (⟨argument, .divider⟩ :: rest.map fun a ↦ ⟨a, .operand⟩)
    else do
      let sense ← f.sense argument
      return ⟨argument, sense⟩ :: (← items rest)

end Form

/-! ## Events -/

/-- What arguments ask for. -/
inductive Event (σ : Type) where
  /-- A switch, with its value.  One that needs a value and has none was given a divider. -/
  | switch (s : Switch σ) (value : Option Text)
  | operand (o : Operand) (arguments : List Text)
  | extra (argument : Text)
  | fault (f : Fault)

section

variable {σ : Type}

/-- What an operand takes from the front of the items, and what it leaves.  A divider before or
behind it goes with it. -/
def Arity.take (a : Arity) (items : List (Item σ)) : Option (List (Item σ)) × List (Item σ) :=
  let front := items.takeWhile Item.isDivider
  match a, items.drop front.length with
  | .everything, i :: rest => if i.isOperand then (some (front ++ i :: rest), []) else (none, items)
  | _, i :: rest =>
    if i.isOperand then
      let behind := rest.takeWhile Item.isDivider
      (some (front ++ i :: behind), rest.drop behind.length)
    else if a = .optional then (some front, i :: rest)
    else (none, items)
  | .optional, [] => (some front, [])
  | _, [] => (none, items)

/-- The arguments that count among those that an operand took: the first divider does not, unless
the operand takes everything. -/
def Operand.counted (o : Operand) (taken : List (Item σ)) : List Text :=
  let arguments := taken.map Item.argument
  if o.arity = .everything then arguments else arguments.erase dividerText

/-- What a list of operands takes from the front of items. -/
structure Taking (σ : Type) where
  /-- What they take. -/
  events : List (Event σ)
  /-- The operands that are left. -/
  operands : List Operand
  /-- The items that are left. -/
  items : List (Item σ)

/-- Operands take items one after another, until one does not find what it needs. -/
def takeOperands : List Operand → List (Item σ) → Taking σ
  | [], items => ⟨[], [], items⟩
  | o :: operands, items =>
    match o.arity.take items with
    | (none, _) => ⟨[], o :: operands, items⟩
    | (some taken, rest) =>
      let others := takeOperands operands rest
      ⟨.operand o (o.counted taken) :: others.events, others.operands, others.items⟩

end

namespace Form

variable {σ : Type} (f : Form σ)

/-- What a switch and the letters behind it ask for.  There has to be a letter, and each letter has
to name a switch. -/
def letters (s : Switch σ) : Text → Except Fault (List (Event σ))
  | [] => .error (.unexpectedValue s.label [])
  | c :: rest =>
    match f.find? ['-', c] with
    | none => .error (.unexpectedValue s.label (c :: rest))
    | some next =>
      if rest.isEmpty then .ok [.switch s none, .switch next none]
      else do return .switch s none :: (← letters next rest)

/-- The value that stands behind an equals sign, unless it is the divider. -/
def counted? (value : Text) : Option Text := if value = dividerText then none else some value

/-- What is missing at the end of the arguments. -/
def atEnd (operands : List Operand) : List (Event σ) :=
  match operands.filter Operand.isRequired with
  | [] => []
  | missing => [.fault (.missing (missing.map Operand.name))]

/-- What items ask for, where `operands` are still to be found. -/
def events (operands : List Operand) (items : List (Item σ)) : List (Event σ) :=
  match items with
  | [] => atEnd operands
  | item :: rest =>
    match item.sense with
    | .unknown => .extra item.argument :: events operands rest
    | .letters s tail =>
      match f.letters s tail with
      | .error fault => [.fault fault]
      | .ok asked => asked ++ events operands rest
    | .switch s (some value) =>
      if s.takesValue then .switch s (counted? value) :: events operands rest
      else [.fault (.unexpectedValue s.label value)]
    | .switch s none =>
      if s.takesValue then
        match rest with
        | [] => [.fault (.noValue s.label)]
        | next :: rest =>
          if next.isOperand then .switch s (some next.argument) :: events operands rest
          else [.fault (.noValue s.label)]
      else .switch s none :: events operands rest
    | .divider | .operand =>
      match takeOperands operands (item :: rest) with
      | ⟨taken, others, left⟩ =>
        if left.length < (item :: rest).length then taken ++ events others left
        else .extra item.argument :: events operands rest
termination_by items.length
decreasing_by
  all_goals
    simp only [List.length_cons] at *
    omega

/-- What arguments ask for. -/
def read (arguments : List Text) : List (Event σ) :=
  match f.items arguments with
  | .error fault => [.fault fault]
  | .ok items => f.events f.operands items

end Form

end Advplc.CommandLine

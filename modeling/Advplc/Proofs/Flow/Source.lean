import Advplc.Proofs.Flow.Machine
import Advplc.Proofs.Lowering.Wording
import Mathlib.Algebra.GroupWithZero.Nat

/-!
# The control flow of programs

Programs are executed statement by statement.  What is still to be done is a list of `Task`s, and of
each loop that has been entered there is what has to be done behind it.  A `break` therefore drops
the tasks up to the end of its loop, and a `continue` does the same and then goes on to the next
round, which begins with the update and continues with the test.

What there is to run is told by the tree: a statement without statements inside is run as its lines,
a `for` loop runs its beginning if it has one, and its update if it has one.  Lines and tests are
called by their texts in generated code; the machine knows nothing else about the values of
expressions.  A test that is missing is one that always holds, `.T.`; it is asked like any other.  A
loop that counts runs the declaration of its variable, and the question is whether there is another
value for it.

Functions are not executed: a run that comes to a declaration of one ends there.
-/

set_option autoImplicit false

namespace Advplc.Flow

open Lowering

/-! ## Tasks -/

/-- A loop. -/
structure Loop where
  /-- What is asked before each round. -/
  question : Question
  /-- What is run between two rounds. -/
  update : Option Text
  /-- What is done in each round. -/
  body : List Script.Stmt

/-- A `while` loop. -/
def Loop.ofWhile (test : Script.Expr) (body : List Script.Stmt) : Loop :=
  ⟨.test (valueText test), none, body⟩

/-- What a `for` loop runs first, and what it repeats.  Whether there is another value for the
variable of a loop that counts is one question. -/
def Loop.ofFor (init : Script.ForInit) (test change : Option Script.Expr)
    (body : List Script.Stmt) : List Text × Loop :=
  match Counting.ofLoop? init test change with
  | some c => (counterLines init, ⟨.count (countText c), none, body⟩)
  | none => (initLines init, ⟨.test (testText test), change.map actionText, body⟩)

/-- One thing to do. -/
inductive Task where
  /-- Run a line. -/
  | line (text : Text)
  /-- Execute a statement. -/
  | stmt (s : Script.Stmt)
  /-- Ask whether there is a round of a loop, and do it. -/
  | enter (loop : Loop)

/-- Where a run is. -/
structure Agenda where
  /-- What is to be done in the innermost loop. -/
  tasks : List Task
  /-- The loops that have been entered, the innermost one first, each with what is to be done behind
  it. -/
  loops : List (Loop × List Task)

namespace Agenda

/-- Begins with the execution of statements. -/
def start (ss : List Script.Stmt) : Agenda := ⟨ss.map .stmt, []⟩

/-! ## Executing statements -/

/-- Goes on to the next round of a loop. -/
def nextRound (loop : Loop) (rest : List Task) (loops : List (Loop × List Task)) : Move Agenda :=
  match loop.update with
  | some u => .shows u ⟨.enter loop :: rest, loops⟩
  | none => .quietly ⟨.enter loop :: rest, loops⟩

/-- Executes a statement before other tasks. -/
def execute (s : Script.Stmt) (rest : List Task) (loops : List (Loop × List Task)) : Move Agenda :=
  match s with
  | .ifThen _ test yes =>
    .asks (.test (valueText test)) fun holds ↦
      if holds then ⟨yes.map .stmt ++ rest, loops⟩ else ⟨rest, loops⟩
  | .ifElse _ test yes no =>
    .asks (.test (valueText test)) fun holds ↦
      if holds then ⟨yes.map .stmt ++ rest, loops⟩ else ⟨no.map .stmt ++ rest, loops⟩
  | .whileLoop _ test body => .quietly ⟨.enter (.ofWhile test body) :: rest, loops⟩
  | .forLoop _ init test change body =>
    let (first, loop) := Loop.ofFor init test change body
    .quietly ⟨first.map .line ++ .enter loop :: rest, loops⟩
  | .breakLoop _ =>
    match loops with
    | [] => .ends .stray
    | (_, rest) :: loops => .quietly ⟨rest, loops⟩
  | .continueLoop _ =>
    match loops with
    | [] => .ends .stray
    | (loop, rest) :: loops => nextRound loop rest loops
  | .ret _ v => .ends (.returned (v.map valueText))
  | .exportDecl _ s _ _ => .quietly ⟨.stmt s :: rest, loops⟩
  | .function _ _ _ _ | .foreign _ => .ends .stray
  | s => .quietly ⟨(simpleLines s).map .line ++ rest, loops⟩

/-- Executes the first task. -/
def step : Agenda → Move Agenda
  | ⟨[], []⟩ => .ends .finished
  | ⟨[], (loop, rest) :: loops⟩ => nextRound loop rest loops
  | ⟨.line t :: rest, loops⟩ => .shows t ⟨rest, loops⟩
  | ⟨.enter loop :: rest, loops⟩ =>
    .asks loop.question fun goesOn ↦
      if goesOn then ⟨loop.body.map .stmt, (loop, rest) :: loops⟩ else ⟨rest, loops⟩
  | ⟨.stmt s :: rest, loops⟩ => execute s rest loops

end Agenda

/-! ## Moves that cannot be seen come to an end -/

/-- The number of moves that cannot be seen before a statement is executed. -/
def stmtRank : Script.Stmt → Nat
  | .exportDecl _ s _ _ => stmtRank s + 1
  | _ => 1

theorem stmtRank_pos (s : Script.Stmt) : 0 < stmtRank s := by
  cases s <;> exact Nat.succ_pos _

/-- The number of moves that cannot be seen before a task is done. -/
def Task.rank : Task → Nat
  | line _ | enter _ => 0
  | stmt s => stmtRank s

/-- The number of moves that cannot be seen before all tasks are done. -/
def tasksRank (ts : List Task) : Nat := (ts.map Task.rank).sum

@[simp] theorem tasksRank_cons (t : Task) (ts : List Task) :
    tasksRank (t :: ts) = t.rank + tasksRank ts := by
  rw [tasksRank, List.map_cons, List.sum_cons, tasksRank]

@[simp] theorem tasksRank_lines (texts : List Text) (ts : List Task) :
    tasksRank (texts.map .line ++ ts) = tasksRank ts := by
  induction texts with
  | nil => rfl
  | cons t texts ih =>
    rw [List.map_cons, List.cons_append, tasksRank_cons, ih, Task.rank, Nat.zero_add]

namespace Agenda

/-- The number of moves that cannot be seen before the run has left all loops. -/
def rank (a : Agenda) : Nat :=
  tasksRank a.tasks + (a.loops.map fun l ↦ tasksRank l.2 + 1).sum

theorem rank_nextRound {loop : Loop} {rest : List Task} {loops : List (Loop × List Task)}
    {a : Agenda} (h : nextRound loop rest loops = .quietly a) (ts : List Task) :
    a.rank < rank ⟨ts, (loop, rest) :: loops⟩ := by
  unfold nextRound at h
  split at h
  · cases h
  · cases h
    simp only [rank, tasksRank_cons, Task.rank, List.map_cons, List.sum_cons]
    omega

theorem rank_execute {s : Script.Stmt} {rest : List Task} {loops : List (Loop × List Task)}
    {a : Agenda} (h : execute s rest loops = .quietly a) :
    a.rank < rank ⟨.stmt s :: rest, loops⟩ := by
  have hpos := stmtRank_pos s
  cases s with
  | ifThen | ifElse | ret | function | foreign => cases h
  | whileLoop | forLoop | lineComment | blockComment | importFrom | exportValue | exportNames
  | «variable» | output | expr =>
    cases h
    simp only [rank, tasksRank_cons, tasksRank_lines, Task.rank]
    omega
  | exportDecl =>
    cases h
    simp only [rank, tasksRank_cons, Task.rank, stmtRank]
    omega
  | breakLoop =>
    cases loops with
    | nil => cases h
    | cons l loops =>
      cases h
      simp only [rank, tasksRank_cons, Task.rank, List.map_cons, List.sum_cons]
      omega
  | continueLoop =>
    cases loops with
    | nil => cases h
    | cons l loops => exact rank_nextRound h _

theorem rank_lt {a a' : Agenda} (h : a.step = .quietly a') : a'.rank < a.rank := by
  obtain ⟨ts, loops⟩ := a
  cases ts with
  | nil =>
    cases loops with
    | nil => cases h
    | cons l loops => exact rank_nextRound h []
  | cons t ts =>
    cases t with
    | line text => cases h
    | enter loop => cases h
    | stmt s => exact rank_execute h

end Agenda

/-- The machine that executes statements. -/
def source : Machine Agenda := ⟨Agenda.step, Agenda.rank, Agenda.rank_lt⟩

/-! ## Programs that do not stray -/

mutual

/-- Whether no function is declared in a statement and every `break` and `continue` in it stands in
a loop; `inLoop` says whether the statement itself stands in one. -/
def wellPlaced (inLoop : Bool) : Script.Stmt → Bool
  | .breakLoop _ | .continueLoop _ => inLoop
  | .function _ _ _ _ | .foreign _ => false
  | .ifThen _ _ yes => allWellPlaced inLoop yes
  | .ifElse _ _ yes no => allWellPlaced inLoop yes && allWellPlaced inLoop no
  | .forLoop _ _ _ _ body | .whileLoop _ _ body => allWellPlaced true body
  | .exportDecl _ s _ _ => wellPlaced inLoop s
  | _ => true

/-- Whether that holds for each of the statements. -/
def allWellPlaced (inLoop : Bool) : List Script.Stmt → Bool
  | [] => true
  | s :: ss => wellPlaced inLoop s && allWellPlaced inLoop ss

end

/-- Whether everything that is executed for a task is well placed. -/
def Task.wellPlaced (inLoop : Bool) : Task → Bool
  | line _ => true
  | stmt s => Flow.wellPlaced inLoop s
  | enter loop => allWellPlaced true loop.body

/-- What is done in and behind loops is well placed. -/
def LoopsWellPlaced : List (Loop × List Task) → Prop
  | [] => True
  | (loop, rest) :: loops =>
    allWellPlaced true loop.body ∧ rest.all (Task.wellPlaced !loops.isEmpty) ∧ LoopsWellPlaced loops

namespace Agenda

/-- All that is still to be done is well placed. -/
def WellPlaced (a : Agenda) : Prop :=
  a.tasks.all (Task.wellPlaced !a.loops.isEmpty) ∧ LoopsWellPlaced a.loops

theorem all_stmts {inLoop : Bool} {ss : List Script.Stmt} {ts : List Task}
    (hss : allWellPlaced inLoop ss) (hts : ts.all (Task.wellPlaced inLoop)) :
    (ss.map Task.stmt ++ ts).all (Task.wellPlaced inLoop) := by
  induction ss with
  | nil => exact hts
  | cons s ss ih =>
    rw [allWellPlaced, Bool.and_eq_true] at hss
    rw [List.map_cons, List.cons_append, List.all_cons, ih hss.2, Bool.and_true]
    exact hss.1

theorem all_lines {inLoop : Bool} (texts : List Text) {ts : List Task}
    (hts : ts.all (Task.wellPlaced inLoop)) :
    (texts.map Task.line ++ ts).all (Task.wellPlaced inLoop) := by
  induction texts with
  | nil => exact hts
  | cons t texts ih => exact ih

theorem keeps_nextRound {loop : Loop} {rest : List Task} {loops : List (Loop × List Task)}
    (h : LoopsWellPlaced ((loop, rest) :: loops)) :
    (nextRound loop rest loops).Keeps WellPlaced := by
  obtain ⟨hbody, hrest, hloops⟩ := h
  have hnext : WellPlaced ⟨.enter loop :: rest, loops⟩ := by
    refine ⟨?_, hloops⟩
    rw [List.all_cons, hrest, Bool.and_true]
    exact hbody
  rw [nextRound]
  cases loop.update with
  | none => exact hnext
  | some u => exact hnext

theorem keeps_execute {s : Script.Stmt} {rest : List Task} {loops : List (Loop × List Task)}
    (hs : wellPlaced (!loops.isEmpty) s) (hrest : rest.all (Task.wellPlaced !loops.isEmpty))
    (hloops : LoopsWellPlaced loops) : (execute s rest loops).Keeps WellPlaced := by
  have henter {loop : Loop} (hbody : allWellPlaced true loop.body) :
      (Task.enter loop :: rest).all (Task.wellPlaced !loops.isEmpty) := by
    rw [List.all_cons, hrest, Bool.and_true]
    exact hbody
  cases s with
  | lineComment | blockComment | importFrom | exportValue | exportNames | «variable» | output
  | expr => exact ⟨all_lines _ hrest, hloops⟩
  | exportDecl pos s names byDefault =>
    refine ⟨?_, hloops⟩
    rw [List.all_cons, hrest, Bool.and_true]
    exact hs
  | function | foreign => cases hs
  | ret => exact Ending.noConfusion
  | ifThen pos test yes =>
    intro holds
    cases holds with
    | true => exact ⟨all_stmts hs hrest, hloops⟩
    | false => exact ⟨hrest, hloops⟩
  | ifElse pos test yes no =>
    rw [wellPlaced, Bool.and_eq_true] at hs
    intro holds
    cases holds with
    | true => exact ⟨all_stmts hs.1 hrest, hloops⟩
    | false => exact ⟨all_stmts hs.2 hrest, hloops⟩
  | forLoop pos init test change body =>
    have hbody : allWellPlaced true (Loop.ofFor init test change body).2.body := by
      rw [Loop.ofFor]
      cases Counting.ofLoop? init test change <;> exact hs
    exact ⟨all_lines _ (henter hbody), hloops⟩
  | whileLoop pos test body => exact ⟨henter hs, hloops⟩
  | breakLoop =>
    cases loops with
    | nil => cases hs
    | cons l loops => exact ⟨hloops.2.1, hloops.2.2⟩
  | continueLoop =>
    cases loops with
    | nil => cases hs
    | cons l loops => exact keeps_nextRound hloops

theorem keeps_step (a : Agenda) (h : a.WellPlaced) : (source.step a).Keeps WellPlaced := by
  obtain ⟨ts, loops⟩ := a
  obtain ⟨htasks, hloops⟩ := h
  cases ts with
  | nil =>
    cases loops with
    | nil => exact Ending.noConfusion
    | cons l loops => exact keeps_nextRound hloops
  | cons t ts =>
    simp only [List.all_cons, Bool.and_eq_true] at htasks
    obtain ⟨ht, hts⟩ := htasks
    cases t with
    | line text => exact ⟨hts, hloops⟩
    | stmt s => exact keeps_execute ht hts hloops
    | enter loop =>
      intro goesOn
      cases goesOn with
      | true =>
        have hbody : (loop.body.map Task.stmt ++ []).all (Task.wellPlaced true) := all_stmts ht rfl
        rw [List.append_nil] at hbody
        exact ⟨hbody, ht, hts, hloops⟩
      | false => exact ⟨hts, hloops⟩

end Agenda

/-- Statements without functions, whose `break`s and `continue`s all stand in loops, run until they
finish or return. -/
theorem ending_start_ne_stray {ss : List Script.Stmt} (h : allWellPlaced false ss) (oracle : Oracle)
    (n : Nat) : (source.observe oracle n (.start ss)).ending ≠ some .stray := by
  have htasks : (ss.map Task.stmt ++ []).all (Task.wellPlaced false) := Agenda.all_stmts h rfl
  rw [List.append_nil] at htasks
  exact Machine.ending_ne_stray Agenda.keeps_step oracle n _ ⟨htasks, trivial⟩

end Advplc.Flow

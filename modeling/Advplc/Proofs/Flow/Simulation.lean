import Advplc.Compile
import Advplc.Proofs.Flow.Reading
import Advplc.Proofs.Token.Layout

/-!
# Generated code has the control flow of the program

`observe_lowered` says that a program and the text generated for it cannot be told apart: whatever
the tests come out as, the same lines are run and the same tests are asked in the same order, and
the runs end in the same way.  The text is read line by line, and no line of the program may be
taken for one that controls the flow when that is done, as `Exit` is in `name_read_as_exit`.  A line
is what is written in one piece; whether it stays one line of the file is the subject of
`Advplc.Proofs.Lines`.

The states of the two runs are `Related` if the lines from the current one on are the code of the
tasks, and the same holds behind each of the open loops.  Two things make the lines differ from the
plain code of the tasks.  At the end of a branch there are the remaining branches, which are jumped
over.  And the code of a statement depends on the update of the loop around it, which a `continue`
in it runs; so the tasks in a loop are related to lines with respect to the update of that loop, and
what follows them is that update once more.
-/

set_option autoImplicit false

namespace Advplc.Flow

open Lowering
open Target (Code Branches Entry)

/-! ## The lines of a loop -/

/-- The line that a loop begins with. -/
def Question.firstLine : Question → Line
  | test t => .whileDo t
  | count header => .forTo header

/-- The line that a loop ends with. -/
def Question.lastLine : Question → Line
  | test _ => .endDo
  | count _ => .next

/-- What stands behind the body of a loop: its update, its end, and the lines behind that. -/
def Loop.tail (loop : Loop) (ls : List Line) : List Line :=
  loop.update.toList.map .plain ++ loop.question.lastLine :: ls

theorem behind_loop (loop : Loop) (cs : List Code) (ls : List Line) :
    behind (linesOf cs ++ loop.tail ls) = ls := by
  have hlast : loop.question.lastLine.closes := by
    cases loop.question <;> rfl
  rw [Loop.tail, ← List.append_assoc, ← linesOf_map_line, ← linesOf_append]
  exact behind_linesOf _ hlast ls

theorem linesOf_whileLoop (t : Text) (u : Option Text) (body : List Script.Stmt) (cs : List Code)
    (ls : List Line) :
    linesOf [.whileLoop t (cs ++ updateCode u)] ++ ls =
      .whileDo t :: (linesOf cs ++ Loop.tail ⟨.test t, u, body⟩ ls) := by
  simp [linesOf, codeLines, updateCode, Loop.tail, Question.lastLine]

theorem linesOf_forLoop (header : Text) (body : List Script.Stmt) (cs : List Code)
    (ls : List Line) :
    linesOf [.forLoop header cs] ++ ls =
      .forTo header :: (linesOf cs ++ Loop.tail ⟨.count header, none, body⟩ ls) := by
  simp [linesOf, codeLines, Loop.tail, Question.lastLine]

theorem linesOf_branch (t : Text) (cs : List Code) (bs : Branches) (ls : List Line) :
    linesOf [.branch t cs bs] ++ ls =
      .ifThen t :: (linesOf cs ++ (branchLines bs ++ .endIf :: ls)) := by
  simp [linesOf, codeLines]

/-! ## Related states -/

variable {words : Text} {update : Option Text} {tail : List Line}

/-- The lines are the code of the tasks in a loop with the given update, with `tail` behind it. -/
inductive Coded (words : Text) (update : Option Text) (tail : List Line) :
    List Task → List Line → Prop where
  | nil : Coded words update tail [] tail
  | line (t : Text) {ts : List Task} {ls : List Line} (h : Coded words update tail ts ls) :
      Coded words update tail (.line t :: ts) (.plain t :: ls)
  | stmt {s : Script.Stmt} {cs : List Code} {ts : List Task} {ls : List Line}
      (hs : lowerStmt words update s = .ok cs) (h : Coded words update tail ts ls) :
      Coded words update tail (.stmt s :: ts) (linesOf cs ++ ls)
  | enter {loop : Loop} {cs : List Code} {ts : List Task} {ls : List Line}
      (hbody : lowerStmts words loop.update loop.body = .ok cs)
      (h : Coded words update tail ts ls) :
      Coded words update tail (.enter loop :: ts)
        (loop.question.firstLine :: (linesOf cs ++ loop.tail ls))
  /-- The end of a branch, where other branches may follow. -/
  | branches (bs : Branches) {ts : List Task} {ls : List Line} (h : Coded words update tail ts ls) :
      Coded words update tail ts (branchLines bs ++ .endIf :: ls)

/-- The open loops are the code of the loops that have been entered.  The lines `tail` are what
stands behind the body of the innermost one, and `update` is its update. -/
inductive CodedLoops (words : Text) :
    List (Loop × List Task) → List OpenLoop → Option Text → List Line → Prop where
  | nil : CodedLoops words [] [] none []
  | cons {loops : List (Loop × List Task)} {opened : List OpenLoop} {update : Option Text}
      {tail : List Line} {loop : Loop} {cs : List Code} {ts : List Task} {ls : List Line}
      (hloops : CodedLoops words loops opened update tail)
      (hrest : Coded words update tail ts ls)
      (hbody : lowerStmts words loop.update loop.body = .ok cs) :
      CodedLoops words ((loop, ts) :: loops)
        (⟨loop.question, linesOf cs ++ loop.tail ls⟩ :: opened) loop.update (loop.tail ls)

/-- The states of the two runs belong together. -/
inductive Related (words : Text) : Agenda → Place → Prop where
  | here {loops : List (Loop × List Task)} {opened : List OpenLoop} {update : Option Text}
      {tail : List Line} {ts : List Task} {ls : List Line}
      (hloops : CodedLoops words loops opened update tail)
      (hrest : Coded words update tail ts ls) : Related words ⟨ts, loops⟩ ⟨ls, opened⟩
  /-- One run is about to enter a loop anew, and the other one is at a line that goes back to its
  beginning. -/
  | back {loops : List (Loop × List Task)} {opened : List OpenLoop} {update : Option Text}
      {tail : List Line} {loop : Loop} {cs : List Code} {ts : List Task} {ls : List Line}
      (hloops : CodedLoops words loops opened update tail)
      (hrest : Coded words update tail ts ls)
      (hbody : lowerStmts words loop.update loop.body = .ok cs)
      {l : Line} (hback : l = .loop ∨ l = loop.question.lastLine) (more : List Line) :
      Related words ⟨.enter loop :: ts, loops⟩
        ⟨l :: more, ⟨loop.question, linesOf cs ++ loop.tail ls⟩ :: opened⟩

theorem Coded.lines (texts : List Text) {ts : List Task} {ls : List Line}
    (h : Coded words update tail ts ls) :
    Coded words update tail (texts.map .line ++ ts) (texts.map .plain ++ ls) := by
  induction texts with
  | nil => exact h
  | cons t texts ih => exact .line t ih

theorem Coded.stmts {ss : List Script.Stmt} {cs : List Code}
    (hss : lowerStmts words update ss = .ok cs) {ts : List Task} {ls : List Line}
    (h : Coded words update tail ts ls) :
    Coded words update tail (ss.map .stmt ++ ts) (linesOf cs ++ ls) := by
  induction ss generalizing cs with
  | nil =>
    cases hss
    exact h
  | cons s ss ih =>
    obtain ⟨cs, ds, hs, hrest, rfl⟩ := lowerStmts_cons_eq_ok hss
    rw [linesOf_append, List.append_assoc]
    exact .stmt hs (ih hrest)

/-! ## The end of a branch -/

theorem quietly_branches (bs : Branches) (ls : List Line) (opened : List OpenLoop) :
    listing.Quietly ⟨branchLines bs ++ .endIf :: ls, opened⟩ ⟨ls, opened⟩ := by
  cases bs with
  | done => exact .head rfl (.refl _)
  | otherwise body =>
    have hstep : listing.step ⟨branchLines (.otherwise body) ++ .endIf :: ls, opened⟩ =
        .quietly ⟨behind (linesOf body ++ .endIf :: ls), opened⟩ := rfl
    rw [behind_linesOf body rfl] at hstep
    exact .head hstep (.refl _)
  | elseIf t yes rest =>
    have hstep : listing.step ⟨branchLines (.elseIf t yes rest) ++ .endIf :: ls, opened⟩ =
        .quietly ⟨behind (linesOf yes ++ branchLines rest ++ .endIf :: ls), opened⟩ := rfl
    rw [List.append_assoc, behind_branches] at hstep
    exact .head hstep (.refl _)

/-- The lines are the code of the tasks, and the current line is part of the code of the first
one. -/
inductive Begins (words : Text) (update : Option Text) (tail : List Line) :
    List Task → List Line → Prop where
  | nil : Begins words update tail [] tail
  | line (t : Text) {ts : List Task} {ls : List Line} (h : Coded words update tail ts ls) :
      Begins words update tail (.line t :: ts) (.plain t :: ls)
  | stmt {s : Script.Stmt} {cs : List Code} {ts : List Task} {ls : List Line}
      (hs : lowerStmt words update s = .ok cs) (h : Coded words update tail ts ls) :
      Begins words update tail (.stmt s :: ts) (linesOf cs ++ ls)
  | enter {loop : Loop} {cs : List Code} {ts : List Task} {ls : List Line}
      (hbody : lowerStmts words loop.update loop.body = .ok cs)
      (h : Coded words update tail ts ls) :
      Begins words update tail (.enter loop :: ts)
        (loop.question.firstLine :: (linesOf cs ++ loop.tail ls))

/-- The branches that follow a branch are jumped over until the code of the next task begins. -/
theorem Coded.begins {ts : List Task} {ls : List Line} (h : Coded words update tail ts ls)
    (opened : List OpenLoop) :
    ∃ ls', listing.Quietly ⟨ls, opened⟩ ⟨ls', opened⟩ ∧ Begins words update tail ts ls' := by
  induction h with
  | nil => exact ⟨_, .refl _, .nil⟩
  | line t h _ => exact ⟨_, .refl _, .line t h⟩
  | stmt hs h _ => exact ⟨_, .refl _, .stmt hs h⟩
  | enter hbody h _ => exact ⟨_, .refl _, .enter hbody h⟩
  | branches bs _ ih =>
    obtain ⟨ls', hquiet, hbegins⟩ := ih
    exact ⟨ls', (quietly_branches bs _ opened).trans hquiet, hbegins⟩

/-! ## Rounds of a loop -/

section

variable {loops : List (Loop × List Task)} {opened : List OpenLoop} {ts : List Task}
  {ls : List Line}

theorem alike_round {loop : Loop} {cs : List Code}
    (hloops : CodedLoops words loops opened update tail) (hrest : Coded words update tail ts ls)
    (hbody : lowerStmts words loop.update loop.body = .ok cs) :
    Move.Alike (Related words) (source.step ⟨.enter loop :: ts, loops⟩)
      (Place.round ⟨loop.question, linesOf cs ++ loop.tail ls⟩ opened) := by
  refine .asks loop.question fun goesOn ↦ ?_
  cases goesOn with
  | true =>
    have hround : Coded words loop.update (loop.tail ls) (loop.body.map .stmt ++ [])
        (linesOf cs ++ loop.tail ls) := .stmts hbody .nil
    rw [List.append_nil] at hround
    exact .here (.cons hloops hrest hbody) hround
  | false =>
    have hbehind := behind_loop loop cs ls
    simp only [Bool.false_eq_true, if_false, hbehind]
    exact .here hloops hrest

theorem step_back {loop : Loop} {l : Line} (hback : l = .loop ∨ l = loop.question.lastLine)
    (more inside : List Line) :
    listing.step ⟨l :: more, ⟨loop.question, inside⟩ :: opened⟩ =
      Place.round ⟨loop.question, inside⟩ opened := by
  obtain rfl | rfl := hback
  · rfl
  · cases loop.question <;> rfl

theorem step_firstLine (q : Question) (inside : List Line) :
    listing.step ⟨q.firstLine :: inside, opened⟩ = Place.round ⟨q, inside⟩ opened := by
  cases q <;> rfl

/-- The next round of the innermost loop is begun by its update and a line that goes back. -/
theorem follows_nextRound {loop : Loop} {cs : List Code} {a : Agenda}
    (hloops : CodedLoops words loops opened update tail) (hrest : Coded words update tail ts ls)
    (hbody : lowerStmts words loop.update loop.body = .ok cs)
    (ha : source.step a = Agenda.nextRound loop ts loops) {l : Line}
    (hback : l = .loop ∨ l = loop.question.lastLine) (more : List Line) :
    Machine.Follows source listing (Related words) a
      ⟨loop.update.toList.map .plain ++ l :: more,
        ⟨loop.question, linesOf cs ++ loop.tail ls⟩ :: opened⟩ := by
  have hrelated := Related.back hloops hrest hbody hback more
  rw [Agenda.nextRound] at ha
  cases hupdate : loop.update with
  | none =>
    rw [hupdate] at ha
    exact .unseen ha (.refl _) hrelated
  | some u =>
    rw [hupdate] at ha
    refine .seen (.refl _) ?_
    rw [ha]
    exact .shows u hrelated

/-! ## Statements -/

/-- A simple statement is run as its lines. -/
theorem follows_simple {s : Script.Stmt} (hsimple : isSimple s) {cs : List Code}
    (hs : lowerStmt words update s = .ok cs) (hloops : CodedLoops words loops opened update tail)
    (hrest : Coded words update tail ts ls)
    (hstep : source.step ⟨.stmt s :: ts, loops⟩ =
      .quietly ⟨(simpleLines s).map .line ++ ts, loops⟩) :
    Machine.Follows source listing (Related words) ⟨.stmt s :: ts, loops⟩
      ⟨linesOf cs ++ ls, opened⟩ := by
  rw [writes_simple hsimple cs hs, linesOf_map_line]
  exact .unseen hstep (.refl _) (.here hloops (hrest.lines _))

/-- The first branch of an `If` is the code of what is done if the test holds, and the lines that
the run goes on with otherwise are the code of what is done then. -/
theorem alike_branch {t : Text} {cs : List Code} {bs : Branches} {yes no : List Script.Stmt}
    (hloops : CodedLoops words loops opened update tail) (hrest : Coded words update tail ts ls)
    (hyes : lowerStmts words update yes = .ok cs)
    (hno : Coded words update tail (no.map .stmt ++ ts) (branchesFrom bs ls)) :
    Move.Alike (Related words)
      (.asks (.test t) fun holds ↦
        if holds then ⟨yes.map .stmt ++ ts, loops⟩ else ⟨no.map .stmt ++ ts, loops⟩)
      (listing.step ⟨linesOf [.branch t cs bs] ++ ls, opened⟩) := by
  rw [linesOf_branch]
  refine .asks (.test t) fun holds ↦ ?_
  cases holds with
  | true => exact .here hloops (.stmts hyes (.branches bs hrest))
  | false =>
    simp only [Bool.false_eq_true, if_false, otherBranch_linesOf]
    exact .here hloops hno

theorem coded_else {no : List Script.Stmt} {bs : Branches}
    (hno : lowerElse words update no = .ok bs) (hrest : Coded words update tail ts ls) :
    Coded words update tail (no.map .stmt ++ ts) (branchesFrom bs ls) := by
  obtain ⟨cs, hcs, rfl⟩ | ⟨t, cs, rest, hcs, rfl⟩ := lowerElse_eq_ok hno
  · exact .stmts hcs (.branches .done hrest)
  · rw [branchesFrom, ← linesOf_branch]
    exact .stmts hcs hrest

/-- A `for` loop runs what it does first and then enters its loop. -/
theorem coded_for {init : Script.ForInit} {test change : Option Script.Expr}
    {body : List Script.Stmt} {cs : List Code}
    (h : lowerFor init test change (fun inner ↦ lowerStmts words inner body) = .ok cs)
    (hrest : Coded words update tail ts ls) :
    Coded words update tail
      ((Loop.ofFor init test change body).1.map .line ++
        .enter (Loop.ofFor init test change body).2 :: ts) (linesOf cs ++ ls) := by
  cases hc : Counting.ofLoop? init test change with
  | some c =>
    obtain ⟨first, last, cs, hfirst, hlast, hbody, rfl⟩ := lowerFor_counting_eq_ok hc h
    have hloop : Loop.ofFor init test change body =
        (counterLines init, ⟨.count (c.header first last), none, body⟩) := by
      simp only [Loop.ofFor, hc, header_eq_countText hfirst hlast]
    rw [hloop, writes_declaration init _ rfl, linesOf_append, linesOf_map_line, List.append_assoc,
      linesOf_forLoop (c.header first last) body]
    exact .lines (counterLines init) (.enter hbody hrest)
  | none =>
    obtain ⟨ds, t, u, cs, hds, ht, hu, hbody, rfl⟩ := lowerFor_general_eq_ok hc h
    have hloop : Loop.ofFor init test change body = (initLines init, ⟨.test t, u, body⟩) := by
      simp only [Loop.ofFor, hc, testText_of_ok ht, actionText_of_update hu]
    rw [hloop, writes_init init _ hds, linesOf_append, linesOf_map_line, List.append_assoc,
      linesOf_whileLoop t u body]
    exact .lines (initLines init) (.enter hbody hrest)

/-- The code of a statement follows its execution. -/
theorem follows_stmt {s : Script.Stmt} {cs : List Code} (hs : lowerStmt words update s = .ok cs)
    (hloops : CodedLoops words loops opened update tail) (hrest : Coded words update tail ts ls) :
    Machine.Follows source listing (Related words) ⟨.stmt s :: ts, loops⟩
      ⟨linesOf cs ++ ls, opened⟩ := by
  cases s with
  | lineComment | blockComment | importFrom | exportValue | exportNames | «variable» | output
  | expr => exact follows_simple rfl hs hloops hrest rfl
  | exportDecl pos s names byDefault =>
    rw [lowerStmt] at hs
    exact .unseen rfl (.refl _) (.here hloops (.stmt hs hrest))
  | function pos name parameters body =>
    rw [lowerStmt] at hs
    obtain ⟨inside, -, hs⟩ := bind_eq_ok hs
    cases hs
    exact .seen (.refl _) (.ends .stray)
  | ret pos v =>
    cases v with
    | none =>
      cases hs
      exact .seen (.refl _) (.ends (.returned none))
    | some e =>
      rw [lowerStmt] at hs
      obtain ⟨t, ht, hs⟩ := bind_eq_ok hs
      cases hs
      have hstep : source.step ⟨.stmt (.ret pos (some e)) :: ts, loops⟩ =
          .ends (.returned (some t)) := by
        rw [← valueText_of_ok ht]
        rfl
      refine .seen (.refl _) ?_
      rw [hstep]
      exact .ends _
  | ifThen pos test yes =>
    obtain ⟨t, cs, ht, hyes, rfl⟩ := lowerIfThen_eq_ok hs
    refine .seen (.refl _) ?_
    rw [← valueText_of_ok ht]
    have hno : Coded words update tail (([] : List Script.Stmt).map .stmt ++ ts)
        (branchesFrom .done ls) := hrest
    exact alike_branch hloops hrest hyes hno
  | ifElse pos test yes no =>
    obtain ⟨t, cs, bs, ht, hyes, hno, rfl⟩ := lowerIfElse_eq_ok hs
    refine .seen (.refl _) ?_
    rw [← valueText_of_ok ht]
    exact alike_branch hloops hrest hyes (coded_else hno hrest)
  | forLoop pos init test change body =>
    rw [lowerStmt] at hs
    exact .unseen rfl (.refl _) (.here hloops (coded_for hs hrest))
  | whileLoop pos test body =>
    obtain ⟨t, cs, ht, hbody, rfl⟩ := lowerWhile_eq_ok hs
    have hlines := linesOf_whileLoop t none body cs ls
    rw [updateCode, Option.toList_none, List.map_nil, List.append_nil,
      ← valueText_of_ok ht] at hlines
    rw [← valueText_of_ok ht, hlines]
    exact .unseen rfl (.refl _) (.here hloops (.enter hbody hrest))
  | breakLoop pos =>
    cases hs
    cases hloops with
    | nil => exact .seen (.refl _) (.ends .stray)
    | @cons _ opened _ _ loop cs _ ls' houter hbehind _ =>
      have hstep : listing.step
          ⟨.exit :: ls, ⟨loop.question, linesOf cs ++ loop.tail ls'⟩ :: opened⟩ =
          .quietly ⟨behind (linesOf cs ++ loop.tail ls'), opened⟩ := rfl
      rw [behind_loop] at hstep
      exact .unseen rfl (.head hstep (.refl _)) (.here houter hbehind)
  | continueLoop pos =>
    cases hs
    cases hloops with
    | nil => exact .seen (.refl _) (.ends .stray)
    | cons houter hbehind hbody =>
      rw [linesOf_append, updateCode, linesOf_map_line, List.append_assoc]
      exact follows_nextRound houter hbehind hbody rfl (.inl rfl) ls
  | foreign f => cases hs

end

/-! ## Whole runs -/

/-- What one step of the program does is followed by the code. -/
theorem follows_of_related (a : Agenda) (p : Place) (h : Related words a p) :
    Machine.Follows source listing (Related words) a p := by
  cases h with
  | back hloops hrest hbody hback more =>
    refine .seen (.refl _) ?_
    rw [step_back hback]
    exact alike_round hloops hrest hbody
  | @here loops opened _ _ _ _ hloops hrest =>
    obtain ⟨ls', hquiet, hbegins⟩ := hrest.begins opened
    -- The run of the code first has to come to the code of the next task.
    refine Machine.Follows.after hquiet ?_
    cases hbegins with
    | nil =>
      cases hloops with
      | nil => exact .seen (.refl _) (.ends .finished)
      | cons houter hbehind hbody =>
        exact follows_nextRound houter hbehind hbody rfl (.inr rfl) _
    | line t hrest' => exact .seen (.refl _) (.shows t (.here hloops hrest'))
    | stmt hs hrest' => exact follows_stmt hs hloops hrest'
    | enter hbody hrest' =>
      refine .seen (.refl _) ?_
      rw [step_firstLine]
      exact alike_round hloops hrest' hbody

/-- Code whose lines are known as what they are has the control flow of the program. -/
theorem observe_linesOf {words : Text} {ss : List Script.Stmt} {code : List Code}
    (h : lowerStmts words none ss = .ok code) (oracle : Oracle) (n : Nat) :
    source.observe oracle n (.start ss) = listing.observe oracle n ⟨linesOf code, []⟩ := by
  have hrest : Coded words none [] (ss.map .stmt ++ []) (linesOf code ++ []) := .stmts h .nil
  rw [List.append_nil, List.append_nil] at hrest
  have hrelated : Related words (.start ss) ⟨linesOf code, []⟩ := .here .nil hrest
  exact Machine.observe_eq follows_of_related oracle n _ _ hrelated

/-- **Generated code has the control flow of the program.**  Let `code` be what statements become
that do not declare functions and have all `break`s and `continue`s in loops, and let its lines be
read in a way that takes none of the lines of the program for one that controls the flow.  Then,
whatever the answers to the questions are, the first `n` steps of executing the statements look the
same as the first `n` steps of executing the lines of the code as they are read, and neither run
comes to something that has no meaning. -/
theorem observe_lowered (r : Reading) (words : Text) {ss : List Script.Stmt} {code : List Code}
    (h : lowerStmts words none ss = .ok code) (hplaced : allWellPlaced false ss)
    (hruns : ∀ t ∈ linesWithinAll ss, r.Runs t) (oracle : Oracle) (n : Nat) :
    let lines := r.lines ((Code.entriesAll code).map Entry.text)
    source.observe oracle n (.start ss) = listing.observe oracle n ⟨lines, []⟩ ∧
      (listing.observe oracle n ⟨lines, []⟩).ending ≠ some .stray := by
  have hobserve := observe_linesOf h oracle n
  intro lines
  have hlines : lines = linesOf code := r.lines_of_lowered h hplaced hruns
  rw [hlines, ← hobserve]
  exact ⟨rfl, ending_start_ne_stray hplaced oracle n⟩

/-- The program `for (; a; i++) { if (b) continue; if (c) break; else f(); } return i;`, whose
update stands at two places of the code, when every third test fails. -/
theorem observe_lowered_sample :
    let name (n : Text) : Script.Expr := .name none n
    let ss : List Script.Stmt :=
      [.forLoop none .nothing (some (name "a")) (some (.update none "++" .after (name "i")))
        [.ifThen none (name "b") [.continueLoop none],
         .ifElse none (name "c") [.breakLoop none] [.expr none (.call none (name "f") [])]],
       .ret none (some (name "i"))]
    let code : List Code :=
      [.whileLoop "a"
        [.branch "b" [.line "i++", .loop] .done,
         .branch "c" [.exit] (.otherwise [.line "f()"]),
         .line "i++"],
       .ret (some "i")]
    let texts : List Text :=
      ["While a", "If b", "i++", "Loop", "EndIf", "If c", "Exit", "Else", "f()", "EndIf", "i++",
       "EndDo", "Return i"]
    let oracle : Oracle := fun i ↦ i % 3 != 2
    lowerStmts "User Function" none ss = .ok code ∧ allWellPlaced false ss = true ∧
      linesWithinAll ss = ["i++", "f()"] ∧ (Code.entriesAll code).map Entry.text = texts ∧
      source.observe oracle 20 (.start ss) =
        listing.observe oracle 20 ⟨Reading.spelled.lines texts, []⟩ ∧
      (listing.observe oracle 20 ⟨Reading.spelled.lines texts, []⟩).ending ≠ some .stray := by
  intro name ss code texts oracle
  have hcode : lowerStmts "User Function" none ss = .ok code := rfl
  have hruns : ∀ t ∈ linesWithinAll ss, Reading.spelled.Runs t := by decide +kernel
  exact ⟨hcode, rfl, rfl, rfl,
    observe_lowered Reading.spelled "User Function" hcode rfl hruns oracle 20⟩

/-- In `while (a) { Exit; f(); }` the name `Exit` is a statement, and its line is the one that
leaves a loop: the program runs the line and goes on, and the code leaves the loop. -/
theorem name_read_as_exit :
    let text : Text := "while (a) { Exit; f(); }"
    let name (column : Nat) (n : Text) : Script.Expr := .name (some ⟨1, column⟩) n
    let ss : List Script.Stmt :=
      [.whileLoop (some ⟨1, 1⟩) (name 8 "a")
        [.expr (some ⟨1, 13⟩) (name 13 "Exit"),
         .expr (some ⟨1, 19⟩) (.call (some ⟨1, 19⟩) (name 19 "f") [])]]
    let code : List Code := [.whileLoop "a" [.line "Exit", .line "f()"]]
    let lines := Reading.spelled.lines ((Code.entriesAll code).map Entry.text)
    let oracle : Oracle := fun _ ↦ true
    (∃ ts, tokenize text Pos.origin = .ok ts ∧ Grammar.parse ts = .ok ⟨some Pos.origin, ss⟩) ∧
      lowerStmts "User Function" none ss = .ok code ∧ allWellPlaced false ss = true ∧
      source.observe oracle 2 (.start ss) ≠ listing.observe oracle 2 ⟨lines, []⟩ := by
  intro text name ss code lines oracle
  let ts : List Token :=
    [⟨.keyword .whileWord, "while", ⟨1, 1⟩⟩, ⟨.mark .openParen, "(", ⟨1, 7⟩⟩,
     ⟨.identifier, "a", ⟨1, 8⟩⟩, ⟨.mark .closeParen, ")", ⟨1, 9⟩⟩,
     ⟨.mark .openBrace, "\x7b", ⟨1, 11⟩⟩,
     ⟨.identifier, "Exit", ⟨1, 13⟩⟩, ⟨.mark .semicolon, ";", ⟨1, 17⟩⟩,
     ⟨.identifier, "f", ⟨1, 19⟩⟩, ⟨.mark .openParen, "(", ⟨1, 20⟩⟩,
     ⟨.mark .closeParen, ")", ⟨1, 21⟩⟩, ⟨.mark .semicolon, ";", ⟨1, 22⟩⟩,
     ⟨.mark .closeBrace, "\x7d", ⟨1, 24⟩⟩]
  have hts : tokenize text Pos.origin = .ok ts := tokenize_of_toOption (by decide +kernel)
  have hsource : source.observe oracle 2 (.start ss) =
      ⟨[.asked (.test "a") true, .ran "Exit"], none⟩ := by
    rw [Machine.observe_quietly rfl, Machine.observe_asks rfl]
    show Observation.after _ (source.observe oracle.rest 1
      ⟨[.stmt _, .stmt _], [(⟨.test "a", none, _⟩, [])]⟩) = _
    rw [Machine.observe_quietly rfl, Machine.observe_shows rfl]
    show Observation.after _ (Observation.after _ (source.observe oracle.rest 0 ⟨[.stmt _], _⟩)) = _
    rw [Machine.observe_quietly rfl, Machine.observe_shows rfl]
    rfl
  have hlisting : listing.observe oracle 2 ⟨lines, []⟩ =
      ⟨[.asked (.test "a") true], some .finished⟩ := by
    have hlines : lines = [.whileDo "a", .exit, .plain "f()", .endDo] := rfl
    rw [hlines, Machine.observe_asks rfl]
    show Observation.after _ (listing.observe oracle.rest 1
      ⟨[.exit, .plain "f()", .endDo], [⟨.test "a", [.exit, .plain "f()", .endDo]⟩]⟩) = _
    rw [Machine.observe_quietly rfl, Machine.observe_ends rfl]
    rfl
  refine ⟨⟨ts, hts, rfl⟩, rfl, rfl, ?_⟩
  rw [hsource, hlisting]
  exact nofun

end Advplc.Flow

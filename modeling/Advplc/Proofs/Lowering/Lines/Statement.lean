import Advplc.Proofs.Lowering.CommentBody
import Advplc.Proofs.Lowering.Generated
import Advplc.Proofs.Lowering.Lines.Expression

/-!
# Which code goes over several lines

The texts that are written as they are, wherever they have a line feed, are the keys of objects and
the paths of modules: `verbatim` lists them.  A line of the code for tidy statements is broken if
and only if one of these texts is (`lowerStmts_breaks`).

The update of a `for` loop is written at the end of the body and again before every `continue` in
it, so the code inside a loop is compared with the texts inside the loop apart from the update
(`BreaksIn`).  If the update is broken, nothing is said about the body, and nothing has to be: the
loop as a whole has a broken line then, since the update is written at least once.

Comments are taken apart into lines before they are written.  So they never count, and neither do
the names of functions, parameters and variables, which stay on their lines in a tidy program.
-/

set_option autoImplicit false

namespace Advplc

namespace Target

/-! ## Code -/

/-- Whether a line of some code goes on in another line. -/
def Code.someBroken (cs : List Code) : Bool := (Code.entriesAll cs).any (·.text.broken)

/-- Whether a line of the further branches of an `If` goes on in another line. -/
def Branches.someBroken (bs : Branches) : Bool := bs.entries.any (·.text.broken)

theorem any_broken_inside (es : List Entry) :
    (inside es).any (·.text.broken) = es.any (·.text.broken) := List.any_map

section SomeBroken

variable (t : Text) (cs ds : List Code) (bs : Branches)

@[simp] theorem Code.someBroken_nil : someBroken [] = false := rfl

/-- The code of two pieces has a broken line if one of them has. -/
@[simp] theorem Code.someBroken_append :
    someBroken (cs ++ ds) = (someBroken cs || someBroken ds) := by
  rw [someBroken, entriesAll_append, List.any_append, someBroken, someBroken]

@[simp] theorem Code.someBroken_lines (ts : List Text) :
    someBroken (ts.map .line) = ts.any Text.broken := by
  induction ts with
  | nil => rfl
  | cons t ts ih =>
    rw [List.map_cons, List.any_cons, ← ih]
    rfl

@[simp] theorem Code.someBroken_line : someBroken [.line t] = t.broken := Bool.or_false _

@[simp] theorem Code.someBroken_ret (v : Option Text) :
    someBroken [.ret v] = v.any Text.broken := by
  cases v <;> simp [someBroken, entriesAll, entries, outer]

@[simp] theorem Code.someBroken_exit : someBroken [.exit] = false := rfl

@[simp] theorem Code.someBroken_loop : someBroken [.loop] = false := rfl

/-- What stands in a loop is set in, which breaks nothing. -/
@[simp] theorem Code.someBroken_while :
    someBroken [.whileLoop t cs] = (t.broken || someBroken cs) := by
  simp [someBroken, entriesAll, entries, any_broken_inside, outer]

@[simp] theorem Code.someBroken_for :
    someBroken [.forLoop t cs] = (t.broken || someBroken cs) := by
  simp [someBroken, entriesAll, entries, any_broken_inside, outer]

/-- An `If` has its header, its first branch, and the others. -/
@[simp] theorem Code.someBroken_branch :
    someBroken [.branch t cs bs] = (t.broken || someBroken cs || bs.someBroken) := by
  simp [someBroken, Branches.someBroken, entriesAll, entries, any_broken_inside, outer,
    Bool.or_assoc]

@[simp] theorem Code.someBroken_function (ends : Bool) :
    someBroken [.function t cs ends] = (t.broken || someBroken cs) := by
  cases ends <;> simp [someBroken, entriesAll, entries, any_broken_inside, outer]

@[simp] theorem Branches.someBroken_done : Branches.done.someBroken = false := rfl

@[simp] theorem Branches.someBroken_otherwise :
    (Branches.otherwise cs).someBroken = Code.someBroken cs := by
  simp [someBroken, Code.someBroken, entries, any_broken_inside, outer]

/-- A further branch has a header of its own. -/
@[simp] theorem Branches.someBroken_elseIf :
    (Branches.elseIf t cs bs).someBroken =
      (t.broken || Code.someBroken cs || bs.someBroken) := by
  simp [someBroken, Code.someBroken, entries, any_broken_inside, outer, Bool.or_assoc]

end SomeBroken

end Target

namespace Lowering

open Script (Expr Stmt ForInit)

open Target (Code)

/-! ## Texts that are written as they are -/

mutual

/-- The texts that are written as they are in the code for a statement: the keys of objects and the
paths of modules. -/
def verbatim : Stmt → List Text
  | .importFrom _ source _ => [source]
  | .exportDecl _ s _ _ => verbatim s
  | .exportValue _ e _ _ | .expr _ e => keys e
  | .variable v => (keysEach v.value.toList).flatten
  | .output _ _ as => (keysEach as).flatten
  | .function _ _ _ b => verbatimAll b
  | .ret _ v => (keysEach v.toList).flatten
  | .ifThen _ t b | .whileLoop _ t b => keys t ++ verbatimAll b
  | .ifElse _ t y n => keys t ++ verbatimAll y ++ verbatimAll n
  | .forLoop _ i t u b => (keysEach i.expr?.toList).flatten ++ (keysEach t.toList).flatten ++
      (keysEach u.toList).flatten ++ verbatimAll b
  | .lineComment _ _ | .blockComment _ _ | .exportNames _ _ _ => []
  | .breakLoop _ | .continueLoop _ | .foreign _ => []

/-- The texts that are written as they are in the code for several statements. -/
def verbatimAll : List Stmt → List Text
  | [] => []
  | s :: ss => verbatim s ++ verbatimAll ss

end

/-! ## Comments and includes -/

section Comments

variable {t : Text}

/-- A comment up to the end of its line stays on a line. -/
theorem broken_lineCommentText (h : t.broken = false) : (lineCommentText t).broken = false := by
  rw [lineCommentText]
  split
  · simp
  · simpa using Text.broken_of_subset (Text.isInfix_trim t).subset h

/-- The lines of what a comment says are taken from the lines of the comment. -/
theorem broken_of_mem_commentBody {ls : List Text} (h : ∀ l ∈ ls, l.broken = false) :
    ∀ l ∈ commentBody ls, l.broken = false := by
  intro l hl
  obtain ⟨line, hline, hsays⟩ := (saysAll_commentBody ls).exists_line l hl
  exact Text.broken_of_subset hsays.isInfix.subset (h line hline)

/-- Every line of a block comment becomes a line of its own. -/
theorem any_broken_blockCommentLines (t : Text) :
    (blockCommentLines t).any Text.broken = false := by
  have hlines : ∀ l ∈ t.lines, l.broken = false := fun l ↦ Text.broken_of_mem_lines
  rw [blockCommentLines]
  -- A comment of one line is written on one line, and any other on several.
  split
  · rename_i l hl
    have ht : t.broken = false := by
      rw [Text.eq_of_lines_eq_singleton hl]
      exact hlines l (by simp [hl])
    simpa using Text.broken_of_subset (Text.isInfix_trim t).subset ht
  · have hbody : ((commentBody t.lines).map fun line ↦ Text.trimRight (" * " ++ line)).any
        Text.broken = false := by
      rw [List.any_map, List.any_eq_false]
      intro line hline
      have hone : (" * " ++ line : Text).broken = false := by
        simpa using broken_of_mem_commentBody hlines line hline
      simpa using Text.broken_of_subset (Text.isPrefix_trimRight _).subset hone
    simp [hbody]

/-- Without its ending a path has the same line feeds. -/
theorem broken_withoutEnding {ending : Text} (h : ending.broken = false) (t : Text) :
    (withoutEnding ending t).broken = t.broken := by
  rw [withoutEnding]
  split
  · obtain ⟨stem, rfl⟩ := List.isSuffixOf_iff_suffix.mp ‹_›
    simp [h]
  · rfl

theorem broken_withEnding {ending : Text} (h : ending.broken = false) (t : Text) :
    (withEnding ending t).broken = t.broken := by
  rw [withEnding]
  split
  · rfl
  · simp [h]

/-- So it has without the dot in front. -/
theorem broken_withoutHere (t : Text) : (withoutHere t).broken = t.broken := by
  fun_cases withoutHere t with
  | case1 rest => simp
  | case2 => rfl

/-- A path to include is broken if and only if the path of the module is. -/
theorem broken_includePath (source : Text) : (includePath source).broken = source.broken := by
  -- Slashes become backslashes, and nothing else changes.
  have hslash : ∀ s : Text, (Text.substitute '/' "\\" s).broken = s.broken := by
    intro s
    induction s with
    | nil => rfl
    | cons c s ih =>
      rw [Text.substitute] at ih ⊢
      rw [List.flatMap_cons, Text.broken_append, ih, Text.broken_cons]
      by_cases hc : c = .scalar '/'
      · subst hc
        simp
      · simp [hc]
  rw [includePath, hslash, broken_withEnding (by simp), broken_withoutEnding (by simp),
    broken_withoutHere]

end Comments

/-! ## Statements without statements inside -/

/-- Code for which a line is broken if and only if one of the texts is. -/
abbrev LinesBreakAt (ks : List Text) (code : List Code) : Prop :=
  Code.someBroken code = ks.any Text.broken

/-- Printing an expression: what is broken is its text. -/
theorem Yields.value {r : Except Error Target.Expr} {ks : List Text}
    (h : Yields r (BreaksAt ks)) : Yields (value r) fun t ↦ t.broken = ks.any Text.broken := by
  rcases r with e | e
  · exact .error
  · exact .ok (h e rfl)

/-- A declaration writes its name and its first value. -/
theorem lowerVariable_breaks {v : Script.Variable} (h : v.Tidy) :
    Yields (lowerVariable v) (LinesBreakAt (keysEach v.value.toList).flatten) := by
  obtain ⟨hname, hvalue⟩ := h
  rw [lowerVariable]
  rcases hv : v.value with _ | e
  · exact .ok (by simp [LinesBreakAt, hname, keysEach])
  · rw [hv] at hvalue
    refine (lower_breaks e hvalue.1).value.map fun t ht ↦ ?_
    simp [LinesBreakAt, hname, keysEach, ht]

/-- Several elements that are appended: the array is written with each of them, and so not at all if
there are none. -/
theorem lowerPushes_breaks (receiver : Text) {es : List Expr} (h : Expr.AllTidy es) :
    Yields (lowerPushes receiver es) fun code ↦ Code.someBroken code =
      (!es.isEmpty && receiver.broken || (keysEach es).flatten.any Text.broken) := by
  induction es with
  | nil => exact .ok rfl
  | cons e es ih =>
    intro code hcode
    rw [lowerPushes] at hcode
    obtain ⟨cs, ds, hcs, hds, rfl⟩ := sequence_eq_ok hcode
    obtain ⟨t, ht, hcs⟩ := bind_eq_ok hcs
    cases hcs
    have hfirst : t.broken = _ := (lower_breaks e h.1).value t ht
    -- Each line is a call with the array and one element.
    have hline : (Target.callText Method.push.function [receiver, t]).broken =
        (receiver.broken || (keys e).any Text.broken) := by
      simp [Method.broken_function, hfirst]
    rw [Code.someBroken_append, Code.someBroken_line, hline, ih h.2 ds hds, keysEach,
      List.flatten_cons, List.any_append, List.isEmpty_cons]
    cases receiver.broken <;> simp

/-- An expression as a statement, which may be several lines. -/
theorem lowerExprStmt_breaks {e : Expr} (h : e.Tidy) :
    Yields (lowerExprStmt e) (LinesBreakAt (keys e)) := by
  have hline : Yields (do return [.line (← value (lowerStatement e))] : Generated)
      (LinesBreakAt (keys e)) :=
    (lowerStatement_breaks h).value.map fun t ht ↦ (Code.someBroken_line t).trans ht
  cases e with
  | call q f as =>
    cases f with
    | member r o n t =>
      rw [lowerExprStmt]
      split
      · rename_i hseveral
        obtain ⟨hpush, hcount⟩ := appendsSeveral_call.mp hseveral
        refine (lower_breaks o h.1.1).value.bind fun receiver hreceiver code hcode ↦ ?_
        -- There are several elements, so the array is written.
        have hne : as.isEmpty = false := by
          simpa [← List.length_eq_zero_iff] using Nat.ne_of_gt (Nat.lt_of_succ_lt hcount)
        rw [LinesBreakAt, lowerPushes_breaks receiver h.2 code hcode, hne, hreceiver, keys, keys,
          method?, Method.ofName?_eq_push.mpr hpush, List.any_append]
        rfl
      · exact hline
    | _ => exact hline
  | _ => exact hline

/-- An output statement is one line. -/
theorem lowerOutputStmt_breaks {es : List Expr} (h : Expr.AllTidy es) :
    Yields (lowerOutputStmt es) (LinesBreakAt (keysEach es).flatten) := by
  have hout := lowerOutput_breaks h
  rw [lowerOutputStmt]
  rcases ho : lowerOutput es with e | o
  · exact .error
  · refine .ok ?_
    rw [LinesBreakAt, Code.someBroken_line, Target.broken_callText, ← hout o ho]
    simp [Target.outputFunction]

/-! ## Loops -/

/-- What is written of the beginning of a loop that counts is its first value. -/
theorem Counting.keys_of_startOf? {init : ForInit} {n : Lexeme} {e : Expr}
    (h : Counting.startOf? init = some (n, e)) (hinit : init.Tidy) :
    n.spelled.broken = false ∧ e.Tidy ∧ (keysEach init.expr?.toList).flatten = keys e := by
  obtain ⟨v, rfl, rfl, hv⟩ | ⟨p, op, q, rfl⟩ := forms_of_startOf? h
  · obtain ⟨hname, hvalue⟩ := hinit
    rw [hv] at hvalue
    exact ⟨hname, hvalue.1, by simp [ForInit.expr?, hv, keysEach]⟩
  · exact ⟨hinit.1, hinit.2, by simp [ForInit.expr?, keysEach, keys]⟩

/-- What is written of its test is the bound. -/
theorem Counting.keys_of_boundOf? {name : Lexeme} {test : Option Expr} {x : Comparison}
    {e : Expr} (h : Counting.boundOf? name test = some (x, e)) (htest : Expr.AllTidy test.toList) :
    e.Tidy ∧ (keysEach test.toList).flatten = keys e := by
  obtain ⟨p, op, q, n, rfl⟩ := form_of_boundOf? h
  exact ⟨htest.1.2, by simp [keysEach, keys]⟩

/-- The update of a loop that counts has no key in it. -/
theorem Counting.keys_of_stepOf? {name : Lexeme} {update : Option Expr} {step : Int}
    (h : Counting.stepOf? name update = some step) : (keysEach update.toList).flatten = [] := by
  obtain ⟨p, op, side, q, n, rfl⟩ | ⟨p, op, q, n, e, k, rfl, hk⟩ := forms_of_stepOf? h
  · rfl
  · simp [keysEach, keys, keys_of_natural? hk]

/-- What is written of a loop that counts: its variable, its first value and its bound. -/
theorem Counting.keys_of_ofLoop? {init : ForInit} {test update : Option Expr} {c : Counting}
    (h : Counting.ofLoop? init test update = some c) (hinit : init.Tidy)
    (htest : Expr.AllTidy test.toList) :
    (c.name.spelled.broken = false ∧ c.start.Tidy ∧
      (keysEach init.expr?.toList).flatten = keys c.start) ∧
    (c.bound.Tidy ∧ (keysEach test.toList).flatten = keys c.bound) ∧
    (keysEach update.toList).flatten = [] := by
  simp only [Counting.ofLoop?, Option.bind_eq_bind, Option.bind_eq_some_iff] at h
  obtain ⟨⟨name, start⟩, hstart, ⟨comparison, bound⟩, hbound, step, hstep, h⟩ := h
  split at h
  · cases h
    exact ⟨keys_of_startOf? hstart hinit, keys_of_boundOf? hbound htest, keys_of_stepOf? hstep⟩
  · cases h

/-- Moving a bound by one adds no line. -/
theorem Counting.limit_breaks {c : Counting} (h : c.bound.Tidy) :
    Yields c.limit (BreaksAt (keys c.bound)) := by
  have hbound := lower_breaks c.bound h
  rw [Counting.limit]
  split
  · exact hbound.map fun e he ↦ he.shift _
  · exact hbound.map fun e he ↦ he.shift _
  · exact hbound
  · exact hbound

theorem lowerInit_breaks {init : ForInit} (h : init.Tidy) :
    Yields (lowerInit init) (LinesBreakAt (keysEach init.expr?.toList).flatten) := by
  cases init with
  | nothing => exact .ok rfl
  | «variable» v => exact lowerVariable_breaks h
  | expr e =>
    refine (lowerStatement_breaks h).value.map fun t ht ↦ ?_
    simp [LinesBreakAt, ForInit.expr?, keysEach, ht]

/-- A test that is missing is written as a constant. -/
theorem lowerTest_breaks {test : Option Expr} (h : Expr.AllTidy test.toList) :
    Yields (lowerTest test) fun t ↦
      t.broken = (keysEach test.toList).flatten.any Text.broken := by
  cases test with
  | none => exact .ok (by simp [Target.Expr.print, keysEach])
  | some e =>
    intro t ht
    simpa [keysEach] using (lower_breaks e h.1).value t ht

/-- An update may be missing, and is not written then. -/
theorem lowerUpdate_breaks {update : Option Expr} (h : Expr.AllTidy update.toList) :
    Yields (lowerUpdate update) fun u ↦
      u.any Text.broken = (keysEach update.toList).flatten.any Text.broken := by
  cases update with
  | none => exact .ok rfl
  | some e =>
    refine (lowerStatement_breaks h.1).value.map fun t ht ↦ ?_
    simp [keysEach, ht]

/-- Apart from the update of the loop around it, code has a broken line if and only if one of the
texts is broken. -/
def BreaksIn (update : Option Text) (ks : List Text) (code : List Code) : Prop :=
  (Code.someBroken code || update.any Text.broken) =
    (ks.any Text.broken || update.any Text.broken)

section BreaksIn

variable {update : Option Text} {ks ls : List Text} {cs ds : List Code}

/-- Code that does not hold the update is compared as it is. -/
theorem LinesBreakAt.within (h : LinesBreakAt ks cs) : BreaksIn update ks cs :=
  congrArg (· || _) h

/-- Where there is no update, the two are the same. -/
theorem breaksIn_none : BreaksIn none ks cs ↔ LinesBreakAt ks cs := by
  simp [BreaksIn, LinesBreakAt]

/-- Statement by statement, since the update is apart from all of them. -/
theorem BreaksIn.append (hcs : BreaksIn update ks cs) (hds : BreaksIn update ls ds) :
    BreaksIn update (ks ++ ls) (cs ++ ds) := by
  rw [BreaksIn] at hcs hds ⊢
  rw [Code.someBroken_append, List.any_append]
  cases h : update.any Text.broken <;> simp_all

end BreaksIn

theorem Counting.broken_header {c : Counting} (h : c.name.spelled.broken = false)
    (first last : Target.Expr) :
    (c.header first last).broken = (first.print.broken || last.print.broken) := by
  rw [Counting.header]
  split
  · simp [h]
  · simp [h]

theorem someBroken_declaration {init : ForInit} (h : init.Tidy) :
    Code.someBroken (declaration init) = false := by
  cases init with
  | nothing | expr => rfl
  | «variable» v => simp [declaration, h.1]

theorem someBroken_updateCode (update : Option Text) :
    Code.someBroken (updateCode update) = update.any Text.broken := by
  cases update <;> simp [updateCode]

/-- **A loop closes off its own update**: its code is compared with all its texts, those of the
update among them. -/
theorem lowerFor_breaks {init : ForInit} {test change : Option Expr}
    {body : Option Text → Generated} {ks : List Text} (hinit : init.Tidy)
    (htest : Expr.AllTidy test.toList) (hchange : Expr.AllTidy change.toList)
    (hbody : ∀ u, Yields (body u) (BreaksIn u ks)) :
    Yields (lowerFor init test change body)
      (LinesBreakAt ((keysEach init.expr?.toList).flatten ++ (keysEach test.toList).flatten ++
        (keysEach change.toList).flatten ++ ks)) := by
  intro code hcode
  rw [LinesBreakAt, List.any_append, List.any_append, List.any_append]
  rcases hc : Counting.ofLoop? init test change with _ | c
  · obtain ⟨ds, t, u, cs, hds, ht, hu, hcs, rfl⟩ := lowerFor_general_eq_ok hc hcode
    have hinside : (Code.someBroken cs || u.any Text.broken) = _ := hbody u cs hcs
    -- The update goes to the end of the body, where it joins those before each `continue`.
    rw [Code.someBroken_append, Code.someBroken_while, Code.someBroken_append,
      someBroken_updateCode, hinside, lowerInit_breaks hinit ds hds, lowerTest_breaks htest t ht,
      lowerUpdate_breaks hchange u hu]
    ac_rfl
  · -- A loop that counts leaves its update out, but there is no key in that.
    obtain ⟨first, last, cs, hfirst, hlast, hcs, rfl⟩ := lowerFor_counting_eq_ok hc hcode
    obtain ⟨⟨hname, hstart, hi⟩, ⟨hbound, ht⟩, hu⟩ := Counting.keys_of_ofLoop? hc hinit htest
    rw [Code.someBroken_append, someBroken_declaration hinit, Code.someBroken_for,
      Counting.broken_header hname, lower_breaks c.start hstart first hfirst,
      Counting.limit_breaks hbound last hlast, breaksIn_none.mp (hbody none cs hcs), hi, ht, hu]
    simp

/-! ## Statements -/

variable {words : Text}

/-- The header of a function has names in it only. -/
theorem broken_functionHeader (hwords : words.broken = false) {n : Lexeme} {ps : List Lexeme}
    (hn : n.spelled.broken = false) (hps : ∀ p ∈ ps, p.spelled.broken = false) :
    (functionHeader words n ps).broken = false := by
  simpa [functionHeader, hwords, hn] using hps

mutual

/-- **A line of the code for a statement is broken if and only if a text is that is written as it
is**, apart from the update of the loop around it. -/
theorem lowerStmt_breaks (hwords : words.broken = false) (update : Option Text) (s : Stmt)
    (h : s.Tidy) : Yields (lowerStmt words update s) (BreaksIn update (verbatim s)) := by
  intro code hcode
  cases s with
  | lineComment p t =>
    cases hcode
    exact LinesBreakAt.within (by simp [LinesBreakAt, broken_lineCommentText h, verbatim])
  | blockComment p t =>
    cases hcode
    refine LinesBreakAt.within ?_
    rw [LinesBreakAt, Code.someBroken_lines, any_broken_blockCommentLines]
    rfl
  | importFrom p source xs =>
    cases hcode
    exact LinesBreakAt.within (by simp [LinesBreakAt, broken_includePath, verbatim])
  | exportDecl p s ns d => exact lowerStmt_breaks hwords update s h code hcode
  | exportValue p e ns d =>
    rw [lowerStmt] at hcode
    obtain ⟨t, ht, hcode⟩ := bind_eq_ok hcode
    cases hcode
    have ht : t.broken = _ := (lower_breaks e h).value t ht
    exact LinesBreakAt.within (by simp [LinesBreakAt, verbatim, ht])
  | exportNames p ns d =>
    cases hcode
    have hnames : ∀ n ∈ ns, n.spelled.broken = false := h
    exact LinesBreakAt.within (by simpa [LinesBreakAt, verbatim] using hnames)
  | «variable» v => exact (lowerVariable_breaks h code hcode).within
  | output p form as => exact (lowerOutputStmt_breaks h code hcode).within
  | function p n ps body =>
    rw [lowerStmt] at hcode
    obtain ⟨cs, hcs, hcode⟩ := bind_eq_ok hcode
    cases hcode
    have hbody := lowerStmts_breaks hwords update body h.2.2 cs (nested_eq_ok hcs)
    rw [BreaksIn, verbatim, ← hbody, Code.someBroken_function,
      broken_functionHeader hwords h.1 h.2.1, Bool.false_or]
  | ret p v =>
    cases v with
    | none =>
      cases hcode
      rfl
    | some e =>
      rw [lowerStmt] at hcode
      obtain ⟨t, ht, hcode⟩ := bind_eq_ok hcode
      cases hcode
      have ht : t.broken = _ := (lower_breaks e h.1).value t ht
      exact LinesBreakAt.within (by simp [LinesBreakAt, verbatim, keysEach, ht])
  -- The branches stand in the same loop, and so they are compared apart from the same update.
  | ifThen p t y =>
    obtain ⟨test, cs, htest, hcs, rfl⟩ := lowerIfThen_eq_ok hcode
    have htest : test.broken = _ := (lower_breaks t h.1).value test htest
    have hyes : (Code.someBroken cs || _) = _ := lowerStmts_breaks hwords update y h.2 cs hcs
    rw [BreaksIn, verbatim, Code.someBroken_branch, htest, List.any_append]
    simp [Bool.or_assoc, hyes]
  | ifElse p t y n =>
    obtain ⟨test, cs, bs, htest, hcs, hbs, rfl⟩ := lowerIfElse_eq_ok hcode
    have htest : test.broken = _ := (lower_breaks t h.1).value test htest
    have hyes : (Code.someBroken cs || _) = _ := lowerStmts_breaks hwords update y h.2.1 cs hcs
    have hno : (bs.someBroken || update.any Text.broken) =
        ((verbatimAll n).any Text.broken || update.any Text.broken) := by
      obtain ⟨ds, hds, rfl⟩ | ⟨u, ds, rest, hds, rfl⟩ := lowerElse_eq_ok hbs
      · simpa [BreaksIn] using lowerStmts_breaks hwords update n h.2.2 ds hds
      · simpa [BreaksIn] using lowerStmts_breaks hwords update n h.2.2 _ hds
    rw [BreaksIn, verbatim, Code.someBroken_branch, htest, List.any_append, List.any_append]
    cases hu : update.any Text.broken <;> simp_all
  -- The body stands in this loop, and is compared apart from its update.
  | forLoop p i t u b =>
    obtain ⟨hi, ht, hu, hb⟩ := h
    have hbody := fun inner ↦ lowerStmts_breaks hwords inner b hb
    exact (lowerFor_breaks hi ht hu hbody code hcode).within
  -- In a `while` loop there is no update.
  | whileLoop p t b =>
    obtain ⟨test, cs, htest, hcs, rfl⟩ := lowerWhile_eq_ok hcode
    have htest : test.broken = _ := (lower_breaks t h.1).value test htest
    have hbody := breaksIn_none.mp (lowerStmts_breaks hwords none b h.2 cs hcs)
    refine LinesBreakAt.within ?_
    rw [LinesBreakAt, Code.someBroken_while, htest, hbody, verbatim, List.any_append]
  | breakLoop p =>
    cases hcode
    rfl
  -- Here the update is written.
  | continueLoop p =>
    cases hcode
    rw [BreaksIn, Code.someBroken_append, someBroken_updateCode, verbatim]
    simp
  | expr p e => exact (lowerExprStmt_breaks h code hcode).within
  | foreign f => cases hcode

/-- The same of several statements. -/
theorem lowerStmts_breaks (hwords : words.broken = false) (update : Option Text) (ss : List Stmt)
    (h : Stmt.AllTidy ss) :
    Yields (lowerStmts words update ss) (BreaksIn update (verbatimAll ss)) := by
  cases ss with
  | nil => exact .ok rfl
  | cons s ss =>
    intro code hcode
    obtain ⟨cs, ds, hcs, hds, rfl⟩ := lowerStmts_cons_eq_ok hcode
    exact (lowerStmt_breaks hwords update s h.1 cs hcs).append
      (lowerStmts_breaks hwords update ss h.2 ds hds)

end

end Lowering

end Advplc

import Advplc.Proofs.Lowering.Generator

/-!
# The walk lays the lines of the code

`linesAll` lists the lines of code together with their sites.  The walk through a statement lays
exactly the lines of the code that the statement becomes, and if there is no such code, it stops
where code generation got stuck (`traces_stmt`).  The proof goes along the tree: `Traces` says how a
walk and a result of code generation belong together, and there is one theorem for each way to put
results together.

It follows that a walk and a session write the same (`session_stmt`, `session_file`).
-/

set_option autoImplicit false

namespace Advplc.Lowering.Generator

open Target (Code Branches)

mutual

/-- The lines of a piece of code and what they are there for.  The lines within a block stand one
level further in. -/
def lines : Code → List Line
  | .line t => [top .plain t]
  | .ret none => [top .ret "Return"]
  | .ret (some v) => [top .ret ("Return " ++ v)]
  | .exit => [top .plain "Exit"]
  | .loop => [top .plain "Loop"]
  | .whileLoop test body =>
    top .whileHead ("While " ++ test) :: within (linesAll body) ++ [top .endDo "EndDo"]
  | .forLoop header body =>
    top .forHead ("For " ++ header) :: within (linesAll body) ++ [top .next "Next"]
  | .branch test yes rest =>
    top .ifHead ("If " ++ test) :: within (linesAll yes) ++ branchLines rest ++ [top .endIf "EndIf"]
  | .function header body ends =>
    top .functionHead header :: within (linesAll body) ++
      (if ends then [] else [top .functionEnd "Return"]) ++ [top .gap []]

/-- The lines of the further branches of an `If`. -/
def branchLines : Branches → List Line
  | .done => []
  | .otherwise body => top .elseHead "Else" :: within (linesAll body)
  | .elseIf test yes rest =>
    top .elseIfHead ("ElseIf " ++ test) :: within (linesAll yes) ++ branchLines rest

/-- The lines of several pieces of code. -/
def linesAll : List Code → List Line
  | [] => []
  | c :: cs => lines c ++ linesAll cs

end

@[simp] theorem linesAll_append (cs ds : List Code) :
    linesAll (cs ++ ds) = linesAll cs ++ linesAll ds := by
  induction cs with
  | nil => simp only [linesAll, List.nil_append]
  | cons c cs ih => simp only [List.cons_append, linesAll, ih, List.append_assoc]

@[simp] theorem linesAll_singleton (c : Code) : linesAll [c] = lines c := by
  simp only [linesAll, List.append_nil]

theorem within_append (ls ls' : List Line) : within (ls ++ ls') = within ls ++ within ls' :=
  List.map_append

/-! ## Without sites -/

@[simp] theorem entry_top (site : Site) (t : Text) : (top site t).entry = Target.outer t := rfl

mutual

/-- Without sites, the lines of code are its entries. -/
theorem map_entry_lines (c : Code) : (lines c).map Line.entry = c.entries := by
  cases c with
  | line t | exit | loop => rfl
  | ret v => cases v <;> rfl
  | whileLoop test body | forLoop header body =>
    simp only [lines, Code.entries, List.map_append, List.map_cons, map_entry_within,
      map_entry_linesAll body, entry_top, List.map_nil, List.singleton_append]
  | branch test yes rest =>
    simp only [lines, Code.entries, List.map_append, List.map_cons, map_entry_within,
      map_entry_linesAll yes, map_entry_branchLines rest, entry_top, List.map_nil,
      List.singleton_append]
  | function header body ends =>
    cases ends <;>
    simp only [lines, Code.entries, List.map_append, List.map_cons, map_entry_within,
      map_entry_linesAll body, entry_top, List.map_nil, List.singleton_append, reduceIte,
      Bool.false_eq_true]

theorem map_entry_branchLines (bs : Branches) : (branchLines bs).map Line.entry = bs.entries := by
  cases bs with
  | done => rfl
  | otherwise body =>
    simp only [branchLines, Branches.entries, List.map_cons, map_entry_within,
      map_entry_linesAll body, entry_top, List.singleton_append]
  | elseIf test yes rest =>
    simp only [branchLines, Branches.entries, List.map_append, List.map_cons, map_entry_within,
      map_entry_linesAll yes, map_entry_branchLines rest, entry_top, List.singleton_append]

theorem map_entry_linesAll (cs : List Code) :
    (linesAll cs).map Line.entry = Code.entriesAll cs := by
  cases cs with
  | nil => rfl
  | cons c cs =>
    simp only [linesAll, Code.entriesAll, List.map_append, map_entry_lines c, map_entry_linesAll cs]

end

/-! ## Walks and code generation -/

/-- The walk `m` lays the lines of what was generated, or it stops where code generation got
stuck. -/
def Traces {α : Type} (words : Text) (update : Option Text) (m : Gen Unit) (r : Except Stuck α)
    (listed : α → List Line) : Prop :=
  match r with
  | .ok a => Does words update m (listed a) (.ok ())
  | .error k =>
    ∃ ls, ls.map Line.entry = k.entries ∧ Does words update m ls (.error (k.depth, k.error))

section

variable {α β : Type} {words : Text} {update : Option Text} {m m' : Gen Unit}

/-- A walk that is refused at once has laid nothing. -/
theorem traces_refused (e : Error) (f : α → List Line) :
    Traces words update (throw (.refused e)) (.error (.here e)) f :=
  ⟨[], rfl, .refused e⟩

/-- A walk may depend on the generator that it begins with. -/
theorem traces_get {walk : Generator → Gen Unit} {r : Except Stuck α} {f : α → List Line}
    (hwalk : ∀ g, Suits words update g → walk g = m) (h : Traces words update m r f) :
    Traces words update (do walk (← get)) r f := by
  have hsame : ∀ g, Suits words update g → (do walk (← get) : Gen Unit).on g = m.on g := by
    intro g hg
    rw [on_get, hwalk g hg]
  cases r with
  | ok a => exact fun g hg ↦ (hsame g hg).trans (h g hg)
  | error k =>
    obtain ⟨ls, hls, hm⟩ := h
    exact ⟨ls, hls, fun g hg ↦ (hsame g hg).trans (hm g hg)⟩

/-- A walk may begin with what has to be computed. -/
theorem traces_raise {x : Except Error β} {walk : β → Gen Unit} {r : Except Stuck α}
    {f : α → List Line} (hok : ∀ b, x = .ok b → Traces words update (walk b) r f)
    (herror : ∀ e, x = .error e → r = .error (.here e)) :
    Traces words update (do walk (← raise x)) r f := by
  cases x with
  | ok b => exact hok b rfl
  | error e =>
    rw [herror e rfl]
    exact traces_refused e f

/-- A walk that needs the text of an expression first.  If there is none, nothing was laid and code
generation is stuck at the same place. -/
theorem traces_text {r : Except Error Target.Expr} {walk : Text → Gen Unit}
    {next : Text → Except Stuck α} {f : α → List Line}
    (h : ∀ t, Traces words update (walk t) (next t) f) :
    Traces words update (do walk (← text r)) (do next (← value r)) f := by
  cases r with
  | ok e => exact h e.print
  | error e => exact traces_refused e f

/-- One walk after another.  If the second gets stuck, the lines of the first are there already. -/
theorem traces_sequence {first second : Generated} (h : Traces words update m first linesAll)
    (h' : Traces words update m' second linesAll) :
    Traces words update (do m; m') (sequence first second) linesAll := by
  cases first with
  | error k =>
    obtain ⟨ls, hls, hm⟩ := h
    exact ⟨ls, hls, hm.stuck m'⟩
  | ok cs =>
    cases second with
    | error k =>
      obtain ⟨ls, hls, hm⟩ := h'
      refine ⟨linesAll cs ++ ls, ?_, Does.followed h hm⟩
      rw [List.map_append, map_entry_linesAll, hls]
      rfl
    | ok ds =>
      show Does words update _ (linesAll (cs ++ ds)) _
      rw [linesAll_append]
      exact Does.followed h h'

/-- A line and then a block. -/
theorem Does.headed {ls : List Line} {e : Except (Nat × Error) Unit} (site : Site) (header : Text)
    (h : Does words update m ls e) :
    Does words update (do Generator.emit site header; m) (top site header :: ls) e :=
  (Does.emit site header).followed h

/-- The header of a block, and what is generated inside it.  A block may be the inside of a loop. -/
theorem traces_nested {inner : Option Text} {enclosed : Gen Unit} {body : Generated}
    (henclosed : ∀ {ls e}, Does words inner m ls e →
      Does words update enclosed (within ls) (outward e))
    (h : Traces words inner m body linesAll) (site : Site) (header : Text) :
    Traces words update (do emit site header; enclosed) (nested header body)
      (fun cs ↦ top site header :: within (linesAll cs)) := by
  cases body with
  | ok cs => exact (henclosed h).headed site header
  | error k =>
    obtain ⟨ls, hls, hm⟩ := h
    refine ⟨top site header :: within ls, ?_, (henclosed hm).headed site header⟩
    rw [List.map_cons, map_entry_within, hls]
    rfl

/-- A branch and what comes behind it: two walks, of which the first is in a block of its own. -/
theorem traces_armed {yes : Generated} {rest : Except Stuck α} {f : α → List Line}
    (h : Traces words update m yes linesAll) (h' : Traces words update m' rest f) (site : Site)
    (header : Text) : Traces words update (do emit site header; block m; m')
      (armed header yes rest) (fun (cs, a) ↦ top site header :: within (linesAll cs) ++ f a) := by
  have hnested := traces_nested Does.block h site header
  cases yes with
  | error k =>
    obtain ⟨ls, hls, hm⟩ := hnested
    have hstuck := hm.stuck m'
    -- The header and the block are one walk here, and two in what is to be shown.
    rw [bind_assoc] at hstuck
    exact ⟨ls, hls, hstuck⟩
  | ok cs =>
    cases rest with
    | ok a =>
      have hboth := Does.followed hnested h'
      rw [bind_assoc] at hboth
      exact hboth
    | error k =>
      obtain ⟨ls, hls, hm⟩ := h'
      have hboth := Does.followed hnested hm
      rw [bind_assoc] at hboth
      refine ⟨_, ?_, hboth⟩
      rw [List.map_append, List.map_cons, map_entry_within, map_entry_linesAll, hls]
      rfl

/-- The same lines behind whatever was generated. -/
theorem Traces.closed {walk : Gen Unit} {r : Except Stuck α} {next : α → Except Stuck β}
    {f : α → List Line} {f' : β → List Line} (h : Traces words update m r f) {tail : List Line}
    (h' : Does words update m' tail (.ok ())) (hwalk : walk = do m; m')
    (hnext : ∀ a, ∃ b, next a = .ok b ∧ f' b = f a ++ tail) :
    Traces words update walk (r >>= next) f' := by
  rw [hwalk]
  cases r with
  | ok a =>
    obtain ⟨b, hb, hlines⟩ := hnext a
    show Traces words update _ (next a) f'
    rw [hb]
    show Does words update _ (f' b) _
    rw [hlines]
    exact Does.followed h h'
  | error k =>
    obtain ⟨ls, hls, hm⟩ := h
    exact ⟨ls, hls, hm.stuck m'⟩

theorem traces_emit (site : Site) (t : Text) (c : Code) (hc : lines c = [top site t]) :
    Traces words update (emit site t) (.ok [c]) linesAll := by
  show Does words update _ (linesAll [c]) _
  rw [linesAll_singleton, hc]
  exact .emit site t

/-! ## Statements without statements inside -/

theorem traces_plain (t : Text) : Traces words update (emit .plain t) (.ok [.line t]) linesAll :=
  traces_emit _ _ _ rfl

/-- Lines are laid one by one. -/
theorem traces_plainLines (ts : List Text) :
    Traces words update (plainLines ts) (.ok (ts.map .line)) linesAll := by
  induction ts with
  | nil => exact .nothing
  | cons t ts ih => exact traces_sequence (traces_plain t) ih

/-- A line with an expression in it. -/
theorem traces_expr (r : Except Error Target.Expr) (f : Text → Text) :
    Traces words update (do emit .plain (f (← text r))) (do return [.line (f (← value r))])
      linesAll :=
  traces_text fun t ↦ traces_plain (f t)

theorem traces_declare (v : Script.Variable) :
    Traces words update (declare v) (lowerVariable v) linesAll := by
  rw [declare, lowerVariable]
  cases v.value with
  | none => exact traces_plain _
  | some e => exact traces_expr (lower e) _

/-- A call that appends several values is a line for each of them. -/
theorem traces_pushes (receiver : Text) (es : List Script.Expr) :
    Traces words update (pushes receiver es) (lowerPushes receiver es) linesAll := by
  induction es with
  | nil => exact .nothing
  | cons e es ih =>
    have h : Traces words update _ _ _ := traces_sequence (traces_expr (lower e) fun t ↦
      Target.callText Method.push.function [receiver, t]) ih
    rw [bind_assoc] at h
    exact h

/-- All expressions but a call of a method become one line. -/
theorem traces_exprStmt (e : Script.Expr) :
    Traces words update (exprStmt e) (lowerExprStmt e) linesAll := by
  cases e with
  | call p f as =>
    cases f with
    | member q o n r =>
      rw [exprStmt, lowerExprStmt]
      split
      · exact traces_text fun receiver ↦ traces_pushes receiver _
      · exact traces_expr _ id
    | _ => exact traces_expr _ id
  | _ => exact traces_expr _ id

/-- The call is computed as a whole, so that nothing is laid if an argument is refused. -/
theorem traces_outputStmt (arguments : List Script.Expr) :
    Traces words update (outputStmt arguments) (lowerOutputStmt arguments) linesAll := by
  refine traces_raise (fun o ho ↦ ?_) fun e he ↦ ?_
  · rw [lowerOutputStmt, ho]
    exact traces_plain _
  · rw [lowerOutputStmt, he]

theorem traces_initial (init : Script.ForInit) :
    Traces words update (initial init) (lowerInit init) linesAll := by
  cases init with
  | nothing => exact .nothing
  | «variable» v => exact traces_declare v
  | expr e => exact traces_expr _ id

theorem traces_declareCounter (init : Script.ForInit) :
    Traces words update (declareCounter init) (.ok (declaration init)) linesAll := by
  cases init with
  | nothing | expr => exact .nothing
  | «variable» v => exact traces_plain _

/-! ## Statements with statements inside -/

/-- At the end of a loop, its update is repeated inside the block. -/
theorem does_lastUpdate (change : Option Text) : Does words update (lastUpdate change)
    (within (linesAll (updateCode change))) (.ok ()) := by
  cases change with
  | none => exact .nothing
  | some u => exact Does.block (.emit .plain u)

/-- Before a jump to the next round, the update is repeated where the jump stands. -/
theorem does_repeatUpdate (change : Option Text) : Does words update (repeatUpdate change)
    (linesAll (updateCode change)) (.ok ()) := by
  cases change with
  | none => exact .nothing
  | some u => exact .emit .plain u

theorem does_closeFunction (ends : Bool) : Does words update (closeFunction ends)
    (if ends then [] else [top .functionEnd "Return"]) (.ok ()) := by
  cases ends with
  | true => exact .nothing
  | false => exact .emit .functionEnd "Return"

/-- A loop without a condition has one that always holds. -/
theorem traces_test (condition : Option Script.Expr) {walk : Text → Gen Unit}
    {next : Text → Except Stuck α} {f : α → List Line}
    (h : ∀ t, Traces words update (walk t) (next t) f) :
    Traces words update (do walk (← test condition)) (do next (← lowerTest condition)) f := by
  cases condition with
  | none => exact h _
  | some e => exact traces_text h

theorem traces_change (step : Option Script.Expr) {walk : Option Text → Gen Unit}
    {next : Option Text → Except Stuck α} {f : α → List Line}
    (h : ∀ u, Traces words update (walk u) (next u) f) :
    Traces words update (do walk (← change step)) (do next (← lowerUpdate step)) f := by
  cases step with
  | none => exact h none
  | some e =>
    simp only [change, lowerUpdate, bind_assoc, pure_bind]
    exact traces_text fun t ↦ h (some t)

/-- A `for` loop is walked through if its body is walked through in every loop. -/
theorem traces_forLoop {init : Script.ForInit} {condition step : Option Script.Expr}
    {body : Option Text → Generated} (h : ∀ inner, Traces words inner m (body inner) linesAll) :
    Traces words update (forLoop init condition step m) (lowerFor init condition step body)
      linesAll := by
  have hlooped (u : Option Text) (site : Site) (header : Text) : Traces words update _ _ _ :=
    traces_nested (fun hm ↦ hm.block.inLoop) (h u) site header
  unfold forLoop
  split
  · rename_i c hc
    -- A counting loop: its limit is computed before its counter is declared, its first value behind
    -- that, and its body has no update to repeat.
    refine traces_raise (fun last hlast ↦ ?_) fun e he ↦ ?_
    · rw [lowerFor, hc]
      simp only [hlast]
      refine traces_sequence (traces_declareCounter init) ?_
      refine traces_raise (fun first hfirst ↦ ?_) fun e he ↦ ?_
      · rw [hfirst]
        exact (hlooped none .forHead _).closed (.emit .next "Next")
          (by simp only [bind_assoc]) fun cs ↦ ⟨_, rfl, linesAll_singleton _⟩
      · rw [he]
    · rw [lowerFor, hc]
      simp only [he]
  · rename_i hc
    rw [lowerFor, hc]
    -- Any other loop: what comes first is laid before the test is looked at.
    refine traces_sequence (traces_initial init) ?_
    refine traces_test condition fun t ↦ traces_change step fun u ↦ ?_
    refine (hlooped u .whileHead _).closed ((does_lastUpdate u).followed (.emit .endDo "EndDo"))
      (by simp only [bind_assoc]) fun cs ↦ ⟨_, rfl, ?_⟩
    rw [linesAll_singleton, lines, linesAll_append, within_append, List.cons_append,
      List.append_assoc]
    rfl

end

mutual

/-- **The walk through a statement lays the lines of its code.**  By induction on the tree, in any
loop: the body of a loop is walked through with another update. -/
theorem traces_stmt (s : Script.Stmt) (words : Text) (update : Option Text) :
    Traces words update (stmt s) (lowerStmt words update s) linesAll := by
  cases s with
  | lineComment pos t => exact traces_plain _
  | blockComment pos t => exact traces_plainLines _
  | importFrom pos source specifiers => exact traces_plain _
  | exportDecl pos s names byDefault => exact traces_stmt s words update
  | exportValue pos e names byDefault => exact traces_expr _ _
  | exportNames pos names byDefault => exact traces_plain _
  | «variable» v => exact traces_declare v
  | output pos form as => exact traces_outputStmt as
  | function pos name parameters body =>
    rw [stmt, lowerStmt]
    refine traces_get (fun g hg ↦ by rw [hg.1]) ?_
    refine (traces_nested Does.block (traces_stmts body words update) .functionHead _).closed
      ((does_closeFunction (endsWithReturn body)).followed (.emit .gap []))
      (by simp only [bind_assoc]) fun cs ↦ ⟨_, rfl, ?_⟩
    rw [linesAll_singleton, lines, List.append_assoc]
  | ret pos v =>
    cases v with
    | none => exact traces_emit _ _ _ rfl
    | some e => exact traces_text fun t ↦ traces_emit _ _ _ rfl
  | ifThen pos condition yes =>
    rw [stmt, lowerStmt]
    refine traces_text fun t ↦ ?_
    exact (traces_nested Does.block (traces_stmts yes words update) .ifHead _).closed
      (.emit .endIf "EndIf") (by simp only [bind_assoc]) fun cs ↦ ⟨_, rfl, by
        rw [linesAll_singleton, lines, branchLines, List.append_nil]⟩
  | ifElse pos condition yes no =>
    rw [stmt, lowerStmt]
    refine traces_text fun t ↦ ?_
    exact (traces_armed (traces_stmts yes words update) (traces_otherwise no words update)
      .ifHead _).closed (.emit .endIf "EndIf") (by simp only [bind_assoc])
      fun (cs, rest) ↦ ⟨_, rfl, linesAll_singleton _⟩
  | forLoop pos init condition step body =>
    exact traces_forLoop fun inner ↦ traces_stmts body words inner
  | whileLoop pos condition body =>
    rw [stmt, lowerStmt]
    refine traces_text fun t ↦ ?_
    exact (traces_nested (fun hm ↦ hm.block.inLoop) (traces_stmts body words none)
      .whileHead _).closed (.emit .endDo "EndDo") (by simp only [bind_assoc])
      fun cs ↦ ⟨_, rfl, linesAll_singleton _⟩
  | breakLoop pos => exact traces_plain _
  | continueLoop pos =>
    rw [stmt, lowerStmt]
    refine traces_get (fun g hg ↦ by rw [hg.2]) ?_
    show Does words update _ _ _
    rw [linesAll_append]
    exact (does_repeatUpdate update).followed (.emit .plain "Loop")
  | expr pos e => exact traces_exprStmt e
  | foreign f => exact traces_refused _ _

theorem traces_otherwise (ss : List Script.Stmt) (words : Text) (update : Option Text) :
    Traces words update (otherwise ss) (lowerElse words update ss) branchLines := by
  cases ss with
  | nil => exact Does.headed .elseHead "Else" (.block .nothing)
  | cons s ss =>
    rw [otherwise, lowerElse]
    split
    · exact traces_elseIf s words update
    · have hboth := traces_sequence (traces_stmt s words update) (traces_stmts ss words update)
      exact (traces_nested Does.block hboth .elseHead _).closed .nothing
        (by simp only [bind_pure_unit]) fun cs ↦ ⟨_, rfl, (List.append_nil _).symm⟩

theorem traces_elseIf (s : Script.Stmt) (words : Text) (update : Option Text) :
    Traces words update (elseIf s) (lowerElseIf words update s) branchLines := by
  cases s with
  | ifThen pos condition yes =>
    rw [elseIf, lowerElseIf]
    refine traces_text fun t ↦ ?_
    exact (traces_nested Does.block (traces_stmts yes words update) .elseIfHead _).closed .nothing
      (by simp only [bind_pure_unit]) fun cs ↦ ⟨_, rfl, rfl⟩
  | ifElse pos condition yes no =>
    rw [elseIf, lowerElseIf]
    refine traces_text fun t ↦ ?_
    exact (traces_armed (traces_stmts yes words update) (traces_otherwise no words update)
      .elseIfHead _).closed .nothing (by simp only [bind_pure_unit])
      fun (cs, rest) ↦ ⟨_, rfl, (List.append_nil _).symm⟩
  | _ => exact .nothing

theorem traces_stmts (ss : List Script.Stmt) (words : Text) (update : Option Text) :
    Traces words update (stmts ss) (lowerStmts words update ss) linesAll := by
  cases ss with
  | nil => exact .nothing
  | cons s ss =>
    rw [stmts, lowerStmts]
    exact traces_sequence (traces_stmt s words update) (traces_stmts ss words update)

end

/-! ## Walks and sessions -/

/-- Seen without sites and loops, a walk that belongs to a result of code generation writes what a
session writes of it. -/
theorem Traces.session {words : Text} {update : Option Text} {m : Gen Unit} {r : Generated}
    (h : Traces words update m r linesAll) {g : Generator} (hg : Suits words update g) :
    ((m.on g).2.session, (m.on g).1) = g.session.writeCode r := by
  cases r with
  | ok code =>
    have hlaid := session_lay (linesAll code) g
    rw [map_entry_linesAll] at hlaid
    rw [h g hg, put, finish, bind_pure_unit, hlaid]
    rfl
  | error k =>
    obtain ⟨ls, hls, hm⟩ := h
    have hlaid := session_lay ls g
    rw [hls] at hlaid
    rw [hm g hg, on_put, Session.writeCode]
    simp only [← hlaid]
    rcases (lay ls).on g with ⟨_ | _, g'⟩ <;> rfl

theorem session_stmts (ss : List Script.Stmt) (g : Generator) :
    (((stmts ss).on g).2.session, ((stmts ss).on g).1) =
      g.session.writeCode (g.session.code g.update ss) :=
  (traces_stmts ss _ _).session ⟨rfl, rfl⟩

/-- A block is written one level further in.  If it gets stuck, the generator stays on the level
that it had reached. -/
theorem session_block (body : List Script.Stmt) (g : Generator) :
    (((block (stmts body)).on g).2.session, ((block (stmts body)).on g).1) =
      g.session.block g.update body := by
  let inner : Generator := { g with level := g.level + 1 }
  have hbody : (((stmts body).on inner).2.session, ((stmts body).on inner).1) =
      { g.session with level := g.session.level + 1 : Session }.writeCode
        (g.session.code g.update body) := session_stmts body inner
  have hon : (block (stmts body)).on g = (do stmts body; deepen (-1) : Gen Unit).on inner := rfl
  rw [hon, on_bind, Session.block, Session.writeBlock, ← hbody]
  rcases (stmts body).on inner with ⟨_ | _, g'⟩ <;> rfl

/-- The inside of a loop is written with the update of that loop. -/
theorem session_inLoop (update : Option Text) (body : List Script.Stmt) (g : Generator) :
    (((inLoop update (block (stmts body))).on g).2.session,
      ((inLoop update (block (stmts body))).on g).1) = g.session.block update body :=
  session_block body { g with updates := update :: g.updates }

/-- The lines at the top of a file are laid as those of any code. -/
theorem session_header (g : Generator) :
    ((header.on g).2.session, (header.on g).1) = g.session.header := by
  have hlines : (Target.header g.options.since).map Target.outer =
      Code.entriesAll ((Target.header g.options.since).map .line) := by
    induction Target.header g.options.since with
    | nil => rfl
    | cons t ts ih => rw [List.map_cons, ih]; rfl
  show _ = g.session.write ((Target.header g.options.since).map Target.outer)
  rw [hlines]
  exact (traces_plainLines (Target.header g.options.since)).session ⟨rfl, rfl⟩

/-- The header of a file does not depend on loops and leaves them as they are. -/
theorem grown_header (g : Generator) : Grown g (header.on g).2 := by
  have hdoes : header.on g = (put _ (.ok ())).on g :=
    traces_plainLines (Target.header g.options.since) g ⟨rfl, rfl⟩
  rw [hdoes]
  exact grown_put _ _ g

/-- **A walk through a whole program writes the file that a session writes.** -/
theorem session_file (root : Script.Root) (g : Generator) :
    (((file root).on g).2.session, ((file root).on g).1) = g.session.generate root := by
  cases root with
  | foreign f => rfl
  | program p =>
    let begun : Generator := { g with out := [], level := 0, updates := [] }
    have hheader : ((header.on begun).2.session, (header.on begun).1) =
        { g.session with lines := [], level := 0 : Session }.header := session_header begun
    have hgrown := grown_header begun
    have hon : (file (.program p)).on g = (do
        header
        stmts p.body
        return Target.file ((← get).out.map Prod.snd) : Gen Text).on begun := rfl
    rw [hon, on_bind, Session.generate, ← hheader]
    generalize header.on begun = run at hgrown
    rcases run with ⟨e | ⟨⟩, g'⟩
    · rfl
    · have hnone : g'.update = none := by
        rw [update, hgrown.updates]
        rfl
      have hbody := session_stmts p.body g'
      rw [hnone] at hbody
      dsimp only
      rw [on_bind, ← hbody]
      rcases (stmts p.body).on g' with ⟨e | ⟨⟩, g''⟩ <;> rfl

end Advplc.Lowering.Generator

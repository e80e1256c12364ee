import Advplc.Proofs.Flow.Listing
import Advplc.Proofs.Flow.Source
import Advplc.Proofs.Lowering.Generated
import Advplc.Proofs.Text.Blanks

/-!
# Reading lines of code

Generated code is text, and what a line does to the control flow has to be told from its text.  A
`Reading` does that.  All that is asked of it is that it knows the lines that control the flow as
they are spelled.  What it makes of any other line is left open; `Reading.spelled` takes no other
line for one of them.

Generated code is read as it was meant if the lines that the program runs are read as lines that are
run (`Reading.lines_of_lowered`).  That they are has to be assumed.  Names are written as they are,
so an expression can be spelled like a line that controls the flow, although no other simple
statement can (`Reading.spelled_runs_simple`).
-/

set_option autoImplicit false

namespace Advplc.Flow

open Lowering
open Target (Code Branches Entry)

/-! ## Readings -/

/-- Whether a line controls the flow. -/
def Line.controls : Line → Bool
  | plain _ | function _ => false
  | _ => true

/-- A way to tell from its text what part a line has in the control flow. -/
structure Reading where
  /-- What the line with this text is. -/
  role : Text → Line
  /-- The lines that control the flow are known by their spelling. -/
  role_text (l : Line) (h : l.controls) : role l.text = l

namespace Reading

/-- A listing, read line by line. -/
def lines (r : Reading) (ts : List Text) : List Line := ts.map r.role

/-- A line is read as one that is run. -/
def Runs (r : Reading) (t : Text) : Prop := r.role t = .plain t

instance (r : Reading) (t : Text) : Decidable (r.Runs t) :=
  inferInstanceAs (Decidable (r.role t = .plain t))

/-! ## The reading by spelling -/

/-- The lines that control the flow and consist of one word. -/
def bareLines : List Line := [.ret none, .exit, .loop, .endDo, .next, .orElse, .endIf]

/-- The words that the other lines begin with which control the flow. -/
def openings : List (Text × (Text → Line)) :=
  [("Return ", .ret ∘ some), ("While ", .whileDo), ("For ", .forTo), ("If ", .ifThen),
   ("ElseIf ", .elseIf)]

/-- What the line with a text is by its spelling. -/
def spelledRole (t : Text) : Line :=
  match bareLines.find? (·.text = t), openings.find? (·.1.isPrefixOf t) with
  | some l, _ => l
  | none, some (word, line) => line (t.drop word.length)
  | none, none => .plain t

/-- The reading that takes a line for one that controls the flow if it is spelled like one. -/
def spelled : Reading where
  role := spelledRole
  role_text l h := by
    cases l with
    | plain | function => cases h
    | ret v => cases v <;> rfl
    | _ => rfl

/-- By its spelling, a line that begins with a blank is one that is run. -/
theorem spelled_runs_of_prefix {t rest : Text} (h : t <+: " " ++ rest) : spelled.Runs t := by
  cases t with
  | nil => rfl
  | cons c t =>
    obtain rfl : c = .scalar ' ' := (List.cons_prefix_cons.mp h).1
    rfl

theorem spelled_runs_blockComment (text : Text) :
    ∀ t ∈ blockCommentLines text, spelled.Runs t := by
  intro t ht
  rw [blockCommentLines] at ht
  split at ht
  · obtain rfl := List.mem_singleton.mp ht
    rfl
  · simp only [List.cons_append, List.mem_cons, List.mem_append, List.mem_map, List.not_mem_nil,
      or_false] at ht
    obtain rfl | ⟨line, -, rfl⟩ | rfl := ht
    · rfl
    · exact spelled_runs_of_prefix (Text.isPrefix_trimRight (" * " ++ line))
    · rfl

/-- By their spelling, the lines of a simple statement are lines that are run, except that an
expression may be spelled like anything. -/
theorem spelled_runs_simple {s : Script.Stmt} (h : ∀ p e, s ≠ .expr p e) :
    ∀ t ∈ simpleLines s, spelled.Runs t := by
  intro t ht
  cases s with
  | blockComment pos text => exact spelled_runs_blockComment text t ht
  | expr p e => exact absurd rfl (h p e)
  | lineComment pos text =>
    obtain rfl := List.mem_singleton.mp ht
    rw [lineCommentText]
    split <;> rfl
  | importFrom | exportValue | exportNames | output =>
    obtain rfl := List.mem_singleton.mp ht
    rfl
  | «variable» v =>
    obtain rfl := List.mem_singleton.mp ht
    cases v.value <;> rfl
  | _ => cases ht

/-! ## Lines that are read as they were meant -/

/-- The lines are what they are read as. -/
def Knows (r : Reading) (ls : List Line) : Prop := ∀ l ∈ ls, r.role l.text = l

variable {r : Reading}

theorem Knows.lines_eq {ls : List Line} (h : r.Knows ls) : r.lines (ls.map Line.text) = ls := by
  rw [lines, List.map_map]
  exact (List.map_congr_left h).trans (List.map_id ls)

theorem knows_append {ls ls' : List Line} :
    r.Knows (ls ++ ls') ↔ r.Knows ls ∧ r.Knows ls' := List.forall_mem_append

theorem knows_cons {l : Line} (h : l.controls) {ls : List Line} :
    r.Knows (l :: ls) ↔ r.Knows ls := by
  rw [Knows, List.forall_mem_cons]
  exact and_iff_right (r.role_text l h)

theorem knows_plain {ts : List Text} (h : ∀ t ∈ ts, r.Runs t) : r.Knows (ts.map .plain) :=
  List.forall_mem_map.mpr h

theorem knows_control {l : Line} (h : l.controls) : r.Knows [l] := (knows_cons h).mpr nofun

/-- A block is known if what stands in it is. -/
theorem knows_block {first last : Line} (hfirst : first.controls) (hlast : last.controls)
    {ls : List Line} : r.Knows (first :: (ls ++ [last])) ↔ r.Knows ls := by
  rw [knows_cons hfirst, knows_append]
  exact and_iff_left (knows_control hlast)

theorem knows_while {t : Text} {cs : List Code} :
    r.Knows (linesOf [.whileLoop t cs]) ↔ r.Knows (linesOf cs) := by
  rw [linesOf, linesOf, List.append_nil]
  exact knows_block rfl rfl

theorem knows_counting {header : Text} {cs : List Code} :
    r.Knows (linesOf [.forLoop header cs]) ↔ r.Knows (linesOf cs) := by
  rw [linesOf, linesOf, List.append_nil]
  exact knows_block rfl rfl

theorem knows_branch {t : Text} {cs : List Code} {bs : Branches} :
    r.Knows (linesOf [.branch t cs bs]) ↔ r.Knows (linesOf cs) ∧ r.Knows (branchLines bs) := by
  rw [linesOf, linesOf, List.append_nil, codeLines, ← List.append_assoc, knows_block rfl rfl,
    knows_append]

theorem knows_update {update : Option Text} (h : ∀ u ∈ update, r.Runs u) :
    r.Knows (linesOf (updateCode update)) := by
  rw [updateCode, linesOf_map_line]
  exact knows_plain fun u hu ↦ h u (Option.mem_toList.mp hu)

variable {words : Text} {update : Option Text} {inLoop : Bool}

/-- A loop is read as it was meant if its body is. -/
theorem knows_for {init : Script.ForInit} {test change : Option Script.Expr}
    {body : Option Text → Generated} {code : List Code}
    (h : lowerFor init test change body = .ok code)
    (hlines : ∀ t ∈ forLines init test change, r.Runs t)
    (hbody : ∀ {inner : Option Text} {cs : List Code}, body inner = .ok cs →
      (∀ u ∈ inner, r.Runs u) → r.Knows (linesOf cs)) : r.Knows (linesOf code) := by
  rw [forLines] at hlines
  cases hc : Counting.ofLoop? init test change with
  | some c =>
    obtain ⟨first, last, cs, -, -, hcs, rfl⟩ := lowerFor_counting_eq_ok hc h
    rw [hc] at hlines
    rw [writes_declaration init _ rfl, linesOf_append, linesOf_map_line, knows_append]
    exact ⟨knows_plain hlines, knows_counting.mpr (hbody hcs nofun)⟩
  | none =>
    obtain ⟨ds, t, u, cs, hds, -, hu, hcs, rfl⟩ := lowerFor_general_eq_ok hc h
    rw [hc, List.forall_mem_append, actionText_of_update hu] at hlines
    have hupdate : ∀ u' ∈ u, r.Runs u' := fun u' hu' ↦ hlines.2 u' (Option.mem_toList.mpr hu')
    rw [writes_init init _ hds, linesOf_append, linesOf_map_line, knows_append]
    refine ⟨knows_plain hlines.1, knows_while.mpr ?_⟩
    rw [linesOf_append, knows_append]
    exact ⟨hbody hcs hupdate, knows_update hupdate⟩

mutual

/-- The code of a statement is read as it was meant if the lines that it runs are, and the update of
the loop around it. -/
theorem knows_stmt (s : Script.Stmt) {update : Option Text} {inLoop : Bool} {code : List Code}
    (h : lowerStmt words update s = .ok code) (hs : wellPlaced inLoop s)
    (hupdate : ∀ u ∈ update, r.Runs u) (hlines : ∀ t ∈ linesWithin s, r.Runs t) :
    r.Knows (linesOf code) := by
  cases s with
  | lineComment | blockComment | importFrom | exportValue | exportNames | «variable» | output
  | expr =>
    rw [writes_simple rfl code h, linesOf_map_line]
    exact knows_plain hlines
  | exportDecl pos s names byDefault => exact knows_stmt s h hs hupdate hlines
  | function | foreign => cases hs
  | ret pos v =>
    cases v with
    | none =>
      cases h
      exact knows_control rfl
    | some e =>
      obtain ⟨t, -, h⟩ := bind_eq_ok h
      cases h
      exact knows_control rfl
  | ifThen pos test yes =>
    obtain ⟨t, cs, -, hcs, rfl⟩ := lowerIfThen_eq_ok h
    exact knows_branch.mpr ⟨knows_stmts yes hcs hs hupdate hlines, nofun⟩
  | ifElse pos test yes no =>
    obtain ⟨t, cs, bs, -, hcs, hbs, rfl⟩ := lowerIfElse_eq_ok h
    rw [wellPlaced, Bool.and_eq_true] at hs
    rw [linesWithin, List.forall_mem_append] at hlines
    refine knows_branch.mpr ⟨knows_stmts yes hcs hs.1 hupdate hlines.1, ?_⟩
    obtain ⟨ds, hds, rfl⟩ | ⟨t, ds, rest, hds, rfl⟩ := lowerElse_eq_ok hbs
    · exact (knows_cons rfl).mpr (knows_stmts no hds hs.2 hupdate hlines.2)
    · -- Behind `else` stands an `If`, whose lines are those of the branches but for the first.
      exact (knows_cons rfl).mpr (knows_append.mpr
        (knows_branch.mp (knows_stmts no hds hs.2 hupdate hlines.2)))
  | forLoop pos init test change body =>
    rw [linesWithin, List.forall_mem_append] at hlines
    exact knows_for h hlines.1 fun hcs hinner ↦ knows_stmts body hcs hs hinner hlines.2
  | whileLoop pos test body =>
    obtain ⟨t, cs, -, hcs, rfl⟩ := lowerWhile_eq_ok h
    exact knows_while.mpr (knows_stmts body hcs hs nofun hlines)
  | breakLoop pos =>
    cases h
    exact knows_control rfl
  | continueLoop pos =>
    cases h
    rw [linesOf_append, knows_append]
    exact ⟨knows_update hupdate, knows_control rfl⟩

theorem knows_stmts (ss : List Script.Stmt) {update : Option Text} {inLoop : Bool}
    {code : List Code} (h : lowerStmts words update ss = .ok code) (hss : allWellPlaced inLoop ss)
    (hupdate : ∀ u ∈ update, r.Runs u) (hlines : ∀ t ∈ linesWithinAll ss, r.Runs t) :
    r.Knows (linesOf code) := by
  cases ss with
  | nil =>
    cases h
    exact nofun
  | cons s ss =>
    obtain ⟨cs, ds, hcs, hds, rfl⟩ := lowerStmts_cons_eq_ok h
    rw [allWellPlaced, Bool.and_eq_true] at hss
    rw [linesWithinAll, List.forall_mem_append] at hlines
    rw [linesOf_append, knows_append]
    exact ⟨knows_stmt s hcs hss.1 hupdate hlines.1, knows_stmts ss hds hss.2 hupdate hlines.2⟩

end

/-- **Generated code is read as it was meant** if the lines of the program are read as lines that
are run. -/
theorem lines_of_lowered {ss : List Script.Stmt} {code : List Code}
    (h : lowerStmts words none ss = .ok code) (hss : allWellPlaced inLoop ss)
    (hlines : ∀ t ∈ linesWithinAll ss, r.Runs t) :
    r.lines ((Code.entriesAll code).map Entry.text) = linesOf code := by
  rw [← text_linesOf]
  exact (knows_stmts ss h hss nofun hlines).lines_eq

end Reading

end Advplc.Flow

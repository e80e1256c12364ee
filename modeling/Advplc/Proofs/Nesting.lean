import Advplc.Proofs.Lowering.Generated
import Advplc.Proofs.Lowering.Traces

/-!
# Generated blocks are nested well

`Laid d s ls` says that the lines `ls` are the statement `s` laid out at depth `d`: a statement
without a block is lines at that depth; every block is opened by its header and closed by its own
word, both at that depth, and what stands in it is laid out one level deeper.  An `If` is closed
once however many branches it has, and the last line of a function before the gap behind it is a
`Return`.

`Generator.stmt_nested` is the main result: whatever a generator has written and whatever loops it
is in, walking through a statement at level `d` either adds the statement laid out at depth `d`, and
the level is `d` again, or fails; and in either case the loops are those that it was in before, and
what it had written is still there.  It is proved for the walk, and for what sessions write of a
statement, which is the same.
-/

set_option autoImplicit false

namespace Advplc.Lowering.Generator

open Target (Code Branches Options)

/-! ## Statements laid out -/

/-- Whether a statement has no block, and is not a `return`. -/
def isFlat : Script.Stmt → Bool
  | .lineComment _ _ | .blockComment _ _ | .importFrom _ _ _ | .exportValue _ _ _ _
  | .exportNames _ _ _ | .variable _ | .output _ _ _ | .breakLoop _ | .continueLoop _
  | .expr _ _ => true
  | _ => false

/-- Lines at depth `d` that belong to a statement without a block. -/
def Flat (d : Nat) (ls : List Line) : Prop := ∀ l ∈ ls, l.site = .plain ∧ l.depth = d

mutual

/-- The lines of a statement at a depth. -/
inductive Laid : Nat → Script.Stmt → List Line → Prop where
  | flat {d : Nat} {s : Script.Stmt} {ls : List Line} (hs : isFlat s = true) (hls : Flat d ls) :
      Laid d s ls
  | ret {d : Nat} {pos : Option Pos} {v : Option Script.Expr} {t : Text} (ht : "Return" <+: t) :
      Laid d (.ret pos v) [⟨.ret, d, t⟩]
  | exportDecl {d : Nat} {pos : Option Pos} {s : Script.Stmt} {names : List Lexeme}
      {byDefault : Bool} {ls : List Line} (h : Laid d s ls) :
      Laid d (.exportDecl pos s names byDefault) ls
  /-- A function whose body does not end with a `return`. -/
  | function {d : Nat} {pos : Option Pos} {name : Lexeme} {parameters : List Lexeme}
      {body : List Script.Stmt} {header : Text} {ls : List Line} (hends : ¬endsWithReturn body)
      (hbody : LaidAll (d + 1) body ls) :
      Laid d (.function pos name parameters body)
        (⟨.functionHead, d, header⟩ :: ls ++ [⟨.functionEnd, d, "Return"⟩, ⟨.gap, d, []⟩])
  /-- A function whose body ends with a `return`. -/
  | returning {d : Nat} {pos : Option Pos} {name : Lexeme} {parameters : List Lexeme}
      {body : List Script.Stmt} {header t : Text} {ls : List Line} (hends : endsWithReturn body)
      (hbody : LaidAll (d + 1) body (ls ++ [⟨.ret, d + 1, t⟩])) (ht : "Return" <+: t) :
      Laid d (.function pos name parameters body)
        (⟨.functionHead, d, header⟩ :: ls ++ [⟨.ret, d + 1, t⟩, ⟨.gap, d, []⟩])
  | ifThen {d : Nat} {pos : Option Pos} {test : Script.Expr} {yes : List Script.Stmt} {t : Text}
      {ls : List Line} (hyes : LaidAll (d + 1) yes ls) :
      Laid d (.ifThen pos test yes) (⟨.ifHead, d, "If " ++ t⟩ :: ls ++ [⟨.endIf, d, "EndIf"⟩])
  | ifElse {d : Nat} {pos : Option Pos} {test : Script.Expr} {yes no : List Script.Stmt} {t : Text}
      {ls rest : List Line} (hyes : LaidAll (d + 1) yes ls) (hno : LaidElse d no rest) :
      Laid d (.ifElse pos test yes no)
        (⟨.ifHead, d, "If " ++ t⟩ :: ls ++ rest ++ [⟨.endIf, d, "EndIf"⟩])
  /-- A loop that counts. -/
  | forLoop {d : Nat} {pos : Option Pos} {init : Script.ForInit} {test step : Option Script.Expr}
      {body : List Script.Stmt} {t : Text} {first ls : List Line}
      (hcounts : (Counting.ofLoop? init test step).isSome) (hfirst : Flat d first)
      (hbody : LaidAll (d + 1) body ls) :
      Laid d (.forLoop pos init test step body)
        (first ++ ⟨.forHead, d, "For " ++ t⟩ :: ls ++ [⟨.next, d, "Next"⟩])
  /-- A `for` loop that does not count. -/
  | generalLoop {d : Nat} {pos : Option Pos} {init : Script.ForInit}
      {test step : Option Script.Expr} {body : List Script.Stmt} {t : Text}
      {first ls last : List Line} (hcounts : (Counting.ofLoop? init test step).isNone)
      (hfirst : Flat d first) (hbody : LaidAll (d + 1) body ls) (hlast : Flat (d + 1) last) :
      Laid d (.forLoop pos init test step body)
        (first ++ ⟨.whileHead, d, "While " ++ t⟩ :: ls ++ last ++ [⟨.endDo, d, "EndDo"⟩])
  | whileLoop {d : Nat} {pos : Option Pos} {test : Script.Expr} {body : List Script.Stmt} {t : Text}
      {ls : List Line} (hbody : LaidAll (d + 1) body ls) :
      Laid d (.whileLoop pos test body)
        (⟨.whileHead, d, "While " ++ t⟩ :: ls ++ [⟨.endDo, d, "EndDo"⟩])

/-- The lines of what stands behind `else`: one `ElseIf` for every `if` that stands there alone, and
one `Else` for anything else. -/
inductive LaidElse : Nat → List Script.Stmt → List Line → Prop where
  | elseIf {d : Nat} {pos : Option Pos} {test : Script.Expr} {yes : List Script.Stmt} {t : Text}
      {ls : List Line} (hyes : LaidAll (d + 1) yes ls) :
      LaidElse d [.ifThen pos test yes] (⟨.elseIfHead, d, "ElseIf " ++ t⟩ :: ls)
  | elseIfElse {d : Nat} {pos : Option Pos} {test : Script.Expr} {yes no : List Script.Stmt}
      {t : Text} {ls rest : List Line} (hyes : LaidAll (d + 1) yes ls)
      (hno : LaidElse d no rest) :
      LaidElse d [.ifElse pos test yes no] (⟨.elseIfHead, d, "ElseIf " ++ t⟩ :: ls ++ rest)
  | otherwise {d : Nat} {ss : List Script.Stmt} {ls : List Line}
      (hss : ∀ s, ss = [s] → s.isIf = false) (hls : LaidAll (d + 1) ss ls) :
      LaidElse d ss (⟨.elseHead, d, "Else"⟩ :: ls)

/-- The lines of statements, one after the other. -/
inductive LaidAll : Nat → List Script.Stmt → List Line → Prop where
  | nil {d : Nat} : LaidAll d [] []
  | cons {d : Nat} {s : Script.Stmt} {ss : List Script.Stmt} {ls ls' : List Line}
      (hs : Laid d s ls) (hss : LaidAll d ss ls') : LaidAll d (s :: ss) (ls ++ ls')

end

/-! ## The code of a statement -/

theorem map_below_within (d : Nat) (ls : List Line) :
    (within ls).map (Line.below d) = ls.map (Line.below (d + 1)) := by
  simp only [within, List.map_map, Function.comp_def, Line.below_below]

theorem below_top (d : Nat) (site : Site) (t : Text) : (top site t).below d = ⟨site, d, t⟩ := rfl

theorem flat_append {d : Nat} {ls ls' : List Line} (h : Flat d ls) (h' : Flat d ls') :
    Flat d (ls ++ ls') := List.forall_mem_append.mpr ⟨h, h'⟩

theorem flat_lines (d : Nat) (ts : List Text) :
    Flat d ((linesAll (ts.map .line)).map (Line.below d)) := by
  induction ts with
  | nil => exact nofun
  | cons t ts ih => exact List.forall_mem_cons.mpr ⟨⟨rfl, rfl⟩, ih⟩

/-- Code of lines only is flat at every depth. -/
theorem flat_of_writes {r : Generated} {ts : List Text} (h : Writes r ts) {code : List Code}
    (hr : r = .ok code) (d : Nat) : Flat d ((linesAll code).map (Line.below d)) := by
  rw [h code hr]
  exact flat_lines d ts

/-- What ends with a `return` has a `Return` as its last line. -/
theorem LaidAll.ends {d : Nat} {ss : List Script.Stmt} {ls : List Line} (h : LaidAll d ss ls)
    (hends : endsWithReturn ss) : ∃ ls' t, ls = ls' ++ [⟨.ret, d, t⟩] ∧ "Return" <+: t := by
  induction ss generalizing ls with
  | nil => cases hends
  | cons s ss ih =>
    cases h with
    | cons hs hss =>
      cases ss with
      | nil =>
        cases hss
        cases hs with
        | ret ht => exact ⟨[], _, rfl, ht⟩
        | flat hflat =>
          cases s with
          | ret => cases hflat
          | _ => cases hends
        | _ => cases hends
      | cons s' ss =>
        obtain ⟨ls', t, rfl, ht⟩ := ih hss hends
        exact ⟨_, t, (List.append_assoc _ _ _).symm, ht⟩

variable {words : Text}

mutual

/-- The lines of the code of a statement are the statement laid out. -/
theorem laid_stmt (s : Script.Stmt) {update : Option Text} {code : List Code}
    (h : lowerStmt words update s = .ok code) (d : Nat) :
    Laid d s ((linesAll code).map (Line.below d)) := by
  cases s with
  | lineComment | blockComment | importFrom | exportValue | exportNames | «variable» | output
  | expr => exact .flat rfl (flat_of_writes (writes_simple rfl) h d)
  | exportDecl pos s names byDefault => exact .exportDecl (laid_stmt s h d)
  | breakLoop =>
    cases h
    exact .flat rfl (flat_lines d ["Exit"])
  | continueLoop pos =>
    cases h
    refine .flat rfl ?_
    rw [linesAll_append, List.map_append]
    exact flat_append (flat_lines d _) (List.forall_mem_cons.mpr ⟨⟨rfl, rfl⟩, nofun⟩)
  | ret pos v =>
    cases v with
    | none =>
      cases h
      exact .ret List.prefix_rfl
    | some e =>
      obtain ⟨t, -, h⟩ := bind_eq_ok h
      cases h
      exact .ret (List.prefix_append _ _)
  | function pos name parameters body =>
    rw [lowerStmt] at h
    obtain ⟨cs, hcs, h⟩ := bind_eq_ok h
    cases h
    have hbody := laid_stmts body (nested_eq_ok hcs) (d + 1)
    simp only [linesAll_singleton, lines, List.map_append, List.map_cons, map_below_within,
      below_top, List.map_nil, List.append_assoc]
    by_cases hends : endsWithReturn body
    · obtain ⟨ls, t, hls, ht⟩ := hbody.ends hends
      rw [if_pos hends, hls]
      rw [hls] at hbody
      simpa using Laid.returning hends hbody ht
    · rw [if_neg hends]
      exact .function hends hbody
  | ifThen pos test yes =>
    obtain ⟨t, cs, -, hcs, rfl⟩ := lowerIfThen_eq_ok h
    simp only [linesAll_singleton, lines, branchLines, List.append_nil, List.map_append,
      List.map_cons, map_below_within, below_top]
    exact .ifThen (laid_stmts yes hcs (d + 1))
  | ifElse pos test yes no =>
    obtain ⟨t, cs, bs, -, hcs, hbs, rfl⟩ := lowerIfElse_eq_ok h
    simp only [linesAll_singleton, lines, List.map_append, List.map_cons, map_below_within,
      below_top]
    exact .ifElse (laid_stmts yes hcs (d + 1)) (laid_otherwise no hbs d)
  | forLoop pos init test step body =>
    rw [lowerStmt] at h
    cases hcounts : Counting.ofLoop? init test step with
    | some c =>
      obtain ⟨first, last, cs, -, -, hcs, rfl⟩ := lowerFor_counting_eq_ok hcounts h
      simp only [linesAll_append, linesAll_singleton, lines, List.map_append, List.map_cons,
        map_below_within, below_top]
      rw [← List.append_assoc]
      exact .forLoop (by rw [hcounts]; rfl) (flat_of_writes (writes_declaration init) rfl d)
        (laid_stmts body hcs (d + 1))
    | none =>
      obtain ⟨ds, t, u, cs, hds, -, -, hcs, rfl⟩ := lowerFor_general_eq_ok hcounts h
      simp only [linesAll_append, linesAll_singleton, lines, List.map_append, List.map_cons,
        within_append, map_below_within, below_top]
      rw [← List.append_assoc, ← List.cons_append, ← List.append_assoc]
      exact .generalLoop (by rw [hcounts]; rfl) (flat_of_writes (writes_init init) hds d)
        (laid_stmts body hcs (d + 1)) (flat_lines (d + 1) u.toList)
  | whileLoop pos test body =>
    obtain ⟨t, cs, -, hcs, rfl⟩ := lowerWhile_eq_ok h
    simp only [linesAll_singleton, lines, List.map_append, List.map_cons, map_below_within,
      below_top]
    exact .whileLoop (laid_stmts body hcs (d + 1))
  | foreign f => cases h

theorem laid_otherwise (ss : List Script.Stmt) {update : Option Text} {bs : Branches}
    (h : lowerElse words update ss = .ok bs) (d : Nat) :
    LaidElse d ss ((branchLines bs).map (Line.below d)) := by
  cases ss with
  | nil =>
    cases h
    exact .otherwise nofun .nil
  | cons s ss =>
    rw [lowerElse] at h
    split at h
    · rename_i hone
      rw [List.isEmpty_iff.mp hone.2]
      exact laid_elseIf s hone.1 h d
    · rename_i hseveral
      obtain ⟨cs, hcs, h⟩ := bind_eq_ok h
      cases h
      have hall : lowerStmts words update (s :: ss) = .ok cs := by
        rw [lowerStmts]
        exact nested_eq_ok hcs
      obtain ⟨cs', ds, hcs', hds, rfl⟩ := lowerStmts_cons_eq_ok hall
      simp only [branchLines, linesAll_append, List.map_cons, map_below_within, below_top,
        List.map_append]
      refine .otherwise ?_ (.cons (laid_stmt s hcs' (d + 1)) (laid_stmts ss hds (d + 1)))
      rintro _ ⟨⟩
      simpa using hseveral

theorem laid_elseIf (s : Script.Stmt) (hs : s.isIf) {update : Option Text} {bs : Branches}
    (h : lowerElseIf words update s = .ok bs) (d : Nat) :
    LaidElse d [s] ((branchLines bs).map (Line.below d)) := by
  cases s with
  | ifThen pos test yes =>
    rw [lowerElseIf] at h
    obtain ⟨t, ht, h⟩ := bind_eq_ok h
    obtain ⟨cs, hcs, h⟩ := bind_eq_ok h
    cases h
    simp only [branchLines, List.append_nil, List.map_cons, map_below_within, below_top]
    exact .elseIf (laid_stmts yes (nested_eq_ok hcs) (d + 1))
  | ifElse pos test yes no =>
    rw [lowerElseIf] at h
    obtain ⟨t, ht, h⟩ := bind_eq_ok h
    obtain ⟨⟨cs, bs⟩, harms, h⟩ := bind_eq_ok h
    obtain ⟨hcs, hbs⟩ := armed_eq_ok harms
    cases h
    simp only [branchLines, List.map_append, List.map_cons, map_below_within, below_top]
    exact .elseIfElse (laid_stmts yes hcs (d + 1)) (laid_otherwise no hbs d)
  | _ => cases hs

theorem laid_stmts (ss : List Script.Stmt) {update : Option Text} {code : List Code}
    (h : lowerStmts words update ss = .ok code) (d : Nat) :
    LaidAll d ss ((linesAll code).map (Line.below d)) := by
  cases ss with
  | nil =>
    cases h
    exact .nil
  | cons s ss =>
    obtain ⟨cs, ds, hcs, hds, rfl⟩ := lowerStmts_cons_eq_ok h
    rw [linesAll_append, List.map_append]
    exact .cons (laid_stmt s hcs d) (laid_stmts ss hds d)

end

/-! ## The walk -/

end Advplc.Lowering.Generator

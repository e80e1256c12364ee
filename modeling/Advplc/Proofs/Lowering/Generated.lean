import Advplc.Lowering.Stmt
import Advplc.Proofs.Lowering.Wording

/-!
# What generated code consists of

If code is generated for a statement, then code was generated for everything in it, and the code of
the whole is put together from these parts.  There is one theorem for each way to put code together
and one for each statement with statements inside.

For a simple statement the parts are texts.  `Wording` says which these are without asking whether
anything is refused; here it is shown that they are the lines that were generated, if any were
(`writes_simple`).  Nothing is said of what is refused, which is `Refusal`'s subject.
-/

set_option autoImplicit false

namespace Advplc.Lowering

open Target (Code Branches)

/-! ## Putting code together -/

theorem bind_eq_ok {α β : Type} {x : Except Stuck α} {f : α → Except Stuck β} {b : β}
    (h : (x >>= f) = .ok b) : ∃ a, x = .ok a ∧ f a = .ok b := by
  cases x with
  | error s => cases h
  | ok a => exact ⟨a, rfl, h⟩

theorem sequence_eq_ok {first second : Generated} {code : List Code}
    (h : sequence first second = .ok code) :
    ∃ cs ds, first = .ok cs ∧ second = .ok ds ∧ code = cs ++ ds := by
  cases first with
  | error s => cases h
  | ok cs =>
    cases second with
    | error s => cases h
    | ok ds =>
      cases h
      exact ⟨cs, ds, rfl, rfl, rfl⟩

/-- The header of a block is only kept for what is left of the block if it gets stuck. -/
theorem nested_eq_ok {header : Text} {body : Generated} {code : List Code}
    (h : nested header body = .ok code) : body = .ok code := by
  cases body with
  | error s => cases h
  | ok cs => exact h

theorem armed_eq_ok {α : Type} {header : Text} {yes : Generated} {rest : Except Stuck α}
    {cs : List Code} {a : α} (h : armed header yes rest = .ok (cs, a)) :
    yes = .ok cs ∧ rest = .ok a := by
  cases yes with
  | error s => cases h
  | ok cs' =>
    cases rest with
    | error s => cases h
    | ok a' =>
      cases h
      exact ⟨rfl, rfl⟩

/-! ## Statements with statements inside -/

variable {words : Text} {update : Option Text}

/-- The code of statements is the code of each, one behind the other. -/
theorem lowerStmts_cons_eq_ok {s : Script.Stmt} {ss : List Script.Stmt} {code : List Code}
    (h : lowerStmts words update (s :: ss) = .ok code) :
    ∃ cs ds, lowerStmt words update s = .ok cs ∧ lowerStmts words update ss = .ok ds ∧
      code = cs ++ ds := by
  rw [lowerStmts] at h
  exact sequence_eq_ok h

theorem lowerIfThen_eq_ok {pos : Option Pos} {test : Script.Expr} {yes : List Script.Stmt}
    {code : List Code} (h : lowerStmt words update (.ifThen pos test yes) = .ok code) :
    ∃ t cs, value (lower test) = .ok t ∧ lowerStmts words update yes = .ok cs ∧
      code = [.branch t cs .done] := by
  rw [lowerStmt] at h
  obtain ⟨t, ht, h⟩ := bind_eq_ok h
  obtain ⟨cs, hcs, h⟩ := bind_eq_ok h
  cases h
  exact ⟨t, cs, ht, nested_eq_ok hcs, rfl⟩

theorem lowerIfElse_eq_ok {pos : Option Pos} {test : Script.Expr} {yes no : List Script.Stmt}
    {code : List Code} (h : lowerStmt words update (.ifElse pos test yes no) = .ok code) :
    ∃ t cs bs, value (lower test) = .ok t ∧ lowerStmts words update yes = .ok cs ∧
      lowerElse words update no = .ok bs ∧ code = [.branch t cs bs] := by
  rw [lowerStmt] at h
  obtain ⟨t, ht, h⟩ := bind_eq_ok h
  obtain ⟨⟨cs, bs⟩, harms, h⟩ := bind_eq_ok h
  obtain ⟨hcs, hbs⟩ := armed_eq_ok harms
  cases h
  exact ⟨t, cs, bs, ht, hcs, hbs, rfl⟩

/-- An `if` behind `else` becomes the branches that it would become on its own. -/
theorem lowerElseIf_eq_ok {s : Script.Stmt} (hif : s.isIf) {bs : Branches}
    (h : lowerElseIf words update s = .ok bs) :
    ∃ t cs rest, bs = .elseIf t cs rest ∧ lowerStmt words update s = .ok [.branch t cs rest] := by
  cases s with
  | ifThen pos test yes =>
    rw [lowerElseIf] at h
    obtain ⟨t, ht, h⟩ := bind_eq_ok h
    obtain ⟨cs, hcs, h⟩ := bind_eq_ok h
    cases h
    refine ⟨t, cs, .done, rfl, ?_⟩
    rw [lowerStmt, ht, nested_eq_ok hcs]
    rfl
  | ifElse pos test yes no =>
    rw [lowerElseIf] at h
    obtain ⟨t, ht, h⟩ := bind_eq_ok h
    obtain ⟨⟨cs, bs⟩, harms, h⟩ := bind_eq_ok h
    obtain ⟨hcs, hbs⟩ := armed_eq_ok harms
    cases h
    refine ⟨t, cs, bs, rfl, ?_⟩
    rw [lowerStmt, ht, hcs, hbs]
    rfl
  | _ => cases hif

/-- What stands behind `else` becomes either the code of an `Else`, or further branches if it is
one `if`. -/
theorem lowerElse_eq_ok {ss : List Script.Stmt} {bs : Branches}
    (h : lowerElse words update ss = .ok bs) :
    (∃ cs, lowerStmts words update ss = .ok cs ∧ bs = .otherwise cs) ∨
      ∃ t cs rest, lowerStmts words update ss = .ok [.branch t cs rest] ∧
        bs = .elseIf t cs rest := by
  cases ss with
  | nil =>
    cases h
    exact .inl ⟨[], rfl, rfl⟩
  | cons s ss =>
    rw [lowerElse] at h
    split at h
    · rename_i hone
      obtain ⟨t, cs, rest, rfl, hs⟩ := lowerElseIf_eq_ok hone.1 h
      refine .inr ⟨t, cs, rest, ?_, rfl⟩
      -- Nothing stands behind the `if`, so its branches are the whole.
      rw [List.isEmpty_iff.mp hone.2, lowerStmts, hs]
      rfl
    · obtain ⟨cs, hcs, h⟩ := bind_eq_ok h
      cases h
      refine .inl ⟨cs, ?_, rfl⟩
      rw [lowerStmts]
      exact nested_eq_ok hcs

/-- The body of a `while` loop has no update that a `continue` would repeat. -/
theorem lowerWhile_eq_ok {pos : Option Pos} {test : Script.Expr} {body : List Script.Stmt}
    {code : List Code} (h : lowerStmt words update (.whileLoop pos test body) = .ok code) :
    ∃ t cs, value (lower test) = .ok t ∧ lowerStmts words none body = .ok cs ∧
      code = [.whileLoop t cs] := by
  rw [lowerStmt] at h
  obtain ⟨t, ht, h⟩ := bind_eq_ok h
  obtain ⟨cs, hcs, h⟩ := bind_eq_ok h
  cases h
  exact ⟨t, cs, ht, nested_eq_ok hcs, rfl⟩

/-- A `for` loop that counts becomes a `For`, in whose body there is no update. -/
theorem lowerFor_counting_eq_ok {init : Script.ForInit} {test change : Option Script.Expr}
    {body : Option Text → Generated} {c : Counting} {code : List Code}
    (hc : Counting.ofLoop? init test change = some c)
    (h : lowerFor init test change body = .ok code) :
    ∃ first last cs, lower c.start = .ok first ∧ c.limit = .ok last ∧ body none = .ok cs ∧
      code = declaration init ++ [.forLoop (c.header first last) cs] := by
  rw [lowerFor, hc] at h
  cases hlast : c.limit with
  | error e => simp only [hlast] at h; cases h
  | ok last =>
    simp only [hlast] at h
    obtain ⟨ds, es, hds, hes, rfl⟩ := sequence_eq_ok h
    cases hds
    cases hfirst : lower c.start with
    | error e => simp only [hfirst] at hes; cases hes
    | ok first =>
      simp only [hfirst] at hes
      obtain ⟨cs, hcs, hes⟩ := bind_eq_ok hes
      cases hes
      exact ⟨first, last, cs, rfl, rfl, nested_eq_ok hcs, rfl⟩

/-- Any other `for` loop becomes a `While`, with the update at the end of its body. -/
theorem lowerFor_general_eq_ok {init : Script.ForInit} {test change : Option Script.Expr}
    {body : Option Text → Generated} {code : List Code}
    (hc : Counting.ofLoop? init test change = none)
    (h : lowerFor init test change body = .ok code) :
    ∃ ds t u cs, lowerInit init = .ok ds ∧ lowerTest test = .ok t ∧ lowerUpdate change = .ok u ∧
      body u = .ok cs ∧ code = ds ++ [.whileLoop t (cs ++ updateCode u)] := by
  rw [lowerFor, hc] at h
  obtain ⟨ds, es, hds, hes, rfl⟩ := sequence_eq_ok h
  obtain ⟨t, ht, hes⟩ := bind_eq_ok hes
  obtain ⟨u, hu, hes⟩ := bind_eq_ok hes
  obtain ⟨cs, hcs, hes⟩ := bind_eq_ok hes
  cases hes
  exact ⟨ds, t, u, cs, hds, ht, hu, nested_eq_ok hcs, rfl⟩

/-! ## Statements without statements inside -/

/-- If code is generated, it consists of these lines. -/
def Writes (r : Generated) (ts : List Text) : Prop := ∀ code, r = .ok code → code = ts.map .line

theorem writes_lines (ts : List Text) : Writes (.ok (ts.map .line)) ts := by
  rintro _ ⟨⟩
  rfl

/-- The text of a value is the text that was generated for it. -/
theorem valueText_of_ok {e : Script.Expr} {t : Text} (h : value (lower e) = .ok t) :
    valueText e = t := by
  rw [valueText]
  cases he : lower e with
  | error err => rw [he] at h; cases h
  | ok x => rw [he] at h; cases h; rfl

theorem actionText_of_ok {e : Script.Expr} {t : Text} (h : value (lowerStatement e) = .ok t) :
    actionText e = t := by
  rw [actionText]
  cases he : lowerStatement e with
  | error err => rw [he] at h; cases h
  | ok x => rw [he] at h; cases h; rfl

/-- A line with the text of a value in it. -/
theorem writes_value (e : Script.Expr) (f : Text → Text) :
    Writes (do return [.line (f (← value (lower e)))]) [f (valueText e)] := by
  intro code h
  obtain ⟨t, ht, h⟩ := bind_eq_ok h
  cases h
  rw [valueText_of_ok ht]
  rfl

/-- An expression that is a line. -/
theorem writes_action (e : Script.Expr) :
    Writes (do return [.line (← value (lowerStatement e))]) [actionText e] := by
  intro code h
  obtain ⟨t, ht, h⟩ := bind_eq_ok h
  cases h
  rw [actionText_of_ok ht]
  rfl

theorem writes_variable (v : Script.Variable) :
    Writes (lowerVariable v) [declarationLine v.name v.value] := by
  rw [lowerVariable]
  cases v.value with
  | none => exact writes_lines [declarationLine v.name none]
  | some e => exact writes_value e _

/-- A call that appends several values is one line for each. -/
theorem writes_pushes {o : Script.Expr} {receiver : Text} (h : value (lower o) = .ok receiver)
    (es : List Script.Expr) : Writes (lowerPushes receiver es) (es.map (pushLine o)) := by
  induction es with
  | nil => exact writes_lines []
  | cons e es ih =>
    intro code hcode
    rw [lowerPushes] at hcode
    obtain ⟨cs, ds, hcs, hds, rfl⟩ := sequence_eq_ok hcode
    rw [writes_value e _ cs hcs, ih ds hds, ← valueText_of_ok h]
    rfl

/-- What an expression does is one line, unless it appends several values. -/
theorem writes_exprStmt (e : Script.Expr) : Writes (lowerExprStmt e) (actionLines e) := by
  cases e with
  | call p f as =>
    cases f with
    | member q o n r =>
      rw [lowerExprStmt, actionLines]
      split
      · intro code hcode
        obtain ⟨receiver, hreceiver, hcode⟩ := bind_eq_ok hcode
        exact writes_pushes hreceiver as code hcode
      · exact writes_action _
    | _ => exact writes_action _
  | _ => exact writes_action _

theorem writes_outputStmt (arguments : List Script.Expr) :
    Writes (lowerOutputStmt arguments) [Target.callText "ConOut" [outputText arguments]] := by
  rw [lowerOutputStmt, outputText]
  cases lowerOutput arguments with
  | ok o => exact writes_lines [Target.callText "ConOut" [o.print]]
  | error e => rintro _ ⟨⟩

theorem writes_init (init : Script.ForInit) : Writes (lowerInit init) (initLines init) := by
  cases init with
  | nothing => exact writes_lines []
  | «variable» v => exact writes_variable v
  | expr e => exact writes_action e

theorem writes_declaration (init : Script.ForInit) :
    Writes (.ok (declaration init)) (counterLines init) := by
  cases init with
  | nothing | expr => exact writes_lines []
  | «variable» v => exact writes_lines [declarationLine v.name none]

/-- **The code of a simple statement is its lines.** -/
theorem writes_simple {s : Script.Stmt} (h : isSimple s) :
    Writes (lowerStmt words update s) (simpleLines s) := by
  cases s with
  | lineComment pos t => exact writes_lines [lineCommentText t]
  | blockComment pos t => exact writes_lines (blockCommentLines t)
  | importFrom pos source names =>
    exact writes_lines ["#include \"" ++ includePath source ++ "\""]
  | exportValue pos e names byDefault => exact writes_value e _
  | exportNames pos names byDefault =>
    exact writes_lines ["// exports: " ++ Target.commaList (names.map Lexeme.spelled)]
  | «variable» v => exact writes_variable v
  | output pos form as => exact writes_outputStmt as
  | expr pos e => exact writes_exprStmt e
  | _ => cases h

/-! ## The head of a loop -/

/-- The text of a condition, which may be missing. -/
theorem testText_of_ok {test : Option Script.Expr} {t : Text} (h : lowerTest test = .ok t) :
    testText test = t := by
  cases test with
  | none => cases h; rfl
  | some e => exact valueText_of_ok h

theorem actionText_of_update {change : Option Script.Expr} {update : Option Text}
    (h : lowerUpdate change = .ok update) : change.map actionText = update := by
  cases change with
  | none => cases h; rfl
  | some e =>
    obtain ⟨t, ht, h⟩ := bind_eq_ok h
    cases h
    rw [Option.map_some, actionText_of_ok ht]

/-- The header of a counting loop names its variable, the text of its first value, its last value
and its step, unless that is one. -/
theorem header_eq_countText {c : Counting} {first last : Target.Expr}
    (hfirst : lower c.start = .ok first) (hlast : c.limit = .ok last) :
    c.header first last = countText c := by
  rw [Counting.header, countText, valueText, hfirst, hlast]
  rfl

end Advplc.Lowering

import Advplc.Proofs.Comments
import Advplc.Proofs.Grammar.Division
import Advplc.Proofs.Layout
import Advplc.Proofs.Lowering.Generated
import Advplc.Proofs.Lowering.Session
import Advplc.Proofs.Text.Blanks
import Advplc.Proofs.Token.Joining

/-!
# Compiling one source behind another

Compilation is compositional: the file for two sources with a line feed between them is the file for
the first one, followed by the file for the second one without its header (`compile_append`).

Each stage has its part in this.  The tokens of the whole are those of the parts (`Scans.joined`),
the statements written by the tokens of the parts write the statements of the whole, and the code of
a list of statements is put together from the codes of its parts.  The one thing that changes is a
line comment at the end of the first source, which may lose a carriage return; the code generated
for it is the same (`WrittenStmt.shortened`).
-/

set_option autoImplicit false

namespace Advplc

/-! ## Line ends where sources meet -/

/-- A code point stays unless it is a carriage return before a line feed. -/
theorem joinLineEnds_cons {c : CodePoint} {t : Text}
    (h : c = '\r' → t.head? ≠ some (.scalar '\n')) :
    Text.joinLineEnds (c :: t) = c :: t.joinLineEnds := by
  rw [Text.joinLineEnds]
  rintro rest hc rfl
  exact h hc rfl

/-- Line ends are joined part by part, if the second part does not begin with a line feed. -/
theorem joinLineEnds_append (s : Text) {t : Text} (ht : t.head? ≠ some (.scalar '\n')) :
    Text.joinLineEnds (s ++ t) = s.joinLineEnds ++ t.joinLineEnds := by
  fun_induction Text.joinLineEnds s with
  | case1 rest ih => rw [List.cons_append, List.cons_append, Text.joinLineEnds, ih]; rfl
  | case2 c rest hreturn ih =>
    rw [List.cons_append, joinLineEnds_cons, ih]
    · rfl
    · rintro rfl hhead
      cases rest with
      | nil => exact ht hhead
      | cons d rest => exact hreturn rest rfl (by rw [Option.some.inj hhead])
  | case3 => rfl

/-- Where a line feed is put behind a text, a carriage return at the end of the text is dropped. -/
theorem joinLineEnds_append_feed (s t : Text) : ∃ u x, Droppable x ∧ s.joinLineEnds = u ++ x ∧
    Text.joinLineEnds (s ++ .scalar '\n' :: t) = u ++ .scalar '\n' :: t.joinLineEnds := by
  fun_induction Text.joinLineEnds s with
  | case1 rest ih =>
    obtain ⟨u, x, hx, hjoined, hboth⟩ := ih
    refine ⟨.scalar '\n' :: u, x, hx, by rw [hjoined]; rfl, ?_⟩
    rw [List.cons_append, List.cons_append, Text.joinLineEnds, hboth]
    rfl
  | case2 c rest hreturn ih =>
    cases rest with
    | nil =>
      by_cases hc : c = '\r'
      · subst hc
        exact ⟨[], [.scalar '\r'], .inr rfl, rfl, by simp [Text.joinLineEnds]⟩
      · refine ⟨[c], [], .inl rfl, rfl, ?_⟩
        rw [List.singleton_append, joinLineEnds_cons fun h ↦ absurd h hc,
          joinLineEnds_cons (by simp)]
        rfl
    | cons d rest =>
      obtain ⟨u, x, hx, hjoined, hboth⟩ := ih
      refine ⟨c :: u, x, hx, by rw [hjoined]; rfl, ?_⟩
      rw [List.cons_append, joinLineEnds_cons, hboth]
      · rfl
      · rintro rfl hd
        exact hreturn rest rfl (by rw [Option.some.inj hd])
  | case3 =>
    refine ⟨[], [], .inl rfl, rfl, ?_⟩
    rw [List.nil_append, joinLineEnds_cons (by simp)]
    rfl

/-! ## Comments that end with a blank -/

/-- A line comment is trimmed, and with it the carriage return at its end. -/
theorem Lowering.lineCommentText_concat (w : Text) :
    lineCommentText (List.drop 2 (w ++ [.scalar '\r'])) = lineCommentText (List.drop 2 w) := by
  rw [List.drop_append]
  cases 2 - w.length with
  | zero =>
    rw [List.drop_zero, lineCommentText, lineCommentText, Text.trim_concat_of_blank (by decide)]
  | succ n => rw [List.drop_succ_cons, List.drop_nil, List.append_nil]

namespace Grammar

open Script Lowering

variable {templates : Text → List Text → List Expr → Prop} {ts : List Token}

/-- The same code is generated for two clauses, behind `else` as well. -/
def Clause.Alike : Clause → Clause → Prop
  | .stmt ajar s, .stmt ajar' s' => ajar = ajar' ∧ s.isIf = s'.isIf ∧
      ∀ words update, lowerStmt words update s = lowerStmt words update s' ∧
        lowerElseIf words update s = lowerElseIf words update s'
  | .stmts ss, .stmts ss' =>
      ∀ words update, lowerStmts words update ss = lowerStmts words update ss'
  | .body ajar ss, .body ajar' ss' => ajar = ajar' ∧
      ∀ words update, lowerStmts words update ss = lowerStmts words update ss' ∧
        lowerElse words update ss = lowerElse words update ss'
  | _, _ => False

section Alike

variable {words : Text} {update : Option Text}

theorem lowerElse_singleton (words : Text) (update : Option Text) (s : Stmt) :
    lowerElse words update [s] =
      if s.isIf then lowerElseIf words update s
      else do return .otherwise (← nested "Else" (lowerStmts words update [s])) := by
  simp [lowerElse, lowerStmts]

theorem Clause.Alike.exists_stmt {ajar : Bool} {s : Stmt} {clause : Clause}
    (h : Clause.Alike (.stmt ajar s) clause) : ∃ s', clause = .stmt ajar s' := by
  cases clause with
  | stmt ajar' s' => exact ⟨s', by rw [h.1]⟩
  | _ => cases h

theorem Clause.Alike.exists_stmts {ss : List Stmt} {clause : Clause}
    (h : Clause.Alike (.stmts ss) clause) : ∃ ss', clause = .stmts ss' := by
  cases clause with
  | stmts ss' => exact ⟨ss', rfl⟩
  | _ => cases h

theorem Clause.Alike.exists_body {ajar : Bool} {ss : List Stmt} {clause : Clause}
    (h : Clause.Alike (.body ajar ss) clause) : ∃ ss', clause = .body ajar ss' := by
  cases clause with
  | body ajar' ss' => exact ⟨ss', by rw [h.1]⟩
  | _ => cases h

/-- A body of one statement.  Behind `else`, it matters whether that is an `if`. -/
theorem Clause.Alike.single {ajar : Bool} {s s' : Stmt}
    (h : Clause.Alike (.stmt ajar s) (.stmt ajar s')) :
    Clause.Alike (.body ajar [s]) (.body ajar [s']) := by
  refine ⟨rfl, fun words update ↦ ?_⟩
  have hstmts : lowerStmts words update [s] = lowerStmts words update [s'] := by
    simp only [lowerStmts, (h.2.2 words update).1]
  refine ⟨hstmts, ?_⟩
  rw [lowerElse_singleton, lowerElse_singleton, h.2.1, (h.2.2 words update).2, hstmts]

/-- The last body of a statement may be exchanged for one that is alike. -/
theorem Clause.Alike.ifThen {ajar : Bool} {yes yes' : List Stmt}
    (h : Clause.Alike (.body ajar yes) (.body ajar yes')) (p : Option Pos) (test : Expr) :
    Clause.Alike (.stmt true (.ifThen p test yes)) (.stmt true (.ifThen p test yes')) := by
  refine ⟨rfl, rfl, fun words update ↦ ?_⟩
  have hyes := (h.2 words update).1
  constructor
  · rw [lowerStmt, lowerStmt, hyes]
  · rw [lowerElseIf, lowerElseIf, hyes]

theorem Clause.Alike.ifElse {ajar : Bool} {no no' : List Stmt}
    (h : Clause.Alike (.body ajar no) (.body ajar no')) (p : Option Pos) (test : Expr)
    (yes : List Stmt) :
    Clause.Alike (.stmt ajar (.ifElse p test yes no)) (.stmt ajar (.ifElse p test yes no')) := by
  refine ⟨rfl, rfl, fun words update ↦ ?_⟩
  have hno := (h.2 words update).2
  constructor
  · rw [lowerStmt, lowerStmt, hno]
  · rw [lowerElseIf, lowerElseIf, hno]

theorem Clause.Alike.forLoop {ajar : Bool} {ss ss' : List Stmt}
    (h : Clause.Alike (.body ajar ss) (.body ajar ss')) (p : Option Pos) (init : ForInit)
    (test change : Option Expr) : Clause.Alike (.stmt ajar (.forLoop p init test change ss))
      (.stmt ajar (.forLoop p init test change ss')) := by
  refine ⟨rfl, rfl, fun words update ↦ ⟨?_, rfl⟩⟩
  rw [lowerStmt, lowerStmt]
  exact congrArg _ (funext fun inner ↦ (h.2 words inner).1)

theorem Clause.Alike.whileLoop {ajar : Bool} {ss ss' : List Stmt}
    (h : Clause.Alike (.body ajar ss) (.body ajar ss')) (p : Option Pos) (test : Expr) :
    Clause.Alike (.stmt ajar (.whileLoop p test ss)) (.stmt ajar (.whileLoop p test ss')) := by
  refine ⟨rfl, rfl, fun words update ↦ ⟨?_, rfl⟩⟩
  rw [lowerStmt, lowerStmt, (h.2 words none).1]

end Alike

/-- The last token of two lists is the last of the second, if that is not empty. -/
theorem append_eq_concat {us vs init : List Token} {t : Token} (hvs : vs ≠ [])
    (h : us ++ vs = init ++ [t]) : ∃ init', vs = init' ++ [t] ∧ init = us ++ init' := by
  obtain ⟨vs, v, rfl⟩ := List.eq_nil_or_concat' vs |>.resolve_left hvs
  rw [← List.append_assoc] at h
  obtain ⟨rfl, hv⟩ := List.append_inj' h rfl
  obtain rfl := List.singleton_inj.mp hv
  exact ⟨vs, rfl, rfl⟩

theorem WrittenStmt.ne_nil {ajar : Bool} {ss : List Stmt}
    (h : WrittenStmt templates (.body ajar ss) ts) : ts ≠ [] := by
  obtain ⟨us, e, rfl, -⟩ := h.stops
  simp

/-- If the last token of a body can be exchanged for another, then so it can of what ends with the
body. -/
theorem exists_body_behind {ajar : Bool} {ss : List Stmt} {head us init : List Token} {t t' : Token}
    (hbody : WrittenStmt templates (.body ajar ss) us)
    (hexchange : ∀ {init : List Token}, us = init ++ [t] →
      ∃ clause, Clause.Alike (.body ajar ss) clause ∧ WrittenStmt templates clause (init ++ [t']))
    (h : head ++ us = init ++ [t]) :
    ∃ init' ss', init = head ++ init' ∧ Clause.Alike (.body ajar ss) (.body ajar ss') ∧
      WrittenStmt templates (.body ajar ss') (init' ++ [t']) := by
  obtain ⟨init', hus, rfl⟩ := append_eq_concat hbody.ne_nil h
  obtain ⟨clause, halike, hwritten⟩ := hexchange hus
  obtain ⟨ss', rfl⟩ := halike.exists_body
  exact ⟨init', ss', rfl, halike, hwritten⟩

/-- **A line comment at the end may lose a carriage return** without effect on the code. -/
theorem WrittenStmt.shortened {clause : Clause} (h : WrittenStmt templates clause ts) {t t' : Token}
    {w : Text} (ht : t.kind = .lineComment) (hw : t.lexeme = .text (w ++ [.scalar '\r']))
    (ht' : t'.kind = .lineComment) (hw' : t'.lexeme = .text w) {init : List Token}
    (hts : ts = init ++ [t]) :
    ∃ clause', clause.Alike clause' ∧ WrittenStmt templates clause' (init ++ [t']) := by
  -- Most statements end with a mark.
  have hmark : ∀ {us : List Token} {m : Mark} {init : List Token},
      us.getLast?.map Token.kind = some (.mark m) → us ≠ init ++ [t] := by
    rintro us m init hlast rfl
    rw [List.getLast?_concat, Option.map_some, Option.some.injEq, ht] at hlast
    cases hlast
  have hsemicolon : ∀ {us init : List Token},
      us.getLast?.map Token.kind = some (.mark .semicolon) → us ≠ init ++ [t] := hmark
  have hbrace : ∀ {us init : List Token},
      us.getLast?.map Token.kind = some (.mark .closeBrace) → us ≠ init ++ [t] := hmark
  have hfunction : ∀ (us : List Token) {vs : List Token} {q : Option Pos} {n : Lexeme}
      {ps : List Lexeme} {ss : List Stmt},
      WrittenStmt templates (.stmt false (.function q n ps ss)) vs →
      (us ++ vs).getLast?.map Token.kind = some (.mark .closeBrace) := by
    intro us vs q n ps ss h
    cases h with
    | function p f n l r o c hf hn hl hr ho hc hps hss =>
      simp [List.getLast?_cons, List.getLast?_append, hc]
  have hone : ∀ {u : Token} {init : List Token}, [] ++ [u] = init ++ [t] → [] = init ∧ u = t := by
    intro u init h
    simpa using List.append_inj' h rfl
  induction h generalizing init with
  | lineComment p u w' hu hw₀ =>
    obtain ⟨rfl, rfl⟩ : [] = init ∧ u = t := hone hts
    rw [hw] at hw₀
    cases hw₀
    refine ⟨.stmt false (.lineComment p (w.drop 2)), ⟨rfl, rfl, fun words update ↦ ⟨?_, rfl⟩⟩,
      .lineComment p t' w ht' hw'⟩
    rw [lowerStmt, lowerStmt, lineCommentText_concat]
  | blockComment p u w' hu hw₀ =>
    obtain ⟨-, rfl⟩ : [] = init ∧ u = t := hone hts
    rw [ht] at hu
    cases hu
  | ifThen p v l r hv hl hr htest hyes ih =>
    rename_i ajar test yes us vs
    have hts : v :: l :: (us ++ [r]) ++ vs = init ++ [t] := by simpa using hts
    obtain ⟨init', yes', rfl, halike, hbody⟩ := exists_body_behind hyes ih hts
    refine ⟨_, halike.ifThen p test, ?_⟩
    simpa using WrittenStmt.ifThen p v l r hv hl hr htest hbody
  | ifElse p v l r x hv hl hr hx htest hyes hno ihyes ih =>
    rename_i ajar test yes no us vs ws
    have hts : v :: l :: (us ++ r :: (vs ++ [x])) ++ ws = init ++ [t] := by simpa using hts
    obtain ⟨init', no', rfl, halike, hbody⟩ := exists_body_behind hno ih hts
    refine ⟨_, halike.ifElse p test yes, ?_⟩
    simpa using WrittenStmt.ifElse p v l r x hv hl hr hx htest hyes hbody
  | forLoop p v l m e r hv hl hm he hr hfirst htest hupdate hss ih =>
    rename_i ajar first test update ss us vs ws xs
    have hts : v :: l :: (us ++ m :: (vs ++ e :: (ws ++ [r]))) ++ xs = init ++ [t] := by
      simpa using hts
    obtain ⟨init', ss', rfl, halike, hbody⟩ := exists_body_behind hss ih hts
    refine ⟨_, halike.forLoop p first test update, ?_⟩
    simpa using WrittenStmt.forLoop p v l m e r hv hl hm he hr hfirst htest hupdate hbody
  | whileLoop p v l r hv hl hr htest hss ih =>
    rename_i ajar test ss us vs
    have hts : v :: l :: (us ++ [r]) ++ vs = init ++ [t] := by simpa using hts
    obtain ⟨init', ss', rfl, halike, hbody⟩ := exists_body_behind hss ih hts
    refine ⟨_, halike.whileLoop p test, ?_⟩
    simpa using WrittenStmt.whileLoop p v l r hv hl hr htest hbody
  | nil => exact absurd hts (by simp)
  | cons hs hss ihs ihss =>
    rename_i ajar s ss us vs
    cases vs with
    | nil =>
      rw [List.append_nil] at hts
      obtain ⟨clause', halike, hstmt⟩ := ihs hts
      obtain ⟨s', rfl⟩ := halike.exists_stmt
      refine ⟨.stmts (s' :: ss), fun words update ↦ ?_, ?_⟩
      · simp only [lowerStmts, (halike.2.2 words update).1]
      · simpa using WrittenStmt.cons hstmt hss
    | cons v vs =>
      obtain ⟨init', hvs, rfl⟩ := append_eq_concat (List.cons_ne_nil v vs) hts
      obtain ⟨clause', halike, hstmts⟩ := ihss hvs
      obtain ⟨ss', rfl⟩ := halike.exists_stmts
      refine ⟨.stmts (s :: ss'), fun words update ↦ ?_, ?_⟩
      · simp only [lowerStmts, halike words update]
      · simpa using WrittenStmt.cons hs hstmts
  | single hv hs ih =>
    rename_i ajar s v vs
    obtain ⟨clause', halike, hstmt⟩ := ih hts
    obtain ⟨s', rfl⟩ := halike.exists_stmt
    refine ⟨_, halike.single, ?_⟩
    -- What comes first is the comment itself, or stays as it is.
    cases init with
    | nil => exact .single (by rw [ht']; decide) hstmt
    | cons u init =>
      obtain ⟨rfl, -⟩ := List.cons.inj hts
      exact .single hv hstmt
  | importFrom _ _ _ _ _ _ _ _ he | exportDefault _ _ _ _ _ _ he | exportVariable _ _ _ _ he
  | exportNames _ _ _ _ _ _ _ _ he | «variable» _ he | print _ _ _ _ he
  | console _ _ _ _ _ _ _ _ he | ret _ _ _ _ he | breakLoop _ _ _ _ he | continueLoop _ _ _ _ he
  | expr _ _ he => exact absurd hts (hsemicolon (by simp [List.getLast?_cons, he]))
  | exportDefaultFunction _ _ x d _ _ h => exact absurd hts (hbrace (hfunction [x, d] h))
  | exportFunction _ _ x _ h => exact absurd hts (hbrace (hfunction [x] h))
  | function _ _ _ _ _ _ _ _ _ _ _ _ hc =>
    exact absurd hts (hbrace (by simp [List.getLast?_cons, List.getLast?_append, hc]))
  | braces _ _ _ hr => exact absurd hts (hbrace (by simp [List.getLast?_cons, hr]))

/-! ## Programs behind programs -/

/-- Statements may be written behind others. -/
theorem WrittenStmt.append {ss ss' : List Stmt} {us : List Token}
    (hss : WrittenStmt templates (.stmts ss) ts) (hss' : WrittenStmt templates (.stmts ss') us) :
    WrittenStmt templates (.stmts (ss ++ ss')) (ts ++ us) := by
  generalize hclause : Clause.stmts ss = clause at hss
  induction hss generalizing ss with
  | nil =>
    cases hclause
    exact hss'
  | cons hs _ _ ih =>
    cases hclause
    rw [List.append_assoc]
    exact .cons hs (ih rfl)
  | _ => cases hclause

theorem lowerStmts_append {words : Text} {update : Option Text} {ss ss' : List Stmt}
    {cs ds : List Target.Code} (hcs : lowerStmts words update ss = .ok cs)
    (hds : lowerStmts words update ss' = .ok ds) :
    lowerStmts words update (ss ++ ss') = .ok (cs ++ ds) := by
  induction ss generalizing cs with
  | nil =>
    cases hcs
    exact hds
  | cons s ss ih =>
    obtain ⟨bs, cs', hbs, hcs', rfl⟩ := lowerStmts_cons_eq_ok hcs
    rw [List.cons_append, lowerStmts, hbs, ih hcs', List.append_assoc]
    rfl

/-- What stands at the end of a program does not end an operand. -/
theorem regexAllowed_of_written {ss : List Stmt} (h : WrittenStmt templates (.stmts ss) ts) :
    Rule.regexAllowed (lastKind none (ts.map Token.form)) = true := by
  have hall : ∀ k ∈ statementEnds, Rule.regexAllowed (some k) = true := by decide
  obtain rfl | ⟨us, e, rfl, he⟩ := h.stops
  · rfl
  · simpa [lastKind, Token.form] using hall _ he

/-- Behind a slash that divides there is no sign that would make a comment of it. -/
theorem isChain_unopened (h : SlashesDivide ts) : (ts.map Token.form).IsChain Unopened := by
  have hall : ∀ k ∈ expressionStart, k ≠ .mark .star ∧ k ≠ .mark .timesEqual := by decide
  induction ts with
  | nil => exact .nil
  | cons t ts ih =>
    refine List.IsChain.cons (ih h.2) fun f hf hslash ↦ ?_
    cases ts with
    | nil => cases hf
    | cons u ts =>
      cases hf
      exact hall _ (h.1 hslash)

/-- The statements that tokens of shortened forms write. -/
theorem exists_written_of_shortened {ss : List Stmt} {us : List Token}
    (h : WrittenStmt templates (.stmts ss) ts)
    (hus : Shortened (ts.map Token.form) (us.map Token.form)) :
    ∃ ss', WrittenStmt templates (.stmts ss') us ∧
      ∀ words update, lowerStmts words update ss' = lowerStmts words update ss := by
  generalize hfs : ts.map Token.form = fs at hus
  generalize hfs' : us.map Token.form = fs' at hus
  cases hus with
  | same => exact ⟨ss, h.recast (hfs'.trans hfs.symm), fun _ _ ↦ rfl⟩
  | comment fs w =>
    obtain ⟨init, last, rfl, hinit, hlast⟩ := List.map_eq_append_iff.mp hfs
    obtain ⟨init', last', rfl, hinit', hlast'⟩ := List.map_eq_append_iff.mp hfs'
    obtain ⟨t, rfl, ht⟩ := List.map_eq_singleton_iff.mp hlast
    obtain ⟨t', rfl, ht'⟩ := List.map_eq_singleton_iff.mp hlast'
    obtain ⟨clause', halike, hwritten⟩ := h.shortened (congrArg Prod.fst ht) (congrArg Prod.snd ht)
      (congrArg Prod.fst ht') (congrArg Prod.snd ht') rfl
    obtain ⟨ss', rfl⟩ := halike.exists_stmts
    refine ⟨ss', hwritten.recast ?_, fun words update ↦ (halike words update).symm⟩
    rw [Recast, List.map_append, List.map_append, hinit, hinit']

end Grammar

open Grammar Lowering

/-- The file does not depend on positions. -/
theorem generate_of_bare {options : Target.Options} {p q : Script.Program} {file : Text}
    (h : Script.Stmt.bareAll p.body = Script.Stmt.bareAll q.body)
    (hfile : generate options (.program q) = .ok file) :
    generate options (.program p) = .ok file := by
  have hsame := generate_congr options h
  rw [hfile] at hsame
  cases hp : generate options (.program p) with
  | error e => rw [hp] at hsame; cases hsame
  | ok file' => rw [hp] at hsame; cases hsame; rfl

/-- The tokens of a joined source write the statements of its parts. -/
theorem exists_tokens_append {s₁ s₂ : Text} {ts₁ ts₂ : List Token} {p₁ p₂ : Script.Program}
    (htokens₁ : tokenize s₁ Pos.origin = .ok ts₁) (hparse₁ : parse ts₁ = .ok p₁)
    (htokens₂ : tokenize s₂ Pos.origin = .ok ts₂) (hparse₂ : parse ts₂ = .ok p₂) :
    ∃ us ss, tokenize (s₁ ++ "\n" ++ s₂) Pos.origin = .ok us ∧
      WrittenStmt (filledTemplates readHole) (.stmts (ss ++ p₂.body)) us ∧
      ∀ words update, lowerStmts words update ss = lowerStmts words update p₁.body := by
  have hwritten₁ := written_of_tokenize htokens₁ hparse₁
  have hwritten₂ := written_of_tokenize htokens₂ hparse₂
  have hscans₁ := (tokenize_eq_ok_iff Pos.origin).mpr ⟨ts₁, htokens₁, rfl⟩
  have hscans₂ := (tokenize_eq_ok_iff Pos.origin).mpr ⟨ts₂, htokens₂, rfl⟩
  -- The first source ends with `x`, which the line feed behind it takes away.
  obtain ⟨u, x, hx, hu, hboth⟩ := joinLineEnds_append_feed s₁ s₂
  -- That the second source is read as if it stood alone depends on what the first one ends with: no
  -- slash there opens a comment, and a slash behind it may begin a regular expression.
  have hdivided := hwritten₁.divided (fills_filled (.ok Pos.origin) steady_readHole)
    (genuine_of_tokenize htokens₁).marksSpelled
  rw [hu] at hscans₁
  obtain ⟨fs, hshort, hscans⟩ := hscans₂.joined hx hscans₁ (isChain_unopened hdivided)
    (regexAllowed_of_written hwritten₁)
  have hsource : (s₁ ++ "\n" ++ s₂).joinLineEnds = u ++ .scalar '\n' :: s₂.joinLineEnds := by
    rw [← hboth, List.append_assoc]
    rfl
  rw [← hsource] at hscans
  obtain ⟨us, htokens, hforms⟩ := (tokenize_eq_ok_iff Pos.origin).mp hscans
  obtain ⟨us₁, us₂, rfl, hus₁, hus₂⟩ := List.map_eq_append_iff.mp hforms
  obtain ⟨ss, hss, hlower⟩ := exists_written_of_shortened hwritten₁ (hus₁ ▸ hshort)
  exact ⟨us₁ ++ us₂, ss, htokens, hss.append (hwritten₂.recast hus₂), hlower⟩

/-- **Compilation is compositional.**  If two sources are compiled to files, then the first source,
a line feed and the second source are compiled to the first file, followed by the second file
without its header, which is the file for the empty program. -/
theorem compile_append (options : Target.Options) (s₁ s₂ file₁ file₂ : Text)
    (h₁ : (compile options s₁).outcome = .ok file₁)
    (h₂ : (compile options s₂).outcome = .ok file₂) :
    ∃ header body, (∀ pos, Lowering.generate options (.program ⟨pos, []⟩) = .ok header) ∧
      file₂ = header ++ body ∧
      (compile options (s₁ ++ "\n" ++ s₂)).outcome = .ok (file₁ ++ body) := by
  obtain ⟨ts₁, p₁, htokens₁, hparse₁, hfile₁⟩ := outcome_eq_ok_iff.mp h₁
  obtain ⟨ts₂, p₂, htokens₂, hparse₂, hfile₂⟩ := outcome_eq_ok_iff.mp h₂
  obtain ⟨indent, cs, hindent, hknown, hcs, rfl⟩ := generate_eq_ok_iff.mp hfile₁
  obtain ⟨indent', ds, hindent', -, hds, rfl⟩ := generate_eq_ok_iff.mp hfile₂
  obtain rfl : indent = indent' := Option.some.inj (hindent.symm.trans hindent')
  obtain ⟨us, ss, htokens, hwritten, hlower⟩ :=
    exists_tokens_append htokens₁ hparse₁ htokens₂ hparse₂
  obtain ⟨q, hparse, hbare⟩ := parse_of_written hwritten (fills_filled _ steady_readHole)
  have hcode : lowerStmts options.functionWords none (ss ++ p₂.body) = .ok (cs ++ ds) :=
    lowerStmts_append ((hlower _ _).trans hcs) hds
  have hfile : generate options (.program ⟨q.pos, ss ++ p₂.body⟩) =
      .ok (Target.file (Target.header options.since ++ codeLines indent (cs ++ ds))) :=
    generate_eq_ok_iff.mpr ⟨indent, _, hindent, hknown, hcode, rfl⟩
  refine ⟨Target.file (Target.header options.since), Target.body (codeLines indent ds),
    fun pos ↦ ?_, Target.file_append (Target.header_ne_nil _) _, ?_⟩
  · exact generate_eq_ok_iff.mpr
      ⟨indent, [], hindent, hknown, rfl, by simp [codeLines, Target.Code.entriesAll]⟩
  · refine outcome_eq_ok_iff.mpr ⟨us, q, htokens, hparse, ?_⟩
    rw [codeLines_append, ← List.append_assoc, Target.file_append
      (List.append_ne_nil_of_left_ne_nil (Target.header_ne_nil _) _)] at hfile
    exact generate_of_bare hbare hfile

/-- The sources `x = 1; // c` with a carriage return at its end, and `y = 2;`. -/
theorem compile_append_sample :
    let s₁ : Text := "x=1;//c\r"
    let s₂ : Text := "y=2;"
    let file₁ : Text := Target.file (Target.header none ++ (["x := 1", "// c"] : List Text))
    let file₂ : Text := Target.file (Target.header none ++ (["y := 2"] : List Text))
    (compile {} s₁).outcome = .ok file₁ ∧ (compile {} s₂).outcome = .ok file₂ ∧
      ∃ header body, (∀ pos, Lowering.generate {} (.program ⟨pos, []⟩) = .ok header) ∧
        file₂ = header ++ body ∧ (compile {} (s₁ ++ "\n" ++ s₂)).outcome = .ok (file₁ ++ body) := by
  intro s₁ s₂ file₁ file₂
  let ts₁ : List Token :=
    [⟨.identifier, "x", ⟨1, 1⟩⟩, ⟨.mark .assign, "=", ⟨1, 2⟩⟩, ⟨.number, "1", ⟨1, 3⟩⟩,
     ⟨.mark .semicolon, ";", ⟨1, 4⟩⟩, ⟨.lineComment, "//c\r", ⟨1, 5⟩⟩]
  let ts₂ : List Token :=
    [⟨.identifier, "y", ⟨1, 1⟩⟩, ⟨.mark .assign, "=", ⟨1, 2⟩⟩, ⟨.number, "2", ⟨1, 3⟩⟩,
     ⟨.mark .semicolon, ";", ⟨1, 4⟩⟩]
  have htokens₁ : tokenize s₁ Pos.origin = .ok ts₁ := tokenize_of_toOption (by decide +kernel)
  have htokens₂ : tokenize s₂ Pos.origin = .ok ts₂ := tokenize_of_toOption (by decide +kernel)
  have h₁ : (compile {} s₁).outcome = .ok file₁ :=
    outcome_eq_ok_iff.mpr ⟨ts₁, _, htokens₁, rfl, rfl⟩
  have h₂ : (compile {} s₂).outcome = .ok file₂ :=
    outcome_eq_ok_iff.mpr ⟨ts₂, _, htokens₂, rfl, rfl⟩
  exact ⟨h₁, h₂, compile_append {} s₁ s₂ file₁ file₂ h₁ h₂⟩

end Advplc

import Advplc.Proofs.Grammar.Completeness.Statement
import Advplc.Proofs.Grammar.Soundness.Expression

/-!
# Only writings of statements are parsed

The same as for expressions, one rule after another.  Each lemma takes a run of the parser that
succeeded, steps back through what the rule did, and finds that the tokens taken are a writing of
the tree returned, and that the nodes of the tree stand where their tokens do (`Yields`,
`PlacesStmt`).

The one thing that is not seen from the tokens taken is what follows them.  A statement that is ajar
is only returned where no `else` follows it, and with that the branch in front of an `else` cannot
have been ajar; so `PlacesStmt` says of the rest what `MayFollow` allows.

`placed_of_parse` is what is left for a whole program, and `written_of_parse` the same with the
positions left out.
-/

set_option autoImplicit false

namespace Advplc.Grammar

open Script Parse

variable {templates : Token → List Text → List Expr → Prop} {env : Context}

/-! ## The parts of statements -/

/-- Where an expression may be missing, either nothing is taken or a writing of an expression. -/
theorem yields_exprUnless (henv : env.ReadsAt templates) (close : Mark) :
    Yields env (exprUnless close) (PlacedOption templates) := by
  intro ts v rest h
  simp only [exprUnless, atMark, bind_eq_ok, check_eq_ok] at h
  obtain ⟨_, _, ⟨rfl, rfl⟩, h⟩ := h
  split at h
  · obtain ⟨rfl, rfl⟩ := pure_eq_ok.mp h
    exact ⟨[], rfl, .absent⟩
  · simp only [bind_eq_ok, pure_eq_ok] at h
    obtain ⟨e, _, he, rfl, rfl⟩ := h
    obtain ⟨us, rfl, hus⟩ := places_expr henv he
    exact ⟨us, rfl, .present hus⟩

/-- A declaration is taken whole.  The rule does not look at its first word, which has been seen
before it was chosen. -/
theorem yields_variableDecl (henv : env.ReadsAt templates) {ts rest : List Token} {v : Variable}
    (hword : nextKind ts ∈ declarationWords) (h : variableDecl env ts = .ok v rest) :
    ∃ used, ts = used ++ rest ∧ PlacedVariable templates v used := by
  simp only [variableDecl, firstValue, atMark, bind_eq_ok, next_eq_ok, expect_eq_ok, check_eq_ok,
    pure_eq_ok] at h
  obtain ⟨w, _, rfl, n, _, ⟨rfl, hn⟩, value, _, ⟨_, _, ⟨rfl, rfl⟩, hvalue⟩, rfl, rfl⟩ := h
  -- With a first value or without one.
  split at hvalue
  · rename_i hassign
    simp only [bind_eq_ok, next_eq_ok, pure_eq_ok] at hvalue
    obtain ⟨a, _, rfl, e, _, he, rfl, rfl⟩ := hvalue
    obtain ⟨us, rfl, hus⟩ := places_expr henv he
    refine ⟨w :: n :: a :: us, rfl, .declared w n hword hn (.present a ?_ hus)⟩
    simpa using hassign
  · obtain ⟨rfl, rfl⟩ := pure_eq_ok.mp hvalue
    exact ⟨[w, n], rfl, .declared w n hword hn .absent⟩

theorem variableStmt_eq_ok (henv : env.ReadsAt templates) {ts rest : List Token} {v : Variable}
    (hword : nextKind ts ∈ declarationWords) (h : variableStmt env ts = .ok v rest) :
    ∃ us e, ts = us ++ e :: rest ∧ e.kind = .mark .semicolon ∧ PlacedVariable templates v us := by
  simp only [variableStmt, mark, bind_eq_ok, expect_eq_ok, pure_eq_ok] at h
  obtain ⟨v, _, hv, e, _, ⟨rfl, he⟩, rfl, rfl⟩ := h
  obtain ⟨us, rfl, hus⟩ := yields_variableDecl henv hword hv
  exact ⟨us, e, rfl, he, hus⟩

theorem yields_forInit (henv : env.ReadsAt templates) :
    Yields env forInit (PlacedInit templates) := by
  intro ts i rest h
  simp only [forInit, bind_eq_ok, check_eq_ok] at h
  obtain ⟨_, _, ⟨rfl, rfl⟩, h⟩ := h
  split at h
  · rename_i hword
    simp only [bind_eq_ok, pure_eq_ok] at h
    obtain ⟨v, _, hv, rfl, rfl⟩ := h
    obtain ⟨us, rfl, hus⟩ := yields_variableDecl henv (List.contains_iff_mem.mp hword) hv
    exact ⟨us, rfl, .variable hus⟩
  · simp only [bind_eq_ok] at h
    obtain ⟨v, _, hv, h⟩ := h
    obtain ⟨us, rfl, hus⟩ := yields_exprUnless henv .semicolon hv
    -- What is returned depends on whether there was an expression.
    cases hus with
    | absent =>
      obtain ⟨rfl, rfl⟩ := pure_eq_ok.mp h
      exact ⟨[], rfl, .nothing⟩
    | present he =>
      obtain ⟨rfl, rfl⟩ := pure_eq_ok.mp h
      exact ⟨us, rfl, .expr he⟩

theorem condition_eq_ok (henv : env.ReadsAt templates) {ts rest : List Token} {e : Expr}
    (h : condition env ts = .ok e rest) : ∃ l us r, ts = l :: (us ++ r :: rest) ∧
      l.kind = .mark .openParen ∧ r.kind = .mark .closeParen ∧
      Placed templates (.expr .assignment e) us := by
  simp only [condition, mark, bind_eq_ok, expect_eq_ok, pure_eq_ok] at h
  obtain ⟨l, _, ⟨rfl, hl⟩, e, _, he, r, _, ⟨rfl, hr⟩, rfl, rfl⟩ := h
  obtain ⟨us, rfl, hus⟩ := places_expr henv he
  exact ⟨l, us, r, rfl, hl, hr, hus⟩

/-! ### Imports and exports -/

theorem yields_renamed : Yields env renamed WrittenRenamed := by
  intro ts x rest h
  simp only [renamed, bind_eq_ok, expect_eq_ok, atWord_eq_ok] at h
  obtain ⟨n, _, ⟨rfl, hn⟩, _, _, ⟨rfl, rfl⟩, h⟩ := h
  split at h
  · -- The rule has seen that the next token is the word `as`, and goes past it.
    rename_i has
    simp only [bind_eq_ok, next_eq_ok, expect_eq_ok, pure_eq_ok] at h
    obtain ⟨a, _, rfl, m, _, ⟨rfl, hm⟩, rfl, rfl⟩ := h
    have ha : a.kind = .identifier ∧ a.lexeme = "as" := by simpa using has
    exact ⟨[n, a, m], rfl, .another n a m hn ha.1 ha.2 hm⟩
  · obtain ⟨rfl, rfl⟩ := pure_eq_ok.mp h
    exact ⟨[n], rfl, .plain n hn⟩

theorem yields_namedSpecifier : Yields env namedSpecifier WrittenSpecifier := by
  intro ts x rest h
  simp only [namedSpecifier, bind_eq_ok, pure_eq_ok] at h
  obtain ⟨x, _, hx, rfl, rfl⟩ := h
  obtain ⟨us, rfl, hus⟩ := yields_renamed hx
  exact ⟨us, rfl, .named hus⟩

/-- A name that is exported; what it is called elsewhere becomes part of the text. -/
theorem yields_exportedName : Yields env exportedName WrittenExported := by
  intro ts x rest h
  simp only [exportedName, bind_eq_ok] at h
  obtain ⟨⟨n, _ | a⟩, _, hx, h⟩ := h
  · obtain ⟨us, rfl, hus⟩ := yields_renamed hx
    obtain ⟨rfl, rfl⟩ := pure_eq_ok.mp h
    exact ⟨us, rfl, .plain hus⟩
  · obtain ⟨us, rfl, hus⟩ := yields_renamed hx
    obtain ⟨rfl, rfl⟩ := pure_eq_ok.mp h
    exact ⟨us, rfl, .another hus⟩

theorem yields_importNamed : Yields env importNamed WrittenFurther := by
  intro ts xs rest h
  simp only [importNamed, mark, bind_eq_ok, expect_eq_ok, pure_eq_ok] at h
  obtain ⟨l, _, ⟨rfl, hl⟩, xs, _, hxs, r, _, ⟨rfl, hr⟩, rfl, rfl⟩ := h
  obtain ⟨us, rfl, hus⟩ := yields_listed .closeBrace yields_namedSpecifier hxs
  exact ⟨l :: (us ++ [r]), by simp, .named l r hl hr hus⟩

theorem yields_importNamespace :
    Yields env importNamespace fun x ↦ WrittenFurther [x] := by
  intro ts x rest h
  simp only [importNamespace, mark, bind_eq_ok, expect_eq_ok, word_eq_ok, pure_eq_ok] at h
  obtain ⟨s, _, ⟨rfl, hs⟩, a, _, ⟨rfl, ha, has⟩, n, _, ⟨rfl, hn⟩, rfl, rfl⟩ := h
  exact ⟨[s, a, n], rfl, .module s a n hs ha has hn⟩

theorem yields_importFurther : Yields env importFurther WrittenFurther := by
  intro ts xs rest h
  simp only [importFurther, atMark, bind_eq_ok, check_eq_ok] at h
  obtain ⟨_, _, ⟨rfl, rfl⟩, h⟩ := h
  split at h
  · simp only [bind_eq_ok, pure_eq_ok] at h
    obtain ⟨x, _, hx, rfl, rfl⟩ := h
    exact yields_importNamespace hx
  · exact yields_importNamed h

/-- What is imported, up to the path of the module. -/
theorem yields_importClause : Yields env importClause WrittenImport := by
  intro ts xs rest h
  simp only [importClause, bind_eq_ok, check_eq_ok] at h
  obtain ⟨_, _, ⟨rfl, rfl⟩, h⟩ := h
  -- A path on its own, which the rule knows by its first token.
  split at h
  · obtain ⟨rfl, rfl⟩ := pure_eq_ok.mp h
    exact ⟨[], rfl, .nothing⟩
  simp only [importSpecifiers, keyword, bind_eq_ok, peek_eq_ok, expect_eq_ok, pure_eq_ok] at h
  obtain ⟨xs, _, ⟨k, _, ⟨hk, rfl⟩, h⟩, f, _, ⟨rfl, hf⟩, rfl, rfl⟩ := h
  split at h
  · -- The three ways in which an import can begin: with a brace, with a star, or with a name,
    -- behind which a comma may lead to either of the others.
    obtain ⟨us, rfl, hus⟩ := yields_importNamed h
    exact ⟨us ++ [f], by simp, .further f hf hus⟩
  · simp only [bind_eq_ok, pure_eq_ok] at h
    obtain ⟨x, _, hx, rfl, rfl⟩ := h
    obtain ⟨us, rfl, hus⟩ := yields_importNamespace hx
    exact ⟨us ++ [f], by simp, .further f hf hus⟩
  · simp only [atMark, bind_eq_ok, expect_eq_ok, check_eq_ok] at h
    obtain ⟨n, _, ⟨rfl, hn⟩, _, _, ⟨rfl, rfl⟩, h⟩ := h
    split at h
    · rename_i hcomma
      simp only [bind_eq_ok, next_eq_ok, pure_eq_ok] at h
      obtain ⟨c, _, rfl, xs, _, hxs, rfl, rfl⟩ := h
      obtain ⟨us, rfl, hus⟩ := yields_importFurther hxs
      exact ⟨n :: c :: (us ++ [f]), by simp, .both n c f hn (by simpa using hcomma) hf hus⟩
    · obtain ⟨rfl, rfl⟩ := pure_eq_ok.mp h
      exact ⟨[n, f], rfl, .default n f hn hf⟩

theorem yields_parameterList : Yields env parameterList WrittenParameters := by
  intro ts ps rest h
  simp only [parameterList, atMark, bind_eq_ok, check_eq_ok] at h
  obtain ⟨_, _, ⟨rfl, rfl⟩, h⟩ := h
  have hparameter : Yields env parameter WrittenParameter := by
    intro ts p rest h
    simp only [parameter, bind_eq_ok, expect_eq_ok, pure_eq_ok] at h
    obtain ⟨t, _, ⟨rfl, ht⟩, rfl, rfl⟩ := h
    exact ⟨[t], rfl, .name t ht⟩
  split at h
  · obtain ⟨rfl, rfl⟩ := pure_eq_ok.mp h
    exact ⟨[], rfl, .empty⟩
  · obtain ⟨us, rfl, hus⟩ := yields_separated hparameter h
    exact ⟨us, rfl, .nonempty hus⟩

/-! ## Statements -/

/-- When `p` succeeds, it has taken a writing of the statement it returns, which stands where that
does, and if it is ajar, no `else` follows. -/
def PlacesStmt (templates : Token → List Text → List Expr → Prop) (env : Context)
    (p : Parse Stmt) : Prop :=
  ∀ ⦃ts : List Token⦄ ⦃s : Stmt⦄ ⦃rest : List Token⦄, p env ts = .ok s rest → ∃ used ajar,
    ts = used ++ rest ∧ PlacedStmt templates (.stmt ajar s) used ∧ MayFollow ajar (nextKind rest)

/-- Anything may follow a statement that is not ajar. -/
theorem MayFollow.closed (k : Kind) : MayFollow false k := fun h ↦ by cases h

/-- A statement takes at least one token. -/
theorem PlacedStmt.exists_cons {ajar : Bool} {s : Stmt} {ts : List Token}
    (h : PlacedStmt templates (.stmt ajar s) ts) : ∃ t us, ts = t :: us := by
  refine List.exists_cons_of_ne_nil ?_
  -- No rule for a statement is without a token.
  cases h <;> simp

section Rules

variable {inner : Parse Stmt}

/-- A list of statements is taken one statement after another.  What may follow each of them is
forgotten here, since a list says nothing about that. -/
theorem yields_untilAt (stop : List Kind) (hinner : PlacesStmt templates env inner) (n : Nat) :
    Yields env (untilAt stop inner n) fun ss ↦ PlacedStmt templates (.stmts ss) := by
  induction n with
  | zero =>
    intro ts ss rest h
    obtain ⟨rfl, rfl⟩ := pure_eq_ok.mp h
    exact ⟨[], rfl, .nil⟩
  | succ n ih =>
    intro ts ss rest h
    simp only [untilAt, bind_eq_ok, check_eq_ok] at h
    obtain ⟨_, _, ⟨rfl, rfl⟩, h⟩ := h
    split at h
    · -- At one of the kinds at which the list stops.
      obtain ⟨rfl, rfl⟩ := pure_eq_ok.mp h
      exact ⟨[], rfl, .nil⟩
    · simp only [bind_eq_ok, pure_eq_ok] at h
      obtain ⟨s, _, hs, ss, _, hss, rfl, rfl⟩ := h
      obtain ⟨us, ajar, rfl, hus, -⟩ := hinner hs
      obtain ⟨vs, rfl, hvs⟩ := ih hss
      exact ⟨us ++ vs, by simp, .cons hus hvs⟩

theorem block_eq_ok (hinner : PlacesStmt templates env inner) {ts rest : List Token}
    {ss : List Stmt} (h : block inner env ts = .ok ss rest) :
    ∃ l us r, ts = l :: (us ++ r :: rest) ∧
      l.kind = .mark .openBrace ∧ r.kind = .mark .closeBrace ∧
      PlacedStmt templates (.stmts ss) us := by
  simp only [block, mark, bind_eq_ok, expect_eq_ok, pure_eq_ok] at h
  obtain ⟨l, _, ⟨rfl, hl⟩, ss, _, hss, r, _, ⟨rfl, hr⟩, rfl, rfl⟩ := h
  obtain ⟨us, rfl, hus⟩ := yields_untilAt _ hinner _ hss
  exact ⟨l, us, r, rfl, hl, hr, hus⟩

/-- A body is a list between braces, and then it is not ajar, or a single statement, and then it is
what that is. -/
theorem body_eq_ok (hinner : PlacesStmt templates env inner) {ts rest : List Token}
    {ss : List Stmt} (h : body inner env ts = .ok ss rest) : ∃ used ajar, ts = used ++ rest ∧
      PlacedStmt templates (.body ajar ss) used ∧ MayFollow ajar (nextKind rest) := by
  simp only [body, atMark, bind_eq_ok, check_eq_ok] at h
  obtain ⟨_, _, ⟨rfl, rfl⟩, h⟩ := h
  split at h
  · -- The rule looks at the first token, and the brace is what tells the two apart.
    obtain ⟨l, us, r, rfl, hl, hr, hus⟩ := block_eq_ok hinner h
    exact ⟨l :: (us ++ [r]), false, by simp, .braces l r hl hr hus, .closed _⟩
  · rename_i hbrace
    simp only [bind_eq_ok, pure_eq_ok] at h
    obtain ⟨s, _, hs, rfl, rfl⟩ := h
    obtain ⟨used, ajar, rfl, hused, hfollow⟩ := hinner hs
    obtain ⟨t, us, rfl⟩ := hused.exists_cons
    exact ⟨t :: us, ajar, rfl, .single (by simpa using hbrace) hused, hfollow⟩

/-- A function.  It is said that the statement is one, because `export` asks for that. -/
theorem functionDecl_eq_ok (hinner : PlacesStmt templates env inner) {ts rest : List Token}
    {s : Stmt} (h : functionDecl inner env ts = .ok s rest) : ∃ used p n ps ss,
      ts = used ++ rest ∧ s = .function p n ps ss ∧
      PlacedStmt templates (.stmt false (.function p n ps ss)) used := by
  simp only [functionDecl, keyword, mark, bind_eq_ok, expect_eq_ok, pure_eq_ok] at h
  obtain ⟨f, _, ⟨rfl, hf⟩, n, _, ⟨rfl, hn⟩, l, _, ⟨rfl, hl⟩, ps, _, hps, r, _, ⟨rfl, hr⟩, ss, _,
    hss, rfl, rfl⟩ := h
  obtain ⟨us, rfl, hus⟩ := yields_parameterList hps
  obtain ⟨o, vs, c, rfl, ho, hc, hvs⟩ := block_eq_ok hinner hss
  -- The tokens of the function, in the order in which they were taken.
  refine ⟨f :: n :: l :: (us ++ r :: o :: (vs ++ [c])), some f.pos, n.lexeme, ps, ss, by simp,
    rfl, ?_⟩
  exact .function f n l r o c hf hn hl hr ho hc hus hvs

/-- A comment is a single token, and which of the two it is depends on its kind. -/
theorem places_commentStmt {k : Kind} (hk : k = .lineComment ∨ k = .blockComment)
    {ts rest : List Token} {s : Stmt} (hts : nextKind ts = k)
    (h : commentStmt env ts = .ok s rest) :
    ∃ used, ts = used ++ rest ∧ PlacedStmt templates (.stmt false s) used := by
  simp only [commentStmt, bind_eq_ok, next_eq_ok, textFor_eq_ok] at h
  obtain ⟨t, _, rfl, w, _, ⟨hw, rfl⟩, h⟩ := h
  rw [nextKind_cons] at hts
  split at h
  · rename_i hline
    obtain ⟨rfl, rfl⟩ := pure_eq_ok.mp h
    exact ⟨[t], rfl, .lineComment t w hline hw⟩
  · rename_i hline
    obtain ⟨rfl, rfl⟩ := pure_eq_ok.mp h
    -- The rule only asks whether it is the first kind; that it is the second otherwise is known
    -- from how the rule was chosen.
    have hblock : t.kind = .blockComment := hts.trans (hk.resolve_left fun h ↦ hline (hts.trans h))
    exact ⟨[t], rfl, .blockComment t w hblock hw⟩

/-- An import, with the quotes of its path removed. -/
theorem places_importStmt : Yields env importStmt fun s ↦ PlacedStmt templates (.stmt false s) := by
  intro ts s rest h
  simp only [importStmt, moduleSource, keyword, mark, bind_eq_ok, expect_eq_ok, pure_eq_ok] at h
  obtain ⟨i, _, ⟨rfl, hi⟩, xs, _, hxs, v, _, ⟨m, _, ⟨rfl, hm⟩, hv⟩, e, _, ⟨rfl, he⟩, rfl, rfl⟩ := h
  obtain ⟨us, rfl, hus⟩ := yields_importClause hxs
  obtain ⟨w, hw, rfl, rfl⟩ := stringValue_eq_ok hv
  exact ⟨i :: (us ++ [m, e]), by simp, .importFrom i m e w hi hm hw he hus⟩

/-- What stands behind `export`: a function, an expression, a variable or a list of names. -/
theorem places_exportStmt (henv : env.ReadsAt templates) (hinner : PlacesStmt templates env inner) :
    Yields env (exportStmt inner) fun s ↦ PlacedStmt templates (.stmt false s) := by
  intro ts s rest h
  simp only [exportStmt, keyword, bind_eq_ok, expect_eq_ok, peek_eq_ok] at h
  obtain ⟨x, _, ⟨rfl, hx⟩, k, _, ⟨hk, rfl⟩, h⟩ := h
  -- The three words that begin a declaration have a case each in the rule, and all are this one.
  have hvariable : ∀ {ts : List Token}, nextKind ts ∈ declarationWords →
      (do return Stmt.exportDecl (some x.pos) (.variable (← variableStmt)) [] false) env ts =
        .ok s rest →
          ∃ used, x :: ts = used ++ rest ∧ PlacedStmt templates (.stmt false s) used := by
    intro ts hword h
    simp only [bind_eq_ok, pure_eq_ok] at h
    obtain ⟨v, _, hv, rfl, rfl⟩ := h
    obtain ⟨us, e, rfl, he, hus⟩ := variableStmt_eq_ok henv hword hv
    exact ⟨x :: (us ++ [e]), by simp, .exportVariable x e hx he hus⟩
  -- One case for each kind of token behind `export`, the default first.
  split at h
  · simp only [atKeyword, bind_eq_ok, next_eq_ok, check_eq_ok] at h
    obtain ⟨d, _, rfl, _, _, ⟨rfl, rfl⟩, h⟩ := h
    split at h
    · simp only [bind_eq_ok, pure_eq_ok] at h
      obtain ⟨s, _, hs, rfl, rfl⟩ := h
      obtain ⟨us, p, n, ps, ss, rfl, rfl, hus⟩ := functionDecl_eq_ok hinner hs
      exact ⟨x :: d :: us, rfl, .exportDefaultFunction _ x d hx hk.symm hus⟩
    · simp only [mark, bind_eq_ok, expect_eq_ok, pure_eq_ok] at h
      obtain ⟨value, _, hvalue, e, _, ⟨rfl, he⟩, rfl, rfl⟩ := h
      obtain ⟨us, rfl, hus⟩ := places_expr henv hvalue
      exact ⟨x :: d :: (us ++ [e]), by simp, .exportDefault x d e hx hk.symm he hus⟩
  · simp only [bind_eq_ok, pure_eq_ok] at h
    obtain ⟨s, _, hs, rfl, rfl⟩ := h
    obtain ⟨us, p, n, ps, ss, rfl, rfl, hus⟩ := functionDecl_eq_ok hinner hs
    exact ⟨x :: us, rfl, .exportFunction _ x hx hus⟩
  · exact hvariable (by rw [← hk]; decide) h
  · exact hvariable (by rw [← hk]; decide) h
  · exact hvariable (by rw [← hk]; decide) h
  · simp only [mark, bind_eq_ok, next_eq_ok, expect_eq_ok, pure_eq_ok] at h
    obtain ⟨l, _, rfl, ns, _, hns, r, _, ⟨rfl, hr⟩, e, _, ⟨rfl, he⟩, rfl, rfl⟩ := h
    obtain ⟨us, rfl, hus⟩ := yields_listed .closeBrace yields_exportedName hns
    exact ⟨x :: l :: (us ++ [r, e]), by simp, .exportNames x l r e hx hk.symm hr he hus⟩
  · exact absurd h fail_ne_ok

/-- An expression as a statement stands where its first token does, so it has to be seen that it has
one. -/
theorem places_exprStmt (henv : env.ReadsAt templates) :
    Yields env exprStmt fun s ↦ PlacedStmt templates (.stmt false s) := by
  intro ts s rest h
  simp only [exprStmt, mark, bind_eq_ok, peekToken_eq_ok, expect_eq_ok, pure_eq_ok] at h
  obtain ⟨_, _, ⟨rfl, rfl⟩, value, _, hvalue, e, _, ⟨rfl, he⟩, rfl, rfl⟩ := h
  obtain ⟨us, rfl, hus⟩ := places_expr henv hvalue
  -- An expression is never written by no tokens, since it stands at its first one.
  cases us with
  | nil =>
    obtain ⟨p, -, hp⟩ := hus.starts rfl
    cases hp
  | cons t us => exact ⟨t :: (us ++ [e]), by simp, .expr e he hus⟩

/-- An `if`, with `else` or without. -/
theorem places_ifStmt (henv : env.ReadsAt templates) (hinner : PlacesStmt templates env inner) :
    PlacesStmt templates env (ifStmt inner) := by
  intro ts s rest h
  simp only [ifStmt, keyword, atKeyword, bind_eq_ok, expect_eq_ok, check_eq_ok] at h
  obtain ⟨w, _, ⟨rfl, hw⟩, test, _, htest, yes, _, hyes, _, _, ⟨rfl, rfl⟩, h⟩ := h
  obtain ⟨l, us, r, rfl, hl, hr, hus⟩ := condition_eq_ok henv htest
  obtain ⟨vs, ajar, rfl, hvs, hfollow⟩ := body_eq_ok hinner hyes
  split at h
  · rename_i helse
    simp only [bind_eq_ok, next_eq_ok, pure_eq_ok] at h
    obtain ⟨x, _, rfl, no, _, hno, rfl, rfl⟩ := h
    obtain ⟨ws, ajar', rfl, hws, hfollow'⟩ := body_eq_ok hinner hno
    have hx : x.kind = .keyword .elseWord := by simpa using helse
    -- If the first branch were ajar, no `else` could follow it, but there is one.
    obtain rfl : ajar = false := by
      cases ajar with
      | false => rfl
      | true => exact absurd hx (hfollow rfl)
    refine ⟨w :: l :: (us ++ r :: (vs ++ x :: ws)), ajar', by simp, ?_, hfollow'⟩
    exact .ifElse w l r x hw hl hr hx hus hvs hws
  · rename_i helse
    obtain ⟨rfl, rfl⟩ := pure_eq_ok.mp h
    -- Without `else` the statement is ajar, and no `else` follows because the rule has looked.
    refine ⟨w :: l :: (us ++ r :: vs), true, by simp, .ifThen w l r hw hl hr hus hvs, ?_⟩
    exact fun _ ↦ by simpa using helse

theorem places_forStmt (henv : env.ReadsAt templates) (hinner : PlacesStmt templates env inner) :
    PlacesStmt templates env (forStmt inner) := by
  intro ts s rest h
  simp only [forStmt, keyword, mark, bind_eq_ok, expect_eq_ok, pure_eq_ok] at h
  obtain ⟨w, _, ⟨rfl, hw⟩, l, _, ⟨rfl, hl⟩, init, _, hinit, m, _, ⟨rfl, hm⟩, test, _, htest, e, _,
    ⟨rfl, he⟩, update, _, hupdate, r, _, ⟨rfl, hr⟩, ss, _, hss, rfl, rfl⟩ := h
  obtain ⟨us, rfl, hus⟩ := yields_forInit henv hinit
  obtain ⟨vs, rfl, hvs⟩ := yields_exprUnless henv .semicolon htest
  obtain ⟨ws, rfl, hws⟩ := yields_exprUnless henv .closeParen hupdate
  obtain ⟨xs, ajar, rfl, hxs, hfollow⟩ := body_eq_ok hinner hss
  refine ⟨w :: l :: (us ++ m :: (vs ++ e :: (ws ++ r :: xs))), ajar, by simp, ?_, hfollow⟩
  exact .forLoop w l m e r hw hl hm he hr hus hvs hws hxs

theorem places_whileStmt (henv : env.ReadsAt templates)
    (hinner : PlacesStmt templates env inner) : PlacesStmt templates env (whileStmt inner) := by
  intro ts s rest h
  simp only [whileStmt, keyword, bind_eq_ok, expect_eq_ok, pure_eq_ok] at h
  obtain ⟨w, _, ⟨rfl, hw⟩, test, _, htest, ss, _, hss, rfl, rfl⟩ := h
  obtain ⟨l, us, r, rfl, hl, hr, hus⟩ := condition_eq_ok henv htest
  obtain ⟨vs, ajar, rfl, hvs, hfollow⟩ := body_eq_ok hinner hss
  refine ⟨w :: l :: (us ++ r :: vs), ajar, by simp, ?_, hfollow⟩
  exact .whileLoop w l r hw hl hr hus hvs

/-- **The rule for the first token places the statement it returns.** -/
theorem places_statementRule (henv : env.ReadsAt templates)
    (hinner : PlacesStmt templates env inner) {k : Kind} {ts rest : List Token} {s : Stmt}
    (hk : nextKind ts = k) (h : statementRule inner k env ts = .ok s rest) : ∃ used ajar,
      ts = used ++ rest ∧ PlacedStmt templates (.stmt ajar s) used ∧
      MayFollow ajar (nextKind rest) := by
  -- A statement that cannot be ajar.
  have hclosed : (∃ used, ts = used ++ rest ∧ PlacedStmt templates (.stmt false s) used) →
      ∃ used ajar, ts = used ++ rest ∧ PlacedStmt templates (.stmt ajar s) used ∧
        MayFollow ajar (nextKind rest) :=
    fun ⟨used, hts, hused⟩ ↦ ⟨used, false, hts, hused, .closed _⟩
  have hvariable : nextKind ts ∈ declarationWords →
      (do return Stmt.variable (← variableStmt)) env ts = .ok s rest →
      ∃ used, ts = used ++ rest ∧ PlacedStmt templates (.stmt false s) used := by
    intro hword h
    simp only [bind_eq_ok, pure_eq_ok] at h
    obtain ⟨v, _, hv, rfl, rfl⟩ := h
    obtain ⟨us, e, rfl, he, hus⟩ := variableStmt_eq_ok henv hword hv
    exact ⟨us ++ [e], by simp, .variable e he hus⟩
  -- One case for each kind of token, in the order of the rule.  Only branches and loops can be
  -- ajar.
  unfold statementRule at h
  split at h
  · exact hclosed (places_commentStmt (.inl rfl) hk h)
  · exact hclosed (places_commentStmt (.inr rfl) hk h)
  · exact hclosed (places_importStmt h)
  · exact hclosed (places_exportStmt henv hinner h)
  · exact hclosed (hvariable (by rw [hk]; decide) h)
  · exact hclosed (hvariable (by rw [hk]; decide) h)
  · exact hclosed (hvariable (by rw [hk]; decide) h)
  · simp only [printStmt, keyword, mark, bind_eq_ok, expect_eq_ok, pure_eq_ok] at h
    obtain ⟨w, _, ⟨rfl, hw⟩, es, _, hes, e, _, ⟨rfl, he⟩, rfl, rfl⟩ := h
    obtain ⟨us, rfl, hus⟩ := yields_separated (places_expr henv) hes
    exact hclosed ⟨w :: (us ++ [e]), by simp, .print w e hw he (placed_items hus)⟩
  · simp only [consoleStmt, closed_arguments, mark, bind_eq_ok, expect_eq_ok, pure_eq_ok] at h
    obtain ⟨w, _, ⟨rfl, hw⟩, es, _, hes, e, _, ⟨rfl, he⟩, rfl, rfl⟩ := h
    obtain ⟨l, us, r, rfl, hl, hr, hus⟩ := arguments_eq_ok (places_whole henv) hes
    exact hclosed ⟨w :: l :: (us ++ [r, e]), by simp, .console w l r e hw hl hr he hus⟩
  · obtain ⟨us, p, n, ps, ss, rfl, rfl, hus⟩ := functionDecl_eq_ok hinner h
    exact hclosed ⟨us, rfl, hus⟩
  · simp only [returnStmt, keyword, mark, bind_eq_ok, expect_eq_ok, pure_eq_ok] at h
    obtain ⟨w, _, ⟨rfl, hw⟩, v, _, hv, e, _, ⟨rfl, he⟩, rfl, rfl⟩ := h
    obtain ⟨us, rfl, hus⟩ := yields_exprUnless henv .semicolon hv
    exact hclosed ⟨w :: (us ++ [e]), by simp, .ret w e hw he hus⟩
  · exact places_ifStmt henv hinner h
  · exact places_forStmt henv hinner h
  · exact places_whileStmt henv hinner h
  · simp only [breakStmt, mark, bind_eq_ok, next_eq_ok, expect_eq_ok, pure_eq_ok] at h
    obtain ⟨w, _, rfl, e, _, ⟨rfl, he⟩, rfl, rfl⟩ := h
    exact hclosed ⟨[w, e], rfl, .breakLoop w e hk he⟩
  · simp only [continueStmt, mark, bind_eq_ok, next_eq_ok, expect_eq_ok, pure_eq_ok] at h
    obtain ⟨w, _, rfl, e, _, ⟨rfl, he⟩, rfl, rfl⟩ := h
    exact hclosed ⟨[w, e], rfl, .continueLoop w e hk he⟩
  · exact hclosed (places_exprStmt henv h)

end Rules

/-! ### Closing the recursion -/

/-- The counted family, by induction over the count.  With a count of zero a statement can still be
an expression, as if nothing stood inside it. -/
theorem places_stmtAt (henv : env.ReadsAt templates) (n : Nat) :
    PlacesStmt templates env (stmtAt n) := by
  induction n with
  | zero =>
    intro ts s rest h
    obtain ⟨used, hts, hused⟩ := places_exprStmt henv h
    exact ⟨used, false, hts, hused, .closed _⟩
  | succ n ih =>
    intro ts s rest h
    simp only [stmtAt, statement, bind_eq_ok, peek_eq_ok] at h
    obtain ⟨_, _, ⟨rfl, rfl⟩, h⟩ := h
    exact places_statementRule henv ih rfl h

/-- **Only writings of a statement are parsed to it**, and it stands where they do. -/
theorem places_stmt (henv : env.ReadsAt templates) : PlacesStmt templates env stmt :=
  fun _ _ _ h ↦ places_stmtAt henv (_ + 1) h

/-- The repetition ends at one of the kinds it stops at. -/
theorem untilAt_stops {α : Type} {stop : List Kind} (hend : .endOfInput ∈ stop) {item : Parse α}
    (hitem : ∀ k, Agree k 1 item item) (n : Nat) {ts rest : List Token} {as : List α}
    (hn : ts.length ≤ n) (h : untilAt stop item n env ts = .ok as rest) : nextKind rest ∈ stop := by
  induction n generalizing ts as with
  | zero =>
    obtain ⟨-, rfl⟩ := pure_eq_ok.mp h
    obtain rfl := List.length_eq_zero_iff.mp (Nat.le_zero.mp hn)
    exact hend
  | succ n ih =>
    simp only [untilAt, bind_eq_ok, check_eq_ok] at h
    obtain ⟨_, _, ⟨rfl, rfl⟩, h⟩ := h
    split at h
    · rename_i hstop
      obtain ⟨-, rfl⟩ := pure_eq_ok.mp h
      exact List.contains_iff_mem.mp hstop
    · -- A statement takes a token, so the rest is shorter and the count is still enough.
      simp only [bind_eq_ok, pure_eq_ok] at h
      obtain ⟨a, mid, ha, as, _, has, -, rfl⟩ := h
      have := (hitem ts.length).takes (Nat.le_refl _) ha
      exact ih (by omega) has

/-- A program is what its statements are read as. -/
theorem untilKind_of_program {ts rest : List Token} {p : Program}
    (h : program env ts = .ok p rest) : untilKind [.endOfInput] stmt env ts = .ok p.body rest := by
  rw [program] at h
  cases hbody : untilKind [.endOfInput] stmt env ts with
  | error f rest =>
    rw [hbody] at h
    cases f <;> cases h
  | ok body rest =>
    rw [hbody] at h
    cases h
    rfl

/-- A program is read up to the end of the stream, or to what claims to be it. -/
theorem nextKind_of_program {ts rest : List Token} {p : Program}
    (h : program env ts = .ok p rest) : nextKind rest = .endOfInput :=
  List.mem_singleton.mp
    (untilAt_stops (by decide) agree_stmt _ (Nat.le_refl _) (untilKind_of_program h))

/-- What is parsed has been read as a program. -/
theorem program_of_parse {ts : List Token} {p : Program} (h : parse ts = .ok p) :
    ∃ rest, program (Context.of ts Pos.origin) ts = .ok p rest := by
  rw [parse] at h
  cases hrun : program (Context.of ts Pos.origin) ts with
  | error f rest =>
    rw [hrun] at h
    cases h
  | ok q rest =>
    rw [hrun] at h
    cases h
    exact ⟨rest, rfl⟩

/-- What is parsed to a program writes it, up to a token that marks the end, and its statements
stand where their tokens do. -/
theorem placed_of_parse {ts : List Token} (henv : (Context.of ts Pos.origin).ReadsAt templates)
    {p : Program} (h : parse ts = .ok p) : ∃ used rest, ts = used ++ rest ∧
      nextKind rest = .endOfInput ∧ PlacedStmt templates (.stmts p.body) used := by
  obtain ⟨rest, hrun⟩ := program_of_parse h
  obtain ⟨used, hts, hused⟩ := yields_untilAt _ (places_stmt henv) _ (untilKind_of_program hrun)
  exact ⟨used, rest, hts, nextKind_of_program hrun, hused⟩

/-! ## Without positions -/

section Writings

variable {templates : Text → List Text → List Expr → Prop}

/-- The same without positions: no statement is written by no tokens. -/
theorem WrittenStmt.exists_cons {ajar : Bool} {s : Stmt} {ts : List Token}
    (h : WrittenStmt templates (.stmt ajar s) ts) : ∃ t us, ts = t :: us := by
  refine List.exists_cons_of_ne_nil ?_
  cases h <;> simp

/-- A body that has been read is written by the tokens taken. -/
theorem written_body (henv : env.ReadsOnly templates) {ts rest : List Token} {ss : List Stmt}
    (h : body stmt env ts = .ok ss rest) : ∃ used ajar, ts = used ++ rest ∧
      WrittenStmt templates (.body ajar ss) used ∧ MayFollow ajar (nextKind rest) := by
  obtain ⟨used, ajar, hts, hused, hfollow⟩ := body_eq_ok (places_stmt henv.readsAt) h
  exact ⟨used, ajar, hts, hused.written templates_of_atTokens, hfollow⟩

/-- **What is parsed to a program writes it**, up to a token that marks the end. -/
theorem written_of_parse {ts : List Token} (henv : (Context.of ts Pos.origin).ReadsOnly templates)
    {p : Program} (h : parse ts = .ok p) : ∃ used rest, ts = used ++ rest ∧
      nextKind rest = .endOfInput ∧ WrittenStmt templates (.stmts p.body) used := by
  obtain ⟨used, rest, hts, hend, hused⟩ := placed_of_parse henv.readsAt h
  exact ⟨used, rest, hts, hend, hused.written templates_of_atTokens⟩

end Writings

end Advplc.Grammar

import Advplc.Proofs.Grammar.Completeness.Expression

/-!
# Every writing of a statement is parsed to that statement

What expressions need has been shown in `Advplc.Proofs.Grammar.Completeness.Expression`; statements
are built on it, one rule after another, and `WrittenStmt.taken` puts the rules together.

`Reads env p same follows ts` says that the parser `p` takes the tokens `ts` for what they write,
and leaves the rest of the stream, if that begins as `follows` demands.  Each rule has such a lemma,
with its own demand.  A first value must not be followed by an operator that would go on with it,
and a name not by the word `as`.

Of a statement there is one thing to demand: if it is ajar, that is, if it ends with a branch that
lacks its `else`, it must not be followed by `else` (`MayFollow`).  A statement in a list is
followed by another statement or by the end of the list, neither of which begins with `else`.

A rule is also chosen by the first token, so statements, like expressions, come with the kinds they
can begin with (`statementStart`, `Begins`).
-/

set_option autoImplicit false

namespace Advplc.Grammar

open Script Parse

variable {templates : Text → List Text → List Expr → Prop} {env : Context} {ts : List Token}

/-! ## The parts of statements -/

/-- Where an expression may be missing, it is known by its first token whether it is.  The mark
behind it must be one that no expression begins with, and that does not go on with one. -/
theorem WrittenOption.reads (henv : env.Fills templates) (close : Mark)
    (hclose : .mark close ∉ Slot.assignment.goesOn ∧ .mark close ∉ expressionStart)
    {v : Option Expr} (h : WrittenOption templates v ts) :
    Reads env (exprUnless close) (fun v' ↦ v'.map Expr.bare = v.map Expr.bare)
      (· = .mark close) ts := by
  cases h with
  | absent =>
    refine ⟨none, rfl, fun rest hrest ↦ ?_⟩
    have hmem : nextKind rest ∈ [Kind.mark close] := by simpa using hrest
    rw [List.nil_append, exprUnless, atMark, check_bind_of_mem hmem]
    rfl
  | @present e ts he =>
    obtain ⟨hbegin, e', hsame, hrun⟩ := he.taken henv
    refine ⟨some e', by simp [hsame], fun rest hrest ↦ ?_⟩
    -- An expression that is there does not begin with the mark that would close it.
    have hstart : nextKind (ts ++ rest) ∉ [Kind.mark close] := fun hmem ↦
      hclose.2 (List.mem_singleton.mp hmem ▸ hbegin.nextKind_mem rest)
    have hvalue : expr env (ts ++ rest) = .ok e' rest := hrun rest (by rw [hrest]; exact hclose.1)
    rw [exprUnless, atMark, check_bind_of_not_mem hstart]
    simp only [Bool.false_eq_true, if_false]
    rw [bind_of_ok hvalue]
    rfl

/-- The first value of a variable is read up to anything that does not go on with it. -/
theorem WrittenValue.reads (henv : env.Fills templates) {v : Option Expr}
    (h : WrittenValue templates v ts) :
    Reads env firstValue (fun v' ↦ v'.map Expr.bare = v.map Expr.bare)
      (· ∉ Slot.assignment.goesOn) ts := by
  cases h with
  | absent =>
    refine ⟨none, rfl, fun rest hrest ↦ ?_⟩
    -- The sign of assignment is among the tokens that go on with an expression, so it does not
    -- follow.
    have hassign : nextKind rest ∉ [Kind.mark .assign] := fun hmem ↦
      hrest (List.mem_singleton.mp hmem ▸ by decide)
    rw [List.nil_append, firstValue, atMark, check_bind_of_not_mem hassign]
    rfl
  | @present a ha e ts he =>
    obtain ⟨-, e', hsame, hrun⟩ := he.taken henv
    refine ⟨some e', by simp [hsame], fun rest hrest ↦ ?_⟩
    have hassign : nextKind (a :: (ts ++ rest)) ∈ [Kind.mark .assign] := by simpa using ha
    have hvalue : expr env (ts ++ rest) = .ok e' rest := hrun rest hrest
    rw [List.cons_append, firstValue, atMark, check_bind_of_mem hassign]
    simp only [if_true]
    rw [bind_of_ok (next_cons a env _), bind_of_ok hvalue]
    rfl

theorem WrittenVariable.begins {v : Variable} (h : WrittenVariable templates v ts) :
    Begins declarationWords ts := by
  cases h with
  | declared p w n hw hn h => exact ⟨w, _, rfl, hw⟩

/-- A declaration is read up to what does not go on with its first value. -/
theorem WrittenVariable.reads (henv : env.Fills templates) {v : Variable}
    (h : WrittenVariable templates v ts) :
    Reads env variableDecl (fun v' ↦ v'.bare = v.bare) (· ∉ Slot.assignment.goesOn) ts := by
  cases h with
  | declared p w n hw hn h =>
    obtain ⟨value', hsame, hrun⟩ := h.reads henv
    -- The tree that is returned holds the positions of the tokens, and differs from the given one
    -- in nothing else.
    refine ⟨⟨some w.pos, n.lexeme, value', w.lexeme⟩, by simp [Variable.bare, hsame],
      fun rest hrest ↦ ?_⟩
    rw [List.cons_append, List.cons_append, variableDecl, bind_of_ok (next_cons w env _),
      bind_of_ok (expect_cons hn env _), bind_of_ok (hrun rest hrest)]
    rfl

/-- A declaration and its semicolon, as they stand in a statement. -/
theorem WrittenVariable.reads_stmt (henv : env.Fills templates) {v : Variable} {e : Token}
    (he : e.kind = .mark .semicolon) (h : WrittenVariable templates v ts) : ∃ v', v'.bare = v.bare ∧
      ∀ rest, variableStmt env (ts ++ e :: rest) = .ok v' rest := by
  obtain ⟨v', hsame, hrun⟩ := h.reads henv
  refine ⟨v', hsame, fun rest ↦ ?_⟩
  rw [variableStmt, bind_of_ok (hrun (e :: rest) (by rw [nextKind_cons, he]; decide)), mark,
    bind_of_ok (expect_cons he env rest)]
  rfl

/-- The beginning of a `for` loop is read up to its semicolon. -/
theorem WrittenInit.reads (henv : env.Fills templates) {i : ForInit}
    (h : WrittenInit templates i ts) :
    Reads env forInit (fun i' ↦ i'.bare = i.bare) (· = .mark .semicolon) ts := by
  -- Neither an expression nor the semicolon is taken for a declaration.
  have hempty : ∀ {v : Option Expr} {ts : List Token}, WrittenOption templates v ts →
      ∀ rest, nextKind rest = .mark .semicolon → nextKind (ts ++ rest) ∉ declarationWords := by
    intro v ts hv rest hrest
    cases hv with
    | absent =>
      rw [List.nil_append, hrest]
      decide
    | present he =>
      have hall : ∀ k ∈ expressionStart, k ∉ declarationWords := by decide
      exact hall _ ((he.taken henv).1.nextKind_mem rest)
  cases h with
  -- Nothing at all is read as an expression that is missing.
  | nothing =>
    have habsent : WrittenOption templates none [] := .absent
    obtain ⟨v', hsame, hrun⟩ := habsent.reads henv .semicolon (by decide)
    refine ⟨.nothing, rfl, fun rest hrest ↦ ?_⟩
    obtain rfl : v' = none := by simpa using hsame
    rw [forInit, check_bind_of_not_mem (hempty habsent rest hrest)]
    simp only [Bool.false_eq_true, if_false]
    rw [bind_of_ok (hrun rest hrest)]
    rfl
  | «variable» h =>
    obtain ⟨v', hsame, hrun⟩ := h.reads henv
    refine ⟨.variable v', by simp [ForInit.bare, hsame], fun rest hrest ↦ ?_⟩
    rw [forInit, check_bind_of_mem (h.begins.nextKind_mem rest)]
    simp only [if_true]
    rw [bind_of_ok (hrun rest (by rw [hrest]; decide))]
    rfl
  | @expr e ts h =>
    obtain ⟨v', hsame, hrun⟩ := (WrittenOption.present h).reads henv .semicolon (by decide)
    obtain ⟨e', rfl, hvalue⟩ : ∃ e', v' = some e' ∧ e'.bare = e.bare := by simpa using hsame
    refine ⟨.expr e', by simp [ForInit.bare, hvalue], fun rest hrest ↦ ?_⟩
    rw [forInit, check_bind_of_not_mem (hempty (.present h) rest hrest)]
    simp only [Bool.false_eq_true, if_false]
    rw [bind_of_ok (hrun rest hrest)]
    rfl

/-! ### Imports and exports -/

/-- A name is read up to anything that is not the word `as`. -/
theorem WrittenRenamed.reads (env : Context) {x : Lexeme × Option Lexeme}
    (h : WrittenRenamed x ts) : Reads env renamed (· = x) (· ≠ .identifier) ts := by
  cases h with
  | plain n hn =>
    refine ⟨(n.lexeme, none), rfl, fun rest hrest ↦ ?_⟩
    -- The next token is no identifier, and so it is not the word `as`.
    have has : atWord "as" env rest = .ok false rest := by
      rw [atWord]
      cases rest with
      | nil => rfl
      | cons t ts =>
        rw [nextKind_cons] at hrest
        simp [hrest]
    rw [List.singleton_append, renamed, bind_of_ok (expect_cons hn env rest), bind_of_ok has]
    rfl
  | another n a m hn ha has hm =>
    refine ⟨(n.lexeme, some m.lexeme), rfl, fun rest _ ↦ ?_⟩
    have hat : atWord "as" env (a :: m :: rest) = .ok true (a :: m :: rest) := by
      simp only [atWord, List.head?_cons, Option.any_some, ha, has, and_self, decide_true]
    simp only [List.cons_append, List.nil_append]
    rw [renamed, bind_of_ok (expect_cons hn env _), bind_of_ok hat]
    simp only [if_true]
    rw [bind_of_ok (next_cons a env _), bind_of_ok (expect_cons hm env rest)]
    rfl

theorem WrittenRenamed.begins {x : Lexeme × Option Lexeme} (h : WrittenRenamed x ts) :
    Begins [.identifier] ts := by
  cases h with
  | plain n hn => exact ⟨n, _, rfl, by simpa using hn⟩
  | another n a m hn => exact ⟨n, _, rfl, by simpa using hn⟩

/-- Names between braces are read up to the brace that closes them. -/
theorem reads_names (env : Context) {α : Type} {item : Parse α} {written : α → List Token → Prop}
    (hitem : ∀ k, Agree k 1 item item)
    (hbegins : ∀ a ts, written a ts → Begins [.identifier] ts)
    (hreads : ∀ a ts, written a ts → Reads env item (· = a) (· ≠ .identifier) ts) {as : List α}
    (h : WrittenListed written as ts) :
    Reads env (listed .closeBrace item) (· = as) (· = .mark .closeBrace) ts := by
  -- The list goes on as long as the brace does not come, and no item begins with it.
  have hstart : ∀ a us, written a us → ∀ rest, nextKind (us ++ rest) ≠ .mark .closeBrace := by
    intro a us ha rest hrest
    have hmem := (hbegins a us ha).nextKind_mem rest
    rw [hrest] at hmem
    exact absurd hmem (by decide)
  obtain ⟨as', hsame, hrun⟩ := reads_listed (· ≠ .identifier) .closeBrace (by decide) hitem
    (by decide) (by decide) (h.imp fun a us ha ↦ ⟨hstart a us ha, hreads a us ha⟩)
  have heq : as' = as := by
    rw [← List.forall₂_eq_eq_eq]
    exact hsame.flip
  exact ⟨as', heq, hrun⟩

theorem WrittenSpecifier.reads (env : Context) {x : Specifier} (h : WrittenSpecifier x ts) :
    Reads env namedSpecifier (· = x) (· ≠ .identifier) ts := by
  cases h with
  | @named x _ h =>
    obtain ⟨_, rfl, hrun⟩ := h.reads env
    refine ⟨_, rfl, fun rest hrest ↦ ?_⟩
    rw [namedSpecifier, bind_of_ok (hrun rest hrest)]
    rfl

/-- A name that is exported, and what it is called elsewhere. -/
theorem WrittenExported.reads (env : Context) {x : Lexeme} (h : WrittenExported x ts) :
    Reads env exportedName (· = x) (· ≠ .identifier) ts := by
  -- The two names are put together as one text, so the cases are those of the rule.
  cases h with
  | plain h =>
    obtain ⟨_, rfl, hrun⟩ := h.reads env
    refine ⟨_, rfl, fun rest hrest ↦ ?_⟩
    rw [exportedName, bind_of_ok (hrun rest hrest)]
    rfl
  | another h =>
    obtain ⟨_, rfl, hrun⟩ := h.reads env
    refine ⟨_, rfl, fun rest hrest ↦ ?_⟩
    rw [exportedName, bind_of_ok (hrun rest hrest)]
    rfl

theorem WrittenSpecifier.begins {x : Specifier} (h : WrittenSpecifier x ts) :
    Begins [.identifier] ts := by
  cases h with
  | named h => exact h.begins

theorem WrittenExported.begins {x : Lexeme} (h : WrittenExported x ts) :
    Begins [.identifier] ts := by
  cases h with
  | plain h => exact h.begins
  | another h => exact h.begins

/-- Names between braces, with their braces. -/
theorem importNamed_of_written (env : Context) {l r : Token} (hl : l.kind = .mark .openBrace)
    (hr : r.kind = .mark .closeBrace) {xs : List Specifier}
    (h : WrittenListed WrittenSpecifier xs ts) (rest : List Token) :
    importNamed env (l :: (ts ++ r :: rest)) = .ok xs rest := by
  obtain ⟨_, rfl, hrun⟩ := reads_names env (fun _ ↦ agree_namedSpecifier)
    (fun _ _ h ↦ h.begins) (fun _ _ h ↦ h.reads env) h
  rw [importNamed, mark, bind_of_ok (expect_cons hl env _), bind_of_ok (hrun (r :: rest) hr), mark,
    bind_of_ok (expect_cons hr env rest)]
  rfl

theorem importNamespace_cons (env : Context) {s a n : Token} (hs : s.kind = .mark .star)
    (ha : a.kind = .identifier) (has : a.lexeme = "as") (hn : n.kind = .identifier)
    (rest : List Token) :
    importNamespace env (s :: a :: n :: rest) = .ok ⟨"namespace", "*", n.lexeme⟩ rest := by
  rw [importNamespace, mark, bind_of_ok (expect_cons hs env _), bind_of_ok (word_cons ha has env _),
    bind_of_ok (expect_cons hn env rest)]
  rfl

/-- What is imported besides the default is read in the same way behind a comma and without one,
although by two rules. -/
theorem WrittenFurther.runs {xs : List Specifier} (h : WrittenFurther xs ts) (rest : List Token) :
    importFurther env (ts ++ rest) = .ok xs rest ∧
      importSpecifiers env (ts ++ rest) = .ok xs rest := by
  cases h with
  | named l r hl hr h =>
    simp only [List.cons_append, List.append_assoc, List.nil_append]
    have hrun := importNamed_of_written env hl hr h rest
    constructor
    · rw [importFurther, atMark, check_bind_of_not_mem (by rw [nextKind_cons, hl]; decide)]
      exact hrun
    · rw [importSpecifiers, bind_of_ok (peek_apply env _), nextKind_cons, hl]
      exact hrun
  | module s a n hs ha has hn =>
    simp only [List.cons_append, List.nil_append]
    have hrun := importNamespace_cons env hs ha has hn rest
    constructor
    · rw [importFurther, atMark, check_bind_of_mem (by rw [nextKind_cons, hs]; decide)]
      simp only [if_true]
      rw [bind_of_ok hrun]
      rfl
    · rw [importSpecifiers, bind_of_ok (peek_apply env _), nextKind_cons, hs]
      show (importNamespace >>= _) env _ = _
      rw [bind_of_ok hrun]
      rfl

/-- It begins with a brace or a star, by which it is told from the default. -/
theorem WrittenFurther.begins {xs : List Specifier} (h : WrittenFurther xs ts) :
    Begins [.mark .openBrace, .mark .star] ts := by
  cases h with
  | named l r hl hr h => exact ⟨l, _, rfl, by rw [hl]; decide⟩
  | module s a n hs => exact ⟨s, _, rfl, by rw [hs]; decide⟩

/-- The default of a module, and then whatever else is imported. -/
theorem importSpecifiers_default {n : Token} (hn : n.kind = .identifier) (rest : List Token) :
    importSpecifiers env (n :: rest) = (do
      if ← atMark .comma then
        let _ ← next
        return ⟨"default", n.lexeme, n.lexeme⟩ :: (← importFurther)
      else return [⟨"default", n.lexeme, n.lexeme⟩] : Parse (List Specifier)) env rest := by
  rw [importSpecifiers, bind_of_ok (peek_apply env _), nextKind_cons, hn]
  -- The rule is chosen by a token that it reads once more.
  show (expect .identifier >>= _) env (n :: rest) = _
  rw [bind_of_ok (expect_cons hn env rest)]

/-- **What is imported is read up to the path of the module.** -/
theorem WrittenImport.runs {xs : List Specifier} (h : WrittenImport xs ts) {m : Token}
    (hm : m.kind = .string) (rest : List Token) :
    importClause env (ts ++ m :: rest) = .ok xs (m :: rest) := by
  -- Everything but a bare path begins with a token that is not a string.
  have hclause : ∀ (ts : List Token) {f : Token}, nextKind (ts ++ f :: m :: rest) ∉ [Kind.string] →
      f.kind = .keyword .fromWord → ∀ xs,
      importSpecifiers env (ts ++ f :: m :: rest) = .ok xs (f :: m :: rest) →
      importClause env (ts ++ f :: m :: rest) = .ok xs (m :: rest) := by
    intro ts f hstring hf xs hrun
    rw [importClause, check_bind_of_not_mem hstring]
    simp only [Bool.false_eq_true, if_false]
    rw [bind_of_ok hrun, keyword, bind_of_ok (expect_cons hf env _)]
    rfl
  cases h with
  -- Only the path is given, and nothing is imported under a name.
  | nothing =>
    rw [List.nil_append, importClause, check_bind_of_mem (by rw [nextKind_cons, hm]; decide)]
    rfl
  | further f hf h =>
    simp only [List.append_assoc, List.cons_append, List.nil_append]
    have hall : ∀ k ∈ [Kind.mark .openBrace, .mark .star], k ∉ [Kind.string] := by decide
    exact hclause _ (hall _ (h.begins.nextKind_mem _)) hf _ (h.runs _).2
  | default n f hn hf =>
    refine hclause [n] (by simp [hn]) hf _ ?_
    rw [List.singleton_append, importSpecifiers_default hn, atMark,
      check_bind_of_not_mem (by rw [nextKind_cons, hf]; decide)]
    rfl
  | @both n c f hn hc hf xs ts h =>
    simp only [List.append_assoc, List.cons_append, List.nil_append]
    refine hclause (n :: c :: ts) (by simp [hn]) hf _ ?_
    simp only [List.cons_append]
    rw [importSpecifiers_default hn, atMark,
      check_bind_of_mem (by rw [nextKind_cons, hc]; decide)]
    simp only [if_true]
    rw [bind_of_ok (next_cons c env _), bind_of_ok (h.runs _).1]
    rfl

theorem WrittenParameters.reads (env : Context) {ps : List Lexeme} (h : WrittenParameters ps ts) :
    Reads env parameterList (· = ps) (· = .mark .closeParen) ts := by
  cases h with
  | empty =>
    refine ⟨[], rfl, fun rest hrest ↦ ?_⟩
    rw [List.nil_append, parameterList, atMark, check_bind_of_mem (by simpa using hrest)]
    rfl
  | nonempty h =>
    have hbegins : Begins [.identifier] ts := h.begins fun a us ha ↦ by
      cases ha with
      | name t ht => exact ⟨t, [], rfl, by simpa using ht⟩
    have hitem : ∀ k, Agree k 1 parameter parameter := fun k ↦
      (agree_expect _).bind_one fun _ _ ↦ Agree.pure _
    have hread : ∀ p us, WrittenParameter p us → Reads env parameter (p = ·) (fun _ ↦ True) us := by
      intro p us hp
      cases hp with
      | name t ht => exact ⟨t.lexeme, rfl, fun rest _ ↦ bind_of_ok (expect_cons ht env rest) _⟩
    obtain ⟨ps', hsame, hrun⟩ := reads_separated _ hitem trivial (h.imp hread)
    -- Names are read as they are, so the lists are equal and not only similar.
    have heq : ps' = ps := by
      rw [← List.forall₂_eq_eq_eq]
      exact hsame.flip.imp fun _ _ h ↦ h.symm
    refine ⟨ps', heq, fun rest hrest ↦ ?_⟩
    -- The first name tells that the list is not empty.
    have hstart : nextKind (ts ++ rest) ∉ [Kind.mark .closeParen] := by
      have hmem := hbegins.nextKind_mem rest
      rw [List.mem_singleton] at hmem
      rw [hmem]
      decide
    rw [parameterList, atMark, check_bind_of_not_mem hstart]
    exact hrun rest ⟨trivial, by rw [hrest]; decide⟩

/-! ## Statements -/

/-- The kinds that begin a statement. -/
def statementStart : List Kind :=
  [.lineComment, .blockComment, .keyword .importWord, .keyword .exportWord, .keyword .letWord,
   .keyword .constWord, .keyword .varWord, .keyword .printWord, .consoleLog,
   .keyword .functionWord, .keyword .returnWord, .keyword .ifWord, .keyword .forWord,
   .keyword .whileWord, .keyword .breakWord, .keyword .continueWord] ++ expressionStart

/-- What may follow a statement: not the `else` that it would take for its own. -/
def MayFollow (ajar : Bool) (k : Kind) : Prop := ajar = true → k ≠ .keyword .elseWord

/-- The parser for statements takes `ts` for the statement `s`. -/
def TakesStmt (env : Context) (ajar : Bool) (s : Stmt) (ts : List Token) : Prop :=
  Begins statementStart ts ∧ Reads env stmt (fun s' ↦ s'.bare = s.bare) (MayFollow ajar) ts

/-- The parser for the body of a branch or a loop takes `ts` for the statements `ss`. -/
def TakesBody (env : Context) (ajar : Bool) (ss : List Stmt) (ts : List Token) : Prop :=
  Reads env (body stmt) (fun ss' ↦ Stmt.bareAll ss' = Stmt.bareAll ss) (MayFollow ajar) ts

/-- The kinds at which a list of statements ends. -/
def listEnds : List Kind := [.mark .closeBrace, .endOfInput]

/-- The parser for lists of statements takes `ts` for the statements `ss`, wherever it stops. -/
def TakesStmts (env : Context) (ss : List Stmt) (ts : List Token) : Prop :=
  (ts = [] ∨ Begins statementStart ts) ∧
    ∃ ss', Stmt.bareAll ss' = Stmt.bareAll ss ∧ ∀ stop, .endOfInput ∈ stop → stop ⊆ listEnds →
      ∀ rest, nextKind rest ∈ stop → untilKind stop stmt env (ts ++ rest) = .ok ss' rest

/-- A statement is read by the rule for its first token. -/
theorem TakesStmt.of_rule {k : Kind} {t : Token} {us : List Token} {s : Stmt} {ajar : Bool}
    (ht : t.kind = k) (hk : k ∈ statementStart) (s' : Stmt) (hsame : s'.bare = s.bare)
    (hrun : ∀ rest, MayFollow ajar (nextKind rest) →
      statementRule stmt k env (t :: (us ++ rest)) = .ok s' rest) :
    TakesStmt env ajar s (t :: us) := by
  refine ⟨⟨t, us, rfl, ht ▸ hk⟩, s', hsame, fun rest hrest ↦ ?_⟩
  rw [List.cons_append, stmt_apply, nextKind_cons, ht]
  exact hrun rest hrest

/-- A comment up to the end of its line, without its two slashes. -/
theorem TakesStmt.lineComment {t : Token} {w : Text} (p : Option Pos) (ht : t.kind = .lineComment)
    (hw : t.lexeme = .text w) : TakesStmt env false (.lineComment p (w.drop 2)) [t] := by
  refine .of_rule ht (by decide) (.lineComment (some t.pos) (w.drop 2)) rfl fun rest _ ↦ ?_
  show commentStmt env (t :: rest) = _
  rw [commentStmt_cons hw, if_pos ht]

/-- A comment between its two ends, without these. -/
theorem TakesStmt.blockComment {t : Token} {w : Text} (p : Option Pos)
    (ht : t.kind = .blockComment) (hw : t.lexeme = .text w) :
    TakesStmt env false (.blockComment p (Text.trimEnds 2 w)) [t] := by
  refine .of_rule ht (by decide) (.blockComment (some t.pos) (Text.trimEnds 2 w)) rfl
    fun rest _ ↦ ?_
  show commentStmt env (t :: rest) = _
  rw [commentStmt_cons hw, if_neg (by rw [ht]; decide)]

/-- An import: what is imported, and the path with its quotes removed. -/
theorem TakesStmt.importFrom {i m e : Token} {w : Text} {xs : List Specifier} (p : Option Pos)
    (hi : i.kind = .keyword .importWord) (hm : m.kind = .string) (hw : m.lexeme = .text w)
    (he : e.kind = .mark .semicolon) (h : WrittenImport xs ts) :
    TakesStmt env false (.importFrom p (Text.unescape (Text.trimEnds 1 w)) xs)
      (i :: (ts ++ [m, e])) := by
  refine .of_rule hi (by decide)
    (.importFrom (some i.pos) (Text.unescape (Text.trimEnds 1 w)) xs) rfl fun rest _ ↦ ?_
  simp only [List.append_assoc, List.cons_append, List.nil_append]
  show importStmt env _ = _
  have hsource : moduleSource env (m :: e :: rest) =
      .ok (Text.unescape (Text.trimEnds 1 w)) (e :: rest) := by
    rw [moduleSource, bind_of_ok (expect_cons hm env _)]
    exact stringValue_apply hw _
  rw [importStmt, keyword, bind_of_ok (expect_cons hi env _), bind_of_ok (h.runs hm _),
    bind_of_ok hsource, mark, bind_of_ok (expect_cons he env rest)]
  rfl

/-- A declaration is the one statement that begins with any of three words. -/
theorem TakesStmt.variable {v : Variable} {e : Token} (henv : env.Fills templates)
    (he : e.kind = .mark .semicolon) (h : WrittenVariable templates v ts) :
    TakesStmt env false (.variable v) (ts ++ [e]) := by
  obtain ⟨v', hsame, hrun⟩ := h.reads_stmt henv he
  -- All three lead to the same rule.
  have hall : ∀ k ∈ declarationWords, k ∈ statementStart ∧ statementRule stmt k =
      (do return Stmt.variable (← variableStmt)) := by
    intro k hk
    simp only [declarationWords, List.mem_cons, List.not_mem_nil, or_false] at hk
    rcases hk with rfl | rfl | rfl
    all_goals exact ⟨by decide, rfl⟩
  refine ⟨(h.begins.mono fun k hk ↦ (hall k hk).1).append _, .variable v', ?_, fun rest _ ↦ ?_⟩
  · simp only [Stmt.bare, hsame]
  rw [List.append_assoc, List.singleton_append, stmt_apply, (hall _ (h.begins.nextKind_mem _)).2,
    bind_of_ok (hrun rest)]
  rfl

/-- A `print` statement has at least one item. -/
theorem TakesStmt.print {es : List Expr} {w e : Token} (p : Option Pos)
    (hw : w.kind = .keyword .printWord) (he : e.kind = .mark .semicolon)
    (h : WrittenSeparated (Takes env .assignment) es ts) :
    TakesStmt env false (.output p .print es) (w :: (ts ++ [e])) := by
  obtain ⟨es', hsame, hrun⟩ := reads_items h
  refine .of_rule hw (by decide) (.output (some w.pos) .print es') ?_ fun rest _ ↦ ?_
  · rw [Stmt.bare, Stmt.bare, hsame]
  -- The semicolon does not go on with the last item.
  have hitems := hrun (e :: rest) (by rw [nextKind_cons, he]; decide)
  show printStmt env _ = _
  rw [List.append_assoc, List.singleton_append, printStmt, keyword,
    bind_of_ok (expect_cons hw env _), bind_of_ok hitems, mark,
    bind_of_ok (expect_cons he env rest)]
  rfl

/-- The items of `console.log` are arguments, so there may be none. -/
theorem TakesStmt.console {es : List Expr} {w l r e : Token} (p : Option Pos)
    (hw : w.kind = .consoleLog) (hl : l.kind = .mark .openParen) (hr : r.kind = .mark .closeParen)
    (he : e.kind = .mark .semicolon) (h : TakesArguments env es ts) :
    TakesStmt env false (.output p .console es) (w :: l :: (ts ++ [r, e])) := by
  obtain ⟨es', hsame, hrun⟩ := arguments_of_takes hl hr h
  refine .of_rule hw (by decide) (.output (some w.pos) .console es') ?_ fun rest _ ↦ ?_
  · rw [Stmt.bare, Stmt.bare, hsame]
  simp only [List.append_assoc, List.cons_append, List.nil_append]
  show consoleStmt env _ = _
  rw [consoleStmt, bind_of_ok (expect_cons hw env _), closed_arguments, bind_of_ok (hrun _), mark,
    bind_of_ok (expect_cons he env rest)]
  rfl

theorem TakesStmt.ret {v : Option Expr} {w e : Token} (henv : env.Fills templates) (p : Option Pos)
    (hw : w.kind = .keyword .returnWord) (he : e.kind = .mark .semicolon)
    (h : WrittenOption templates v ts) : TakesStmt env false (.ret p v) (w :: (ts ++ [e])) := by
  obtain ⟨v', hsame, hrun⟩ := h.reads henv .semicolon (by decide)
  refine .of_rule hw (by decide) (.ret (some w.pos) v') ?_ fun rest _ ↦ ?_
  · rw [Stmt.bare, Stmt.bare, hsame]
  show returnStmt env _ = _
  rw [List.append_assoc, List.singleton_append, returnStmt, keyword,
    bind_of_ok (expect_cons hw env _), bind_of_ok (hrun (e :: rest) he), mark,
    bind_of_ok (expect_cons he env rest)]
  rfl

theorem TakesStmt.breakLoop {w e : Token} (p : Option Pos) (hw : w.kind = .keyword .breakWord)
    (he : e.kind = .mark .semicolon) : TakesStmt env false (.breakLoop p) [w, e] := by
  refine .of_rule hw (by decide) (.breakLoop (some w.pos)) rfl fun rest _ ↦ ?_
  show breakStmt env (w :: e :: rest) = _
  rw [breakStmt, bind_of_ok (next_cons w env _), mark, bind_of_ok (expect_cons he env rest)]
  rfl

theorem TakesStmt.continueLoop {w e : Token} (p : Option Pos)
    (hw : w.kind = .keyword .continueWord) (he : e.kind = .mark .semicolon) :
    TakesStmt env false (.continueLoop p) [w, e] := by
  refine .of_rule hw (by decide) (.continueLoop (some w.pos)) rfl fun rest _ ↦ ?_
  show continueStmt env (w :: e :: rest) = _
  rw [continueStmt, bind_of_ok (next_cons w env _), mark, bind_of_ok (expect_cons he env rest)]
  rfl

/-- An expression as a statement.  Anything that no other rule begins with leads here. -/
theorem TakesStmt.expr {value : Expr} {e : Token} (p : Option Pos)
    (he : e.kind = .mark .semicolon) (h : Takes env .assignment value ts) :
    TakesStmt env false (.expr p value) (ts ++ [e]) := by
  obtain ⟨hbegin, value', hsame, hrun⟩ := h
  obtain ⟨t, us, rfl, ht⟩ := hbegin
  -- The kinds that begin an expression are not those that another rule is for.
  have hrule : ∀ k ∈ expressionStart, statementRule stmt k = exprStmt := by
    intro k hk
    simp only [expressionStart, List.mem_cons, List.not_mem_nil, or_false] at hk
    rcases hk with rfl | rfl | rfl | rfl | rfl | rfl | rfl | rfl | rfl | rfl | rfl | rfl | rfl | rfl
    all_goals rfl
  refine .of_rule rfl (List.mem_append_right _ ht) (.expr (some t.pos) value') ?_ fun rest _ ↦ ?_
  · rw [Stmt.bare, Stmt.bare, hsame]
  have hvalue : Grammar.expr env (t :: (us ++ e :: rest)) = .ok value' (e :: rest) :=
    hrun (e :: rest) (by rw [nextKind_cons, he]; decide)
  rw [hrule _ ht, exprStmt, bind_of_ok (peekToken_apply env _)]
  show (Grammar.expr >>= _) env (t :: (us ++ [e] ++ rest)) = _
  rw [List.append_assoc, List.singleton_append, bind_of_ok hvalue, mark,
    bind_of_ok (expect_cons he env rest)]
  rfl

/-! ### Exports -/

theorem TakesStmt.exportDefault {value : Expr} {x d e : Token} (p : Option Pos)
    (hx : x.kind = .keyword .exportWord) (hd : d.kind = .keyword .defaultWord)
    (he : e.kind = .mark .semicolon) (h : Takes env .assignment value ts) :
    TakesStmt env false (.exportValue p value [] true) (x :: d :: (ts ++ [e])) := by
  obtain ⟨hbegin, value', hsame, hrun⟩ := h
  refine .of_rule hx (by decide) (.exportValue (some x.pos) value' [] true) ?_ fun rest _ ↦ ?_
  · rw [Stmt.bare, Stmt.bare, hsame]
  have hvalue : Grammar.expr env (ts ++ e :: rest) = .ok value' (e :: rest) :=
    hrun (e :: rest) (by rw [nextKind_cons, he]; decide)
  -- No expression begins with `function`, which would be taken for a declaration.
  have hall : ∀ k ∈ expressionStart, k ∉ [Kind.keyword .functionWord] := by decide
  simp only [List.cons_append, List.append_assoc, List.nil_append]
  show exportStmt stmt env _ = _
  rw [exportStmt, keyword, bind_of_ok (expect_cons hx env _), bind_of_ok (peek_apply env _),
    nextKind_cons, hd]
  show (next >>= _) env (d :: (ts ++ e :: rest)) = _
  rw [bind_of_ok (next_cons d env _), atKeyword,
    check_bind_of_not_mem (hall _ (hbegin.nextKind_mem _))]
  simp only [Bool.false_eq_true, if_false]
  rw [bind_of_ok hvalue, mark, bind_of_ok (expect_cons he env rest)]
  rfl

theorem TakesStmt.exportVariable {v : Variable} {x e : Token} (henv : env.Fills templates)
    (p : Option Pos) (hx : x.kind = .keyword .exportWord) (he : e.kind = .mark .semicolon)
    (h : WrittenVariable templates v ts) :
    TakesStmt env false (.exportDecl p (.variable v) [] false) (x :: (ts ++ [e])) := by
  obtain ⟨v', hsame, hrun⟩ := h.reads_stmt henv he
  refine .of_rule hx (by decide) (.exportDecl (some x.pos) (.variable v') [] false) ?_
    fun rest _ ↦ ?_
  · simp only [Stmt.bare, hsame]
  simp only [List.append_assoc, List.cons_append, List.nil_append]
  show exportStmt stmt env _ = _
  rw [exportStmt, keyword, bind_of_ok (expect_cons hx env _), bind_of_ok (peek_apply env _)]
  -- The rule asks for each of the three words by itself.
  have hmem := h.begins.nextKind_mem (e :: rest)
  simp only [declarationWords, List.mem_cons, List.not_mem_nil, or_false] at hmem
  have hvariable : (do return Stmt.exportDecl (some x.pos) (.variable (← variableStmt)) [] false)
      env (ts ++ e :: rest) = .ok (.exportDecl (some x.pos) (.variable v') [] false) rest := by
    rw [bind_of_ok (hrun rest)]
    rfl
  rcases hmem with hmem | hmem | hmem
  all_goals rw [hmem]; exact hvariable

theorem TakesStmt.exportNames {ns : List Lexeme} {x l r e : Token} (p : Option Pos)
    (hx : x.kind = .keyword .exportWord) (hl : l.kind = .mark .openBrace)
    (hr : r.kind = .mark .closeBrace) (he : e.kind = .mark .semicolon)
    (h : WrittenListed WrittenExported ns ts) :
    TakesStmt env false (.exportNames p ns false) (x :: l :: (ts ++ [r, e])) := by
  obtain ⟨_, rfl, hrun⟩ := reads_names env (fun _ ↦ agree_exportedName)
    (fun _ _ h ↦ h.begins) (fun _ _ h ↦ h.reads env) h
  refine .of_rule hx (by decide) (.exportNames (some x.pos) _ false) rfl fun rest _ ↦ ?_
  simp only [List.append_assoc, List.cons_append, List.nil_append]
  show exportStmt stmt env _ = _
  rw [exportStmt, keyword, bind_of_ok (expect_cons hx env _), bind_of_ok (peek_apply env _),
    nextKind_cons, hl]
  -- The brace tells the list from everything else that can be exported.
  show (next >>= _) env (l :: (ts ++ r :: e :: rest)) = _
  rw [bind_of_ok (next_cons l env _), bind_of_ok (hrun (r :: e :: rest) hr), mark,
    bind_of_ok (expect_cons hr env _), mark, bind_of_ok (expect_cons he env rest)]
  rfl

/-! ### Statements with statements inside -/

theorem TakesStmts.nil : TakesStmts env [] [] := by
  refine ⟨.inl rfl, [], rfl, fun stop hend _ rest hrest ↦ ?_⟩
  rw [List.nil_append, untilKind_eq hend agree_stmt, untilStep, check_bind_of_mem hrest]
  rfl

theorem TakesStmts.cons {ajar : Bool} {s : Stmt} {ss : List Stmt} {us : List Token}
    (hs : TakesStmt env ajar s ts) (hss : TakesStmts env ss us) :
    TakesStmts env (s :: ss) (ts ++ us) := by
  obtain ⟨hbegin, s', hsame, hrun⟩ := hs
  obtain ⟨hstart, ss', hsame', hrun'⟩ := hss
  refine ⟨.inr (hbegin.append _), s' :: ss', ?_, fun stop hend hstop rest hrest ↦ ?_⟩
  · simp only [Stmt.bareAll, hsame, hsame']
  -- The list does not end yet, because no statement begins with what ends a list.
  have hgo : nextKind (ts ++ (us ++ rest)) ∉ stop := by
    have hall : ∀ k ∈ statementStart, k ∉ listEnds := by decide
    exact fun hmem ↦ hall _ (hbegin.nextKind_mem _) (hstop hmem)
  -- Neither the next statement nor the end of the list begins with `else`.
  have hfollow : nextKind (us ++ rest) ≠ .keyword .elseWord := by
    rcases hstart with rfl | hstart
    · have hall : ∀ k ∈ listEnds, k ≠ .keyword .elseWord := by decide
      exact hall _ (hstop hrest)
    · have hall : ∀ k ∈ statementStart, k ≠ .keyword .elseWord := by decide
      exact hall _ (hstart.nextKind_mem rest)
  rw [List.append_assoc, untilKind_eq hend agree_stmt, untilStep, check_bind_of_not_mem hgo]
  simp only [Bool.false_eq_true, if_false]
  rw [bind_of_ok (hrun (us ++ rest) fun _ ↦ hfollow), bind_of_ok (hrun' stop hend hstop rest hrest)]
  rfl

/-- Statements between braces. -/
theorem block_of_takes {ss : List Stmt} {l r : Token} (hl : l.kind = .mark .openBrace)
    (hr : r.kind = .mark .closeBrace) (h : TakesStmts env ss ts) : ∃ ss',
      Stmt.bareAll ss' = Stmt.bareAll ss ∧
      ∀ rest, block stmt env (l :: (ts ++ r :: rest)) = .ok ss' rest := by
  obtain ⟨-, ss', hsame, hrun⟩ := h
  refine ⟨ss', hsame, fun rest ↦ ?_⟩
  have hbody := hrun [.mark .closeBrace, .endOfInput] (by decide) (by decide) (r :: rest)
    (by rw [nextKind_cons, hr]; decide)
  rw [block, mark, bind_of_ok (expect_cons hl env _), bind_of_ok hbody, mark,
    bind_of_ok (expect_cons hr env rest)]
  rfl

/-- A body between braces is closed by them, so anything may follow. -/
theorem TakesBody.braces {ss : List Stmt} {l r : Token} (hl : l.kind = .mark .openBrace)
    (hr : r.kind = .mark .closeBrace) (h : TakesStmts env ss ts) :
    TakesBody env false ss (l :: (ts ++ [r])) := by
  obtain ⟨ss', hsame, hrun⟩ := block_of_takes hl hr h
  refine ⟨ss', hsame, fun rest _ ↦ ?_⟩
  simp only [List.append_assoc, List.cons_append, List.nil_append]
  -- The brace decides that the body is a list.
  rw [body, atMark, check_bind_of_mem (by rw [nextKind_cons, hl]; decide)]
  exact hrun rest

/-- A single statement as a body.  If it is ajar, then so is the body. -/
theorem TakesBody.single {ajar : Bool} {s : Stmt} {t : Token} (ht : t.kind ≠ .mark .openBrace)
    (h : TakesStmt env ajar s (t :: ts)) : TakesBody env ajar [s] (t :: ts) := by
  obtain ⟨-, s', hsame, hrun⟩ := h
  refine ⟨[s'], by simp only [Stmt.bareAll, hsame], fun rest hrest ↦ ?_⟩
  -- There is no brace, so one statement is read.
  rw [body, atMark, check_bind_of_not_mem (by simpa using ht)]
  simp only [Bool.false_eq_true, if_false]
  rw [bind_of_ok (hrun rest hrest)]
  rfl

theorem TakesStmt.function {f n l r o c : Token} {ps : List Lexeme} {ss : List Stmt}
    {us : List Token} (p : Option Pos) (hf : f.kind = .keyword .functionWord)
    (hn : n.kind = .identifier) (hl : l.kind = .mark .openParen) (hr : r.kind = .mark .closeParen)
    (ho : o.kind = .mark .openBrace) (hc : c.kind = .mark .closeBrace)
    (hps : WrittenParameters ps ts) (hss : TakesStmts env ss us) :
    TakesStmt env false (.function p n.lexeme ps ss)
      (f :: n :: l :: (ts ++ r :: o :: (us ++ [c]))) := by
  obtain ⟨ps', hps', hrunParameters⟩ := hps.reads env
  obtain ⟨ss', hsame, hrunBlock⟩ := block_of_takes ho hc hss
  refine .of_rule hf (by decide) (.function (some f.pos) n.lexeme ps' ss') ?_ fun rest _ ↦ ?_
  · simp only [Stmt.bare, hsame, hps']
  simp only [List.append_assoc, List.cons_append, List.nil_append]
  -- Every piece is read up to the mark behind it.
  show functionDecl stmt env _ = _
  rw [functionDecl, keyword, bind_of_ok (expect_cons hf env _), bind_of_ok (expect_cons hn env _),
    mark, bind_of_ok (expect_cons hl env _), bind_of_ok (hrunParameters (r :: _) hr), mark,
    bind_of_ok (expect_cons hr env _), bind_of_ok (hrunBlock rest)]
  rfl

/-- A function behind `export` is read as a function. -/
theorem functionDecl_of_takes {q : Option Pos} {n : Lexeme} {ps : List Lexeme} {ss : List Stmt}
    (hw : WrittenStmt templates (.stmt false (.function q n ps ss)) ts)
    (h : TakesStmt env false (.function q n ps ss) ts) : ∃ s',
      s'.bare = (Stmt.function q n ps ss).bare ∧ ∀ rest,
        nextKind (ts ++ rest) = .keyword .functionWord ∧
        functionDecl stmt env (ts ++ rest) = .ok s' rest := by
  obtain ⟨-, s', hsame, hrun⟩ := h
  refine ⟨s', hsame, fun rest ↦ ?_⟩
  have hkind : nextKind (ts ++ rest) = .keyword .functionWord := by
    cases hw with
    | function _ f n l r o c hf => exact hf
  -- The statement has been read by the rule for its first token, and that is the rule for
  -- functions.
  have hstmt := hrun rest fun h ↦ by cases h
  rw [stmt_apply, hkind] at hstmt
  exact ⟨hkind, hstmt⟩

theorem TakesStmt.exportDefaultFunction {q : Option Pos} {n : Lexeme} {ps : List Lexeme}
    {ss : List Stmt} {x d : Token} (p : Option Pos) (hx : x.kind = .keyword .exportWord)
    (hd : d.kind = .keyword .defaultWord)
    (hw : WrittenStmt templates (.stmt false (.function q n ps ss)) ts)
    (h : TakesStmt env false (.function q n ps ss) ts) :
    TakesStmt env false (.exportDecl p (.function q n ps ss) [] true) (x :: d :: ts) := by
  obtain ⟨s', hsame, hrun⟩ := functionDecl_of_takes hw h
  refine .of_rule hx (by decide) (.exportDecl (some x.pos) s' [] true) ?_ fun rest _ ↦ ?_
  · rw [Stmt.bare, hsame]
    rfl
  show exportStmt stmt env (x :: d :: (ts ++ rest)) = _
  rw [exportStmt, keyword, bind_of_ok (expect_cons hx env _), bind_of_ok (peek_apply env _),
    nextKind_cons, hd]
  show (next >>= _) env (d :: (ts ++ rest)) = _
  rw [bind_of_ok (next_cons d env _), atKeyword, check_bind_of_mem (by rw [(hrun rest).1]; decide)]
  simp only [if_true]
  rw [bind_of_ok (hrun rest).2]
  rfl

theorem TakesStmt.exportFunction {q : Option Pos} {n : Lexeme} {ps : List Lexeme}
    {ss : List Stmt} {x : Token} (p : Option Pos) (hx : x.kind = .keyword .exportWord)
    (hw : WrittenStmt templates (.stmt false (.function q n ps ss)) ts)
    (h : TakesStmt env false (.function q n ps ss) ts) :
    TakesStmt env false (.exportDecl p (.function q n ps ss) [] false) (x :: ts) := by
  obtain ⟨s', hsame, hrun⟩ := functionDecl_of_takes hw h
  refine .of_rule hx (by decide) (.exportDecl (some x.pos) s' [] false) ?_ fun rest _ ↦ ?_
  · rw [Stmt.bare, hsame]
    rfl
  show exportStmt stmt env (x :: (ts ++ rest)) = _
  rw [exportStmt, keyword, bind_of_ok (expect_cons hx env _), bind_of_ok (peek_apply env _),
    (hrun rest).1]
  show (functionDecl stmt >>= _) env (ts ++ rest) = _
  rw [bind_of_ok (hrun rest).2]
  rfl

/-- The test of a branch or a loop, with its parentheses. -/
theorem condition_of_takes {test : Expr} {l r : Token} (hl : l.kind = .mark .openParen)
    (hr : r.kind = .mark .closeParen) (h : Takes env .assignment test ts) : ∃ test',
      test'.bare = test.bare ∧ ∀ rest, condition env (l :: (ts ++ r :: rest)) = .ok test' rest := by
  obtain ⟨-, test', hsame, hrun⟩ := h
  refine ⟨test', hsame, fun rest ↦ ?_⟩
  have htest : expr env (ts ++ r :: rest) = .ok test' (r :: rest) :=
    hrun (r :: rest) (by rw [nextKind_cons, hr]; decide)
  rw [condition, mark, bind_of_ok (expect_cons hl env _), bind_of_ok htest, mark,
    bind_of_ok (expect_cons hr env rest)]
  rfl

/-- A `while` loop is ajar if its body is. -/
theorem TakesStmt.whileLoop {ajar : Bool} {test : Expr} {ss : List Stmt} {w l r : Token}
    {us : List Token} (p : Option Pos) (hw : w.kind = .keyword .whileWord)
    (hl : l.kind = .mark .openParen) (hr : r.kind = .mark .closeParen)
    (htest : Takes env .assignment test ts) (hss : TakesBody env ajar ss us) :
    TakesStmt env ajar (.whileLoop p test ss) (w :: l :: (ts ++ r :: us)) := by
  obtain ⟨test', hsame, hrun⟩ := condition_of_takes hl hr htest
  obtain ⟨ss', hsame', hrun'⟩ := hss
  refine .of_rule hw (by decide) (.whileLoop (some w.pos) test' ss') ?_ fun rest hrest ↦ ?_
  · simp only [Stmt.bare, hsame, hsame']
  simp only [List.append_assoc, List.cons_append]
  show whileStmt stmt env _ = _
  rw [whileStmt, keyword, bind_of_ok (expect_cons hw env _), bind_of_ok (hrun _),
    bind_of_ok (hrun' rest hrest)]
  rfl

/-- A `for` loop: each of its three parts is read up to the mark behind it, and its body is read
last. -/
theorem TakesStmt.forLoop {ajar : Bool} {init : ForInit} {test update : Option Expr}
    {ss : List Stmt} {w l m e r : Token} {us vs ws : List Token} (henv : env.Fills templates)
    (p : Option Pos) (hw : w.kind = .keyword .forWord) (hl : l.kind = .mark .openParen)
    (hm : m.kind = .mark .semicolon) (he : e.kind = .mark .semicolon)
    (hr : r.kind = .mark .closeParen) (hinit : WrittenInit templates init ts)
    (htest : WrittenOption templates test us) (hupdate : WrittenOption templates update vs)
    (hss : TakesBody env ajar ss ws) :
    TakesStmt env ajar (.forLoop p init test update ss)
      (w :: l :: (ts ++ m :: (us ++ e :: (vs ++ r :: ws)))) := by
  obtain ⟨init', hinit', hrunInit⟩ := hinit.reads henv
  obtain ⟨test', htest', hrunTest⟩ := htest.reads henv .semicolon (by decide)
  obtain ⟨update', hupdate', hrunUpdate⟩ := hupdate.reads henv .closeParen (by decide)
  obtain ⟨ss', hss', hrunBody⟩ := hss
  refine .of_rule hw (by decide) (.forLoop (some w.pos) init' test' update' ss') ?_
    fun rest hrest ↦ ?_
  · simp only [Stmt.bare, hinit', htest', hupdate', hss']
  simp only [List.append_assoc, List.cons_append]
  show forStmt stmt env _ = _
  rw [forStmt, keyword, bind_of_ok (expect_cons hw env _), mark, bind_of_ok (expect_cons hl env _),
    bind_of_ok (hrunInit (m :: _) hm), mark, bind_of_ok (expect_cons hm env _),
    bind_of_ok (hrunTest (e :: _) he), bind_of_ok (expect_cons he env _),
    bind_of_ok (hrunUpdate (r :: _) hr), mark, bind_of_ok (expect_cons hr env _),
    bind_of_ok (hrunBody rest hrest)]
  rfl

/-- An `if` without `else` is ajar, whether its branch is or not. -/
theorem TakesStmt.ifThen {ajar : Bool} {test : Expr} {yes : List Stmt} {w l r : Token}
    {us : List Token} (p : Option Pos) (hw : w.kind = .keyword .ifWord)
    (hl : l.kind = .mark .openParen) (hr : r.kind = .mark .closeParen)
    (htest : Takes env .assignment test ts) (hyes : TakesBody env ajar yes us) :
    TakesStmt env true (.ifThen p test yes) (w :: l :: (ts ++ r :: us)) := by
  obtain ⟨test', hsame, hrun⟩ := condition_of_takes hl hr htest
  obtain ⟨yes', hsame', hrun'⟩ := hyes
  refine .of_rule hw (by decide) (.ifThen (some w.pos) test' yes') ?_ fun rest hrest ↦ ?_
  · simp only [Stmt.bare, hsame, hsame']
  -- This is what is demanded of the rest: it must not offer an `else`.
  have helse : nextKind rest ∉ [Kind.keyword .elseWord] := by simpa using hrest rfl
  simp only [List.append_assoc, List.cons_append]
  show ifStmt stmt env _ = _
  rw [ifStmt, keyword, bind_of_ok (expect_cons hw env _), bind_of_ok (hrun _),
    bind_of_ok (hrun' rest fun _ ↦ hrest rfl), atKeyword, check_bind_of_not_mem helse]
  rfl

/-- An `if` with `else`.  Its first branch is not ajar, so it leaves the `else` to this
statement. -/
theorem TakesStmt.ifElse {ajar : Bool} {test : Expr} {yes no : List Stmt} {w l r x : Token}
    {us vs : List Token} (p : Option Pos) (hw : w.kind = .keyword .ifWord)
    (hl : l.kind = .mark .openParen) (hr : r.kind = .mark .closeParen)
    (hx : x.kind = .keyword .elseWord) (htest : Takes env .assignment test ts)
    (hyes : TakesBody env false yes us) (hno : TakesBody env ajar no vs) :
    TakesStmt env ajar (.ifElse p test yes no) (w :: l :: (ts ++ r :: (us ++ x :: vs))) := by
  obtain ⟨test', hsame, hrun⟩ := condition_of_takes hl hr htest
  obtain ⟨yes', hyes', hrunYes⟩ := hyes
  obtain ⟨no', hno', hrunNo⟩ := hno
  refine .of_rule hw (by decide) (.ifElse (some w.pos) test' yes' no') ?_ fun rest hrest ↦ ?_
  · simp only [Stmt.bare, hsame, hyes', hno']
  -- Nothing is demanded of what follows a branch that is not ajar.
  have hfirst : body stmt env (us ++ x :: (vs ++ rest)) = .ok yes' (x :: (vs ++ rest)) :=
    hrunYes _ fun h ↦ by cases h
  simp only [List.append_assoc, List.cons_append]
  show ifStmt stmt env _ = _
  rw [ifStmt, keyword, bind_of_ok (expect_cons hw env _), bind_of_ok (hrun _), bind_of_ok hfirst,
    atKeyword, check_bind_of_mem (by rw [nextKind_cons, hx]; decide)]
  simp only [if_true]
  rw [bind_of_ok (next_cons x env _), bind_of_ok (hrunNo rest hrest)]
  rfl

/-! ### All statements -/

/-- What the parser of a clause does with its tokens. -/
def Clause.Taken (env : Context) : Clause → List Token → Prop
  | .stmt ajar s => TakesStmt env ajar s
  | .stmts ss => TakesStmts env ss
  | .body ajar ss => TakesBody env ajar ss

/-- **Every writing of a statement is parsed to that statement**, positions apart. -/
theorem WrittenStmt.taken (henv : env.Fills templates) {clause : Clause}
    (h : WrittenStmt templates clause ts) : clause.Taken env ts := by
  -- By induction over the writing, with one lemma for each rule.
  induction h with
  | lineComment p t w ht hw => exact .lineComment p ht hw
  | blockComment p t w ht hw => exact .blockComment p ht hw
  | importFrom p i m e w hi hm hw he h => exact .importFrom p hi hm hw he h
  | exportDefaultFunction p q x d hx hd h ih => exact .exportDefaultFunction p hx hd h ih
  | exportDefault p x d e hx hd he h => exact .exportDefault p hx hd he (h.taken henv)
  | exportFunction p q x hx h ih => exact .exportFunction p hx h ih
  | exportVariable p x e hx he h => exact .exportVariable henv p hx he h
  | exportNames p x l r e hx hl hr he h => exact .exportNames p hx hl hr he h
  | «variable» e he h => exact .variable henv he h
  | print p w e hw he h => exact .print p hw he (h.taken henv)
  | console p w l r e hw hl hr he h => exact .console p hw hl hr he (h.taken henv)
  | function p f n l r o c hf hn hl hr ho hc hps _ ih =>
    exact .function p hf hn hl hr ho hc hps ih
  | ret p w e hw he h => exact .ret henv p hw he h
  | ifThen p w l r hw hl hr htest _ ih => exact .ifThen p hw hl hr (htest.taken henv) ih
  | ifElse p w l r x hw hl hr hx htest _ _ ihyes ihno =>
    exact .ifElse p hw hl hr hx (htest.taken henv) ihyes ihno
  | forLoop p w l m e r hw hl hm he hr hinit htest hupdate _ ih =>
    exact .forLoop henv p hw hl hm he hr hinit htest hupdate ih
  | whileLoop p w l r hw hl hr htest _ ih => exact .whileLoop p hw hl hr (htest.taken henv) ih
  | breakLoop p w e hw he => exact .breakLoop p hw he
  | continueLoop p w e hw he => exact .continueLoop p hw he
  | expr p e he h => exact .expr p he (h.taken henv)
  | nil => exact .nil
  | cons _ _ ihs ihss => exact .cons ihs ihss
  | braces l r hl hr _ ih => exact .braces hl hr ih
  | single ht _ ih => exact .single ht ih

/-- A writing of a list of statements is parsed to those statements, up to a token that marks the
end. -/
theorem parse_of_written_append {ss : List Stmt} (h : WrittenStmt templates (.stmts ss) ts)
    {rest : List Token} (hrest : nextKind rest = .endOfInput)
    (henv : (Context.of (ts ++ rest) Pos.origin).Fills templates) :
    ∃ q, parse (ts ++ rest) = .ok q ∧ Stmt.bareAll q.body = Stmt.bareAll ss := by
  obtain ⟨-, ss', hsame, hrun⟩ := h.taken henv
  -- A program is a list of statements that ends with the stream.
  have hall := hrun [.endOfInput] (by decide) (by decide) rest (by simp [hrest])
  refine ⟨⟨some Pos.origin, ss'⟩, ?_, hsame⟩
  rw [parse, program, hall]

/-- A writing of a list of statements, with nothing behind it, is parsed to those statements. -/
theorem parse_of_written {ss : List Stmt} (h : WrittenStmt templates (.stmts ss) ts)
    (henv : (Context.of ts Pos.origin).Fills templates) :
    ∃ q, parse ts = .ok q ∧ Stmt.bareAll q.body = Stmt.bareAll ss := by
  rw [← List.append_nil ts] at henv ⊢
  exact parse_of_written_append h rfl henv

end Advplc.Grammar

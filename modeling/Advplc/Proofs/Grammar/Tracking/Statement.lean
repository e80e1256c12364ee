import Advplc.Proofs.Grammar.Tracking.Expression

/-!
# The rules for statements fail no later than they must

The same as for expressions, one rule after another.  What is written for a rule is a language of
lists of tokens (`statements`, `bodies`, `functions`, and so on), and the rule tracks it: it goes on
as long as the tokens read so far begin a word of the language.

Most rules read one thing after another, so they track a product, and each lemma has two parts.  The
first follows the rule with the combinators of `Advplc.Proofs.Grammar.Tracking.Basic`; the second,
behind `mono`, takes a word of the product apart and puts its pieces together as a writing.

Two rules do not track a product of languages.  The statement in place of a body must not begin with
a brace, which is known before it is read.  And the first branch of an `if` may be followed by
`else` only if it is not ajar, which is known because otherwise it would have taken the `else` for
its own.

What is missing of a word has to be supplied, so a language must have one (`Speakable`).
-/

set_option autoImplicit false

namespace Advplc.Grammar

open Script Parse

variable {templates : Text → List Text → List Expr → Prop} {env : Context} {ts : List Token}

/-! ## Languages -/

variable (templates) in
/-- Statements. -/
abbrev statements : Language Token :=
  phrases fun x : Bool × Stmt ↦ WrittenStmt templates (.stmt x.1 x.2)

variable (templates) in
/-- Lists of statements. -/
abbrev statementLists : Language Token := phrases fun ss ↦ WrittenStmt templates (.stmts ss)

variable (templates) in
/-- Bodies of branches and loops. -/
abbrev bodies : Language Token :=
  phrases fun x : Bool × List Stmt ↦ WrittenStmt templates (.body x.1 x.2)

variable (templates) in
/-- Functions. -/
abbrev functions : Language Token :=
  phrases fun x : Option Pos × Lexeme × List Lexeme × List Stmt ↦
    WrittenStmt templates (.stmt false (.function x.1 x.2.1 x.2.2.1 x.2.2.2))

/-- The name `x` is an expression, which is what is supplied where one is missing. -/
theorem written_assignment_x (templates : Text → List Text → List Expr → Prop) :
    Written templates (.expr .assignment (.name none "x")) [identifierToken "x"] :=
  .ofBinary (.climb List.suffix_rfl (written_x templates).ofPrimary)

instance : Speakable (statementLists templates) := ⟨.of_mem ⟨[], .nil⟩⟩

instance : Speakable (bodies templates) := by
  refine ⟨[markToken .openBrace, markToken .closeBrace], ?_, ?_⟩
  · exact ⟨(false, []), .braces (markToken .openBrace) (markToken .closeBrace) rfl rfl .nil⟩
  · simpa using ⟨scanned_markToken _, scanned_markToken _⟩

instance : Speakable (phrases WrittenImport) := ⟨.of_mem ⟨[], .nothing⟩⟩

instance : Speakable (phrases WrittenParameter) := ⟨viable_x ⟨_, .name (identifierToken "x") rfl⟩⟩

instance : Speakable (phrases WrittenParameters) := ⟨.of_mem ⟨[], .empty⟩⟩

instance : Speakable (phrases (WrittenOption templates)) := ⟨.of_mem ⟨none, .absent⟩⟩

instance : Speakable (phrases (WrittenValue templates)) := ⟨.of_mem ⟨none, .absent⟩⟩

instance : Speakable (phrases (WrittenInit templates)) := ⟨.of_mem ⟨.nothing, .nothing⟩⟩

instance : Speakable (ofWord "as") :=
  speakable_single (t := identifierToken "as") (.of_alone (w := "as") (by decide +kernel))
    ⟨rfl, rfl⟩

/-! ## Imports and exports -/

/-- A token of a given kind whose text is used as soon as it is read. -/
theorem tracks_expect_text {α : Type} {f : Token → Parse α} {k : Kind} {L : Language Token}
    [Speakable (ofKind k)] [Speakable (single (OfText k))] [Speakable L]
    (hfail : ∀ t rest a rest', (∀ w, t.lexeme ≠ .text w) → f t env rest ≠ .ok a rest')
    (h : ∀ t rest w, t.kind = k → t.lexeme = .text w → Tracks env (f t) L rest) :
    Tracks env (expect k >>= f) (single (OfText k) * L) ts := by
  -- A token of that kind may be without a text, and a rule that needs one may fail for that.
  by_cases hbad : ∃ t rest, ts = t :: rest ∧ t.kind = k ∧ ∀ w, t.lexeme ≠ .text w
  · obtain ⟨t, rest, rfl, ht, htext⟩ := hbad
    refine .of_lexeme List.mem_cons_self htext fun a rest' hok ↦ ?_
    rw [bind_of_ok (expect_cons ht env rest)] at hok
    exact hfail t rest a rest' htext hok
  · have htext : ∀ t rest, ts = t :: rest → t.kind = k → ∃ w, t.lexeme = .text w := by
      intro t rest hts ht
      by_contra hne
      exact hbad ⟨t, rest, hts, ht, fun w hw ↦ hne ⟨w, hw⟩⟩
    -- With that excluded, the tokens that are expected are those of the kind that have a text.
    have hsharp : Tracks env (expect k) (single (OfText k)) ts := by
      refine tracks_expect.sharpen nil_notMem_single ?_
      rintro t _ hhead ⟨_, ht, heq⟩
      cases heq
      obtain ⟨rest, hts⟩ := List.head?_eq_some_iff.mp hhead
      exact ⟨t, ⟨ht, htext t rest hts ht⟩, rfl⟩
    refine hsharp.bind fun t rest hok _ ↦ ?_
    obtain ⟨hts, ht⟩ := expect_eq_ok.mp hok
    obtain ⟨w, hw⟩ := htext t rest hts ht
    exact h t rest w ht hw

/-- The path of a module is a string.  That the token has a text is part of the language, since the
lexer makes no other. -/
theorem tracks_moduleSource : Tracks env moduleSource (single (OfText .string)) ts := by
  rw [← mul_one (single (OfText .string))]
  exact tracks_expect_text (fun _ _ _ _ ht ↦ stringValue_ne_ok ht)
    fun _ _ _ _ hw ↦ tracks_stringValue hw

/-- A name, and behind the word `as` another. -/
theorem tracks_renamed : Tracks env renamed (phrases WrittenRenamed) ts := by
  refine Tracks.mono (L := ofKind .identifier * (1 + ofWord "as" * ofKind .identifier)) ?_ ?_
  · refine tracks_expect_bind fun n rest _ _ ↦ ?_
    refine tracks_atWord (fun a rest' hrest ha has ↦ ?_) (tracks_pure (.inl rfl))
    subst hrest
    exact (tracks_next ⟨ha, has⟩ (tracks_expect.map _)).mono fun _ h ↦ .inr h
  · -- A word of the language is a name alone, or a name, the word and another name.
    rintro _ ⟨_, ⟨n, hn, rfl⟩, _, rfl | ⟨_, ⟨a, ⟨ha, has⟩, rfl⟩, _, ⟨m, hm, rfl⟩, rfl⟩, rfl⟩
    · exact ⟨_, .plain n hn⟩
    · exact ⟨_, .another n a m hn ha has hm⟩

theorem tracks_namedSpecifier : Tracks env namedSpecifier (phrases WrittenSpecifier) ts := by
  refine (tracks_renamed.map _).mono ?_
  rintro us ⟨x, hx⟩
  exact ⟨_, .named hx⟩

/-- A name of an export list.  What is made of the two names has no influence on what may be
written. -/
theorem tracks_exportedName : Tracks env exportedName (phrases WrittenExported) ts := by
  refine (tracks_renamed.bind_pure fun x ↦ ?_).mono ?_
  · obtain ⟨name, _ | localName⟩ := x
    · exact ⟨_, rfl⟩
    · exact ⟨_, rfl⟩
  · rintro us ⟨⟨n, _ | a⟩, hx⟩
    · exact ⟨_, .plain hx⟩
    · exact ⟨_, .another hx⟩

theorem tracks_importNamed : Tracks env importNamed (phrases WrittenFurther) ts := by
  refine (tracks_between (L := phrases (WrittenListed WrittenSpecifier)) (fun rest _ ↦ ?_)
    fun _ xs ↦ xs).mono ?_
  · exact tracks_listed .closeBrace (fun _ ↦ agree_namedSpecifier) fun _ _ _ ↦ tracks_namedSpecifier
  · intro us hus
    obtain ⟨l, vs, r, hl, ⟨xs, hxs⟩, hr, rfl⟩ := mem_between.mp hus
    exact ⟨xs, .named l r hl hr hxs⟩

/-- A module as a whole, under a name. -/
theorem tracks_importNamespace : Tracks env importNamespace (phrases WrittenFurther) ts := by
  refine (tracks_expect_bind fun _ _ _ _ ↦ tracks_word.bind fun _ _ _ _ ↦
    tracks_expect.map _).mono ?_
  rintro _ ⟨_, ⟨s, hs, rfl⟩, _, ⟨_, ⟨a, ⟨ha, has⟩, rfl⟩, _, ⟨n, hn, rfl⟩, rfl⟩, rfl⟩
  exact ⟨_, .module s a n hs ha has hn⟩

theorem tracks_importFurther : Tracks env importFurther (phrases WrittenFurther) ts :=
  tracks_atMark (fun _ ↦ tracks_importNamespace.map _) fun _ ↦ tracks_importNamed

/-- What is imported is chosen by its first token, so the language is a sum, with one part for what
begins with the name of the default. -/
theorem tracks_importSpecifiers : Tracks env importSpecifiers
    (phrases WrittenFurther + ofKind .identifier * further (phrases WrittenFurther)) ts := by
  refine tracks_peek ?_
  split
  · exact tracks_importNamed.mono fun _ h ↦ .inl h
  · exact (tracks_importNamespace.map _).mono fun _ h ↦ .inl h
  · refine (tracks_expect_bind fun n rest _ _ ↦ ?_).mono fun _ h ↦ .inr h
    exact tracks_further fun _ _ ↦ tracks_importFurther

/-- What is imported, up to the word `from`.  Nothing is read before the path of a bare import. -/
theorem tracks_importClause : Tracks env importClause (phrases WrittenImport) ts := by
  refine tracks_check (fun _ ↦ tracks_pure ⟨[], .nothing⟩) fun _ ↦ ?_
  refine (tracks_importSpecifiers.bind fun xs _ _ _ ↦ tracks_expect.map fun _ ↦ xs).mono ?_
  rintro _ ⟨us, ⟨xs, hxs⟩ | ⟨_, ⟨n, hn, rfl⟩, _, rfl | ⟨_, ⟨c, hc, rfl⟩, vs, ⟨xs, hxs⟩, rfl⟩, rfl⟩,
    _, ⟨f, hf, rfl⟩, rfl⟩
  · exact ⟨xs, .further f hf hxs⟩
  · exact ⟨_, .default n f hn hf⟩
  · exact ⟨_, by simpa using .both n c f hn hc hf hxs⟩

/-- An import as a whole. -/
theorem tracks_importStmt : Tracks env importStmt (statements templates) ts := by
  refine (tracks_expect_bind fun _ _ _ _ ↦ tracks_importClause.bind fun _ _ _ _ ↦
    tracks_moduleSource.bind fun _ _ _ _ ↦ tracks_expect.map _).mono ?_
  -- A word of the product is a token, what is imported, a path and a semicolon.
  rintro _ ⟨_, ⟨i, hi, rfl⟩, _, ⟨us, ⟨xs, hxs⟩, _, ⟨_, ⟨m, ⟨hm, w, hw⟩, rfl⟩, _, ⟨e, he, rfl⟩, rfl⟩,
    rfl⟩, rfl⟩
  exact ⟨(false, _), .importFrom none i m e w hi hm hw he hxs⟩

/-! ## Rules without statements inside -/

/-- A comment is read as a statement only where the stream begins with one. -/
theorem tracks_commentStmt (hts : nextKind ts = .lineComment ∨ nextKind ts = .blockComment) :
    Tracks env commentStmt (statements templates) ts := by
  -- So the stream is not at its end, and a token is taken.
  have hend : nextKind ts ≠ .endOfInput := by
    intro hend
    rw [hend] at hts
    simp at hts
  refine (tracks_next_text (L := 1) rfl hend (fun t rest a rest' ht h ↦ ?_)
    fun t rest w ht hw _ ↦ ?_).mono ?_
  · obtain ⟨w, _, hw, -⟩ := bind_eq_ok.mp h
    exact ht w (textFor_eq_ok.mp hw).1
  · rw [hw]
    refine tracks_textFor ?_
    split
    · exact tracks_pure rfl
    · exact tracks_pure rfl
  · rintro _ ⟨_, ⟨t, ⟨ht, w, hw⟩, rfl⟩, _, rfl, rfl⟩
    rw [← ht] at hts
    obtain hline | hblock := hts
    · exact ⟨(false, _), .lineComment none t w hline hw⟩
    · exact ⟨(false, _), .blockComment none t w hblock hw⟩

section Parts

variable (henv : env.ReadsOnly templates)
include henv

theorem tracks_firstValue : Tracks env firstValue (phrases (WrittenValue templates)) ts := by
  refine tracks_atMark (fun hassign ↦ ?_) fun _ ↦ tracks_pure ⟨none, .absent⟩
  refine (tracks_next_kind hassign (by decide) fun _ _ _ _ ↦ (tracks_expr henv).map _).mono ?_
  rintro _ ⟨_, ⟨a, ha, rfl⟩, us, ⟨e, he⟩, rfl⟩
  exact ⟨some e, .present a ha he⟩

/-- A declaration, whose first word has been seen before. -/
theorem tracks_variableDecl (hts : nextKind ts ∈ declarationWords) :
    Tracks env variableDecl (phrases (WrittenVariable templates)) ts := by
  refine (tracks_next_mem hts (by decide) fun _ _ _ _ ↦ tracks_expect_bind fun _ _ _ _ ↦
    (tracks_firstValue henv).map _).mono ?_
  rintro _ ⟨_, ⟨w, hw, rfl⟩, _, ⟨_, ⟨n, hn, rfl⟩, us, ⟨v, hv⟩, rfl⟩, rfl⟩
  exact ⟨_, .declared none w n hw hn hv⟩

theorem tracks_variableStmt (hts : nextKind ts ∈ declarationWords) : Tracks env variableStmt
    (phrases (WrittenVariable templates) * ofKind (.mark .semicolon)) ts :=
  (tracks_variableDecl henv hts).bind fun v _ _ _ ↦ tracks_expect.map fun _ ↦ v

theorem tracks_printStmt : Tracks env printStmt (statements templates) ts := by
  have hitems : ∀ us, Tracks env (separated expr)
      (phrases (WrittenSeparated fun e ↦ Written templates (.expr .assignment e))) us :=
    fun _ ↦ tracks_separated agree_expr fun _ _ ↦ tracks_expr henv
  refine (tracks_expect_bind fun _ _ _ _ ↦
    (hitems _).bind fun _ _ _ _ ↦ tracks_expect.map _).mono ?_
  rintro _ ⟨_, ⟨w, hw, rfl⟩, _, ⟨us, ⟨es, hes⟩, _, ⟨e, he, rfl⟩, rfl⟩, rfl⟩
  exact ⟨(false, _), .print none w e hw he (written_items hes)⟩

/-- The arguments of `console.log` are those of a call. -/
theorem tracks_consoleStmt : Tracks env consoleStmt (statements templates) ts := by
  -- The lexer makes this kind of one text only, so that is the word supplied.
  have : Speakable (ofKind .consoleLog) := by
    refine speakable_single (t := ⟨.consoleLog, "console.log", Pos.origin⟩) ?_ rfl
    exact .of_alone (w := "console.log") (by decide +kernel)
  rw [consoleStmt, closed_arguments]
  refine (tracks_expect_bind fun _ rest _ _ ↦
    (tracks_arguments (tracksInner henv rest.length) (Nat.le_refl _)).bind fun _ _ _ _ ↦
      tracks_expect.map _).mono ?_
  rintro _ ⟨_, ⟨w, hw, rfl⟩, _, ⟨_, hargs, _, ⟨e, he, rfl⟩, rfl⟩, rfl⟩
  obtain ⟨l, us, r, hl, ⟨es, hes⟩, hr, rfl⟩ := mem_between.mp hargs
  exact ⟨(false, _), by simpa using .console none w l r e hw hl hr he hes⟩

/-- An expression, or nothing if the mark comes that closes it. -/
theorem tracks_exprUnless (close : Mark) :
    Tracks env (exprUnless close) (phrases (WrittenOption templates)) ts := by
  refine tracks_atMark (fun _ ↦ tracks_pure ⟨none, .absent⟩) fun _ ↦ ?_
  refine ((tracks_expr henv).map _).mono ?_
  rintro us ⟨e, he⟩
  exact ⟨some e, .present he⟩

theorem tracks_returnStmt : Tracks env returnStmt (statements templates) ts := by
  refine (tracks_expect_bind fun _ _ _ _ ↦ (tracks_exprUnless henv _).bind fun _ _ _ _ ↦
    tracks_expect.map _).mono ?_
  rintro _ ⟨_, ⟨w, hw, rfl⟩, _, ⟨us, ⟨v, hv⟩, _, ⟨e, he, rfl⟩, rfl⟩, rfl⟩
  exact ⟨(false, _), .ret none w e hw he hv⟩

/-- An expression as a statement. -/
theorem tracks_exprStmt : Tracks env exprStmt (statements templates) ts := by
  refine tracks_peekToken (((tracks_expr henv).bind fun _ _ _ _ ↦ tracks_expect.map _).mono ?_)
  rintro _ ⟨us, ⟨value, hvalue⟩, _, ⟨e, he, rfl⟩, rfl⟩
  exact ⟨(false, _), .expr none e he hvalue⟩

theorem tracks_forInit : Tracks env forInit (phrases (WrittenInit templates)) ts := by
  refine tracks_check (fun hword ↦ ?_) fun _ ↦ ?_
  · refine ((tracks_variableDecl henv hword).map _).mono ?_
    rintro us ⟨v, hv⟩
    exact ⟨.variable v, .variable hv⟩
  · -- What is returned depends on whether there is an expression, and what may be written does not.
    refine ((tracks_exprUnless henv .semicolon).bind_pure fun v ↦ ?_).mono ?_
    · cases v with
      | none => exact ⟨_, rfl⟩
      | some e => exact ⟨_, rfl⟩
    · rintro us ⟨v, hv⟩
      cases hv with
      | absent => exact ⟨.nothing, .nothing⟩
      | present he => exact ⟨.expr _, .expr he⟩

theorem tracks_condition : Tracks env condition
    (between .openParen .closeParen (expressions templates .assignment)) ts :=
  tracks_between (fun _ _ ↦ tracks_expr henv) fun _ e ↦ e

end Parts

/-- A word and a semicolon, as `break` and `continue` are. -/
theorem tracks_leaveStmt {w : Keyword} (g : Token → Stmt) (hts : nextKind ts = .keyword w)
    (h : ∀ t e, t.kind = .keyword w → e.kind = .mark .semicolon → [t, e] ∈ statements templates) :
    Tracks env (do let t ← next; let _ ← mark .semicolon; return g t)
      (statements templates) ts := by
  refine (tracks_next_kind hts (by simp) fun _ _ _ _ ↦ tracks_expect.map _).mono ?_
  rintro _ ⟨_, ⟨t, ht, rfl⟩, _, ⟨e, he, rfl⟩, rfl⟩
  exact h t e ht he

theorem tracks_parameterList : Tracks env parameterList (phrases WrittenParameters) ts := by
  refine tracks_atMark (fun _ ↦ tracks_pure ⟨[], .empty⟩) fun _ ↦ ?_
  -- Behind the check the list is not empty.
  refine Tracks.mono (L := phrases (WrittenSeparated WrittenParameter)) (tracks_separated
    (fun k ↦ (agree_expect _).bind_one fun _ _ ↦ Agree.pure _) fun us _ ↦ ?_) ?_
  · refine (tracks_expect.map _).mono ?_
    rintro _ ⟨t, ht, rfl⟩
    exact ⟨_, .name t ht⟩
  · rintro us ⟨ps, hps⟩
    exact ⟨ps, .nonempty hps⟩

/-! ## Rules with statements inside -/

/-- Statements up to a token of the given kinds, if each of them is tracked.  By induction on the
length of the stream, since a statement takes a token. -/
theorem tracks_untilKind {stop : List Kind} (hstop : .endOfInput ∈ stop)
    (h : ∀ us, us.length ≤ ts.length → Tracks env stmt (statements templates) us) :
    Tracks env (untilKind stop stmt) (statementLists templates) ts := by
  induction hn : ts.length using Nat.strongRecOn generalizing ts with
  | ind n ih =>
    subst hn
    rw [untilKind_eq hstop agree_stmt]
    refine tracks_check (fun _ ↦ tracks_pure ⟨[], .nil⟩) fun _ ↦ ?_
    refine Tracks.mono (L := _ * statementLists templates)
      ((h ts (Nat.le_refl _)).bind fun s rest hok _ ↦ ?_) ?_
    · -- Behind the first statement the stream is shorter.
      have hlt := (agree_stmt ts.length).takes (Nat.le_refl _) hok
      exact (ih rest.length (by omega) (fun us hus ↦ h us (by omega)) rfl).map _
    · rintro _ ⟨us, ⟨s, hs⟩, vs, ⟨ss, hss⟩, rfl⟩
      exact ⟨_, .cons hs hss⟩

section Rules

variable {n : Nat} (hinner : ∀ us, us.length < n → Tracks env stmt (statements templates) us)
include hinner

/-- Statements between braces. -/
theorem tracks_block (hts : ts.length ≤ n) : Tracks env (block stmt)
    (between .openBrace .closeBrace (statementLists templates)) ts :=
  tracks_between (fun _ _ ↦ tracks_untilKind (by decide) fun us _ ↦ hinner us (by omega))
    fun _ ss ↦ ss

/-- A body is what stands between braces, or a single statement that begins with another token. -/
theorem tracks_body (hts : ts.length < n) : Tracks env (body stmt) (bodies templates) ts := by
  refine tracks_atMark (fun _ ↦ ?_) fun hbrace ↦ ?_
  · refine (tracks_block hinner (by omega)).mono ?_
    intro us hus
    obtain ⟨l, vs, r, hl, ⟨ss, hss⟩, hr, rfl⟩ := mem_between.mp hus
    exact ⟨(false, ss), .braces l r hl hr hss⟩
  · -- The statement must not begin with a brace.  The rule has looked, so this narrows the first
    -- token of what it tracks and nothing else.
    refine ((hinner ts hts).map _).sharpen ?_ ?_
    · rintro ⟨⟨ajar, s⟩, hs⟩
      obtain ⟨t, us, heq⟩ := hs.exists_cons
      cases heq
    · rintro t us ht ⟨⟨ajar, s⟩, hs⟩
      have hkind : nextKind ts = t.kind := by rw [nextKind, ht]; rfl
      exact ⟨(ajar, [s]), .single (hkind ▸ hbrace) hs⟩

/-- A function, with all its parts one behind the other. -/
theorem tracks_functionDecl (hts : ts.length ≤ n) :
    Tracks env (functionDecl stmt) (functions templates) ts := by
  refine (tracks_expect_bind fun f r₁ _ h₁ ↦ tracks_expect_bind fun name r₂ _ h₂ ↦
    tracks_expect_bind fun _ r₃ _ h₃ ↦ tracks_parameterList.bind fun ps r₄ _ h₄ ↦
    tracks_expect_bind fun _ r₅ _ h₅ ↦ (tracks_block hinner (by omega)).map _).mono ?_
  rintro _ ⟨_, ⟨f, hf, rfl⟩, _, ⟨_, ⟨n, hn, rfl⟩, _, ⟨_, ⟨l, hl, rfl⟩, _, ⟨us, ⟨ps, hps⟩, _,
    ⟨_, ⟨r, hr, rfl⟩, _, hblock, rfl⟩, rfl⟩, rfl⟩, rfl⟩, rfl⟩
  obtain ⟨o, vs, c, ho, ⟨ss, hss⟩, hc, rfl⟩ := mem_between.mp hblock
  exact ⟨(none, _, ps, ss), .function none f n l r o c hf hn hl hr ho hc hps hss⟩

/-- What stands behind `export`. -/
theorem tracks_exportStmt (henv : env.ReadsOnly templates) (hts : ts.length ≤ n) :
    Tracks env (exportStmt stmt) (statements templates) ts := by
  -- Whatever has been read of an export, `default x;` completes it.
  have hspeakable : ∀ x, x.kind = .keyword .exportWord →
      Speakable (after [x] (statements templates)) := by
    intro x hx
    refine ⟨[keywordToken .defaultWord, identifierToken "x", markToken .semicolon], ?_, ?_⟩
    · exact ⟨(false, _), .exportDefault none x (keywordToken .defaultWord) (markToken .semicolon) hx
        rfl rfl (written_assignment_x templates)⟩
    · simpa using ⟨scanned_keywordToken _, scanned_identifierToken, scanned_markToken _⟩
  -- What may stand behind `export` depends on the next token, so this is no product.  The language
  -- left over is what completes the word that has been read.
  refine tracks_expect.bind_of ?_ ?_
  · rintro _ ⟨x, hx, rfl⟩
    obtain ⟨us, hus, hscanned⟩ := (hspeakable x hx).viable
    exact ⟨us, hus, hscanned⟩
  rintro _ t rest rfl ⟨x, hx, rfl⟩ -
  have := hspeakable x hx
  have hvariable : nextKind rest ∈ declarationWords → Tracks env
      (do return Stmt.exportDecl (some t.pos) (.variable (← variableStmt)) [] false)
      (after [x] (statements templates)) rest := by
    intro hword
    refine ((tracks_variableStmt henv hword).map _).mono ?_
    rintro _ ⟨us, ⟨v, hv⟩, _, ⟨e, he, rfl⟩, rfl⟩
    exact ⟨(false, _), .exportVariable none x e hx he hv⟩
  -- One case for each kind of token behind `export`.
  refine tracks_peek ?_
  split
  · rename_i hk
    obtain ⟨d, rest, rfl, hd⟩ := exists_cons_of_nextKind hk (by decide)
    refine tracks_next_of (tracks_atKeyword (fun _ ↦ ?_) fun _ ↦ ?_)
    · refine ((tracks_functionDecl hinner (by simp at hts; omega)).map _).mono ?_
      rintro us ⟨⟨p, f, ps, ss⟩, h⟩
      exact ⟨(false, _), .exportDefaultFunction none p x d hx hd h⟩
    · refine ((tracks_expr henv).bind fun _ _ _ _ ↦ tracks_expect.map _).mono ?_
      rintro _ ⟨us, ⟨value, hvalue⟩, _, ⟨e, he, rfl⟩, rfl⟩
      exact ⟨(false, _), .exportDefault none x d e hx hd he hvalue⟩
  · refine ((tracks_functionDecl hinner (by simp at hts; omega)).map _).mono ?_
    rintro us ⟨⟨p, f, ps, ss⟩, h⟩
    exact ⟨(false, _), .exportFunction none p x hx h⟩
  · rename_i hk
    exact hvariable (by rw [hk]; decide)
  · rename_i hk
    exact hvariable (by rw [hk]; decide)
  · rename_i hk
    exact hvariable (by rw [hk]; decide)
  · rename_i hk
    have hnames : ∀ us, Tracks env (listed .closeBrace exportedName)
        (phrases (WrittenListed WrittenExported)) us :=
      fun _ ↦ tracks_listed .closeBrace (fun _ ↦ agree_exportedName) fun _ _ _ ↦ tracks_exportedName
    refine (tracks_next_kind hk (by decide) fun _ _ _ _ ↦ (hnames _).bind fun _ _ _ _ ↦
      tracks_expect_bind fun _ _ _ _ ↦ tracks_expect.map _).mono ?_
    rintro _ ⟨_, ⟨l, hl, rfl⟩, _, ⟨us, ⟨ns, hns⟩, _, ⟨_, ⟨r, hr, rfl⟩, _, ⟨e, he, rfl⟩, rfl⟩, rfl⟩,
      rfl⟩
    exact ⟨(false, _), .exportNames none x l r e hx hl hr he hns⟩
  · exact tracks_fail _ _

/-- The branches of an `if`.  If `else` follows the first one, that was not ajar. -/
theorem tracks_branches (henv : env.ReadsOnly templates) (hts : ts.length < n)
    (g : List Stmt → List Stmt → Stmt) (h : List Stmt → Stmt) :
    Tracks env (do
        let yes ← body stmt
        if ← atKeyword .elseWord then
          let _ ← next
          let no ← body stmt
          return g yes no
        else return h yes)
      (bodies templates + (phrases fun ss ↦ WrittenStmt templates (.body false ss)) *
        (ofKind (.keyword .elseWord) * bodies templates)) ts := by
  refine (tracks_body hinner hts).bind_of (fun us hus ↦ .of_mem (.inl hus)) ?_
  rintro us yes rest rfl hus hok
  -- The branch has been read, so it is known whether it is ajar, and not only that it can be
  -- written.
  obtain ⟨us', ajar, heq, hyes, hfollow⟩ := written_body henv hok
  obtain rfl := List.append_cancel_right heq
  refine tracks_atKeyword (fun helse ↦ ?_) fun _ ↦ tracks_pure (.inl (us.append_nil.symm ▸ hus))
  -- If it were, no `else` could follow it.
  obtain rfl : ajar = false := by
    cases ajar with
    | false => rfl
    | true => exact absurd helse (hfollow rfl)
  refine (tracks_next_kind helse (by decide) fun _ rest' _ hrest' ↦
    (tracks_body hinner (by simp at hts; omega)).map _).mono fun vs hvs ↦ .inr ?_
  exact Language.mem_mul.mpr ⟨us, ⟨yes, hyes⟩, vs, hvs, rfl⟩

/-- An `if`, with `else` or without. -/
theorem tracks_ifStmt (henv : env.ReadsOnly templates) (hts : ts.length ≤ n) :
    Tracks env (ifStmt stmt) (statements templates) ts := by
  refine (tracks_expect_bind fun t r₁ _ h₁ ↦ (tracks_condition henv).bind fun test r₂ _ h₂ ↦
    tracks_branches hinner henv (by omega) _ _).mono ?_
  rintro _ ⟨_, ⟨w, hw, rfl⟩, _, ⟨_, hcond, vs, hvs, rfl⟩, rfl⟩
  obtain ⟨l, us, r, hl, ⟨test, htest⟩, hr, rfl⟩ := mem_between.mp hcond
  obtain ⟨⟨ajar, yes⟩, hyes⟩ |
    ⟨vs, ⟨yes, hyes⟩, _, ⟨_, ⟨x, hx, rfl⟩, ws, ⟨⟨ajar, no⟩, hno⟩, rfl⟩, rfl⟩ := hvs
  · -- Without `else` the statement is ajar, and with it, if its second branch is.
    exact ⟨(true, _), by simpa using .ifThen none w l r hw hl hr htest hyes⟩
  · exact ⟨(ajar, _), by simpa using .ifElse none w l r x hw hl hr hx htest hyes hno⟩

/-- A `for` loop, with its three parts and the marks between them. -/
theorem tracks_forStmt (henv : env.ReadsOnly templates) (hts : ts.length ≤ n) :
    Tracks env (forStmt stmt) (statements templates) ts := by
  refine (tracks_expect_bind fun t r₁ _ h₁ ↦ tracks_expect_bind fun _ r₂ _ h₂ ↦
    (tracks_forInit henv).bind fun _ r₃ _ h₃ ↦ tracks_expect_bind fun _ r₄ _ h₄ ↦
    (tracks_exprUnless henv _).bind fun _ r₅ _ h₅ ↦ tracks_expect_bind fun _ r₆ _ h₆ ↦
    (tracks_exprUnless henv _).bind fun _ r₇ _ h₇ ↦ tracks_expect_bind fun _ r₈ _ h₈ ↦
    (tracks_body hinner (by omega)).map _).mono ?_
  rintro _ ⟨_, ⟨w, hw, rfl⟩, _, ⟨_, ⟨l, hl, rfl⟩, _, ⟨us, ⟨i, hi⟩, _, ⟨_, ⟨m, hm, rfl⟩, _,
    ⟨vs, ⟨test, htest⟩, _, ⟨_, ⟨e, he, rfl⟩, _, ⟨ws, ⟨update, hupdate⟩, _, ⟨_, ⟨r, hr, rfl⟩, xs,
    ⟨⟨ajar, ss⟩, hss⟩, rfl⟩, rfl⟩, rfl⟩, rfl⟩, rfl⟩, rfl⟩, rfl⟩, rfl⟩
  exact ⟨(ajar, _), .forLoop none w l m e r hw hl hm he hr hi htest hupdate hss⟩

theorem tracks_whileStmt (henv : env.ReadsOnly templates) (hts : ts.length ≤ n) :
    Tracks env (whileStmt stmt) (statements templates) ts := by
  refine (tracks_expect_bind fun t r₁ _ h₁ ↦ (tracks_condition henv).bind fun _ r₂ _ h₂ ↦
    (tracks_body hinner (by omega)).map _).mono ?_
  rintro _ ⟨_, ⟨w, hw, rfl⟩, _, ⟨_, hcond, vs, ⟨⟨ajar, ss⟩, hss⟩, rfl⟩, rfl⟩
  obtain ⟨l, us, r, hl, ⟨test, htest⟩, hr, rfl⟩ := mem_between.mp hcond
  exact ⟨(ajar, _), by simpa using .whileLoop none w l r hw hl hr htest hss⟩

/-- **The rule for the first token tracks the statements**, if those inside are tracked on shorter
streams. -/
theorem tracks_statementRule (henv : env.ReadsOnly templates) (hts : ts.length ≤ n) :
    Tracks env (statementRule stmt (nextKind ts)) (statements templates) ts := by
  have hvariable : nextKind ts ∈ declarationWords → Tracks env
      (do return Stmt.variable (← variableStmt)) (statements templates) ts := by
    intro hword
    refine ((tracks_variableStmt henv hword).map _).mono ?_
    rintro _ ⟨us, ⟨v, hv⟩, _, ⟨e, he, rfl⟩, rfl⟩
    exact ⟨(false, _), .variable e he hv⟩
  -- One case for each kind of token, in the order of the rule.
  unfold statementRule
  split
  · exact tracks_commentStmt (.inl ‹_›)
  · exact tracks_commentStmt (.inr ‹_›)
  · exact tracks_importStmt
  · exact tracks_exportStmt hinner henv hts
  · exact hvariable (by simp [*, declarationWords])
  · exact hvariable (by simp [*, declarationWords])
  · exact hvariable (by simp [*, declarationWords])
  · exact tracks_printStmt henv
  · exact tracks_consoleStmt henv
  · refine (tracks_functionDecl hinner hts).mono ?_
    rintro us ⟨⟨p, f, ps, ss⟩, h⟩
    exact ⟨(false, _), h⟩
  · exact tracks_returnStmt henv
  · exact tracks_ifStmt hinner henv hts
  · exact tracks_forStmt hinner henv hts
  · exact tracks_whileStmt hinner henv hts
  · exact tracks_leaveStmt _ ‹_› fun t e ht he ↦ ⟨(false, _), .breakLoop none t e ht he⟩
  · exact tracks_leaveStmt _ ‹_› fun t e ht he ↦ ⟨(false, _), .continueLoop none t e ht he⟩
  · exact tracks_exprStmt henv

end Rules

/-! ## Closing the recursion -/

/-- **A statement is read up to the first token with which none goes on.** -/
theorem tracks_stmt (henv : env.ReadsOnly templates) :
    Tracks env stmt (statements templates) ts := by
  -- By induction on the length of the stream, since statements stand in statements behind other
  -- tokens.
  induction hn : ts.length using Nat.strongRecOn generalizing ts with
  | ind n ih =>
    rw [stmt_eq]
    exact tracks_peek
      (tracks_statementRule (fun us hus ↦ ih us.length (hn ▸ hus) rfl) henv (Nat.le_refl _))

/-- A program is a list of statements up to the end of the stream. -/
theorem tracks_statements (henv : env.ReadsOnly templates) :
    Tracks env (untilKind [.endOfInput] stmt) (statementLists templates) ts :=
  tracks_untilKind (by decide) fun _ _ ↦ tracks_stmt henv

end Advplc.Grammar

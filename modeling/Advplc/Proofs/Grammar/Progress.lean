import Advplc.Proofs.Grammar.Streams

/-!
# Parsing comes to an end

Whatever the tokens are, a rule that is tried at a cursor moves it forward, over at least one token
if the rule succeeds, and never beyond the end (`Cursor.Moves`, `IsRule.moves`).  That is the
measure by which everything ends that the grammar does repeatedly:

* The repetitions inside the rules, and the rules that come back to themselves, end in at most as
  many rounds as there are tokens and one more.  `Ends F f` says so for rounds that are given by
  `F`; it has nothing to do with the counts by which the rules are closed off, since what `F` is
  unrolled from is arbitrary.  `Repeats` lists the rounds.
* Templates nest no deeper than their texts are long, because a hole is shorter than the template it
  is in (`readHole_eq`, `iterate_readWith`).

Nothing is assumed about the tokens: they may have any kinds, and no text.  Only for the statement
that a program that is read has been read to the last token (`index_program`) no token may claim to
be the end of the stream.
-/

set_option autoImplicit false

namespace Advplc.Grammar

open Script Parse

/-! ## The rules -/

/-- The rules that can be tried at a cursor, each with the rule without counts that it is. -/
inductive IsRule : {α : Type} → Parse α → Parse α → Prop where
  | stmt : IsRule stmt (statement stmt)
  | comment : IsRule commentStmt commentStmt
  | block : IsRule (enclosed block) (block stmt)
  | body : IsRule (enclosed body) (body stmt)
  | importStmt : IsRule importStmt importStmt
  | importNamed : IsRule importNamed importNamed
  | importNamespace : IsRule importNamespace importNamespace
  | moduleSource : IsRule moduleSource moduleSource
  | exportStmt : IsRule (enclosed exportStmt) (exportStmt stmt)
  | variableDecl : IsRule variableDecl variableDecl
  | variableStmt : IsRule variableStmt variableStmt
  | print : IsRule printStmt printStmt
  | console : IsRule consoleStmt consoleStmt
  | function : IsRule (enclosed functionDecl) (functionDecl stmt)
  | ret : IsRule returnStmt returnStmt
  | ifStmt : IsRule (enclosed ifStmt) (ifStmt stmt)
  | forStmt : IsRule (enclosed forStmt) (forStmt stmt)
  | whileStmt : IsRule (enclosed whileStmt) (whileStmt stmt)
  | exprStmt : IsRule exprStmt exprStmt
  | expr : IsRule expr (assignmentExpr whole)
  | conditional : IsRule (closed conditionalExpr) (conditionalExpr whole)
  | binary {levels : List (List Kind)} (h : levels <:+ binaryLevels) :
      IsRule (closed fun inner ↦ binaryExpr inner levels) (binaryExpr whole levels)
  | unary : IsRule (closed unaryExpr) (unaryExpr whole)
  | suffixed : IsRule (closed suffixed) (suffixed whole)
  | propertyName : IsRule propertyName propertyName
  | arguments : IsRule (closed arguments) (arguments whole)
  | primary : IsRule (closed primary) (primary whole)
  | newExpr : IsRule (closed newExpr) (newExpr whole)
  | objectLiteral : IsRule (closed objectLiteral) (objectLiteral whole)
  | arrayLiteral : IsRule (closed arrayLiteral) (arrayLiteral whole)

/-- A body may be read on all the tokens, so it is closed by one statement less than other rules. -/
theorem enclosed_body : enclosed body = body stmt :=
  eq_of_agree (d := 1) fun _ ↦
    agree_withSize_left fun _ _ ↦ agree_body fun _ hj ↦ agree_stmt_right hj

theorem agree_levels {levels : List (List Kind)} (h : levels <:+ binaryLevels) (k : Nat)
    (inner inner' : Inner) (hinner : ∀ j, j < k → inner.Agree j inner') :
    Agree k 1 (binaryExpr inner levels) (binaryExpr inner' levels) :=
  agree_binaryExpr (fun ops hops ↦ endOfInput_not_mem_binaryLevels ops (h.subset hops)) hinner

namespace IsRule

variable {α : Type} {p q : Parse α}

/-- **Counting the tokens that are left makes no difference to a rule.** -/
theorem eq (h : IsRule p q) : p = q := by
  cases h with
  | stmt => exact stmt_eq
  | block => exact enclosed_eq fun _ _ _ ↦ agree_block
  | body => exact enclosed_body
  | exportStmt => exact enclosed_eq fun _ _ _ ↦ agree_exportStmt
  | function => exact enclosed_eq fun _ _ _ ↦ agree_functionDecl
  | ifStmt => exact enclosed_eq fun _ _ _ ↦ agree_ifStmt
  | forStmt => exact enclosed_eq fun _ _ _ ↦ agree_forStmt
  | whileStmt => exact enclosed_eq fun _ _ _ ↦ agree_whileStmt
  | expr => exact expr_eq
  | conditional => exact closed_eq fun _ _ _ ↦ agree_conditionalExpr
  | binary h => exact closed_eq (agree_levels h)
  | unary => exact closed_eq fun _ _ _ ↦ agree_unaryExpr
  | suffixed => exact closed_eq fun _ _ _ ↦ agree_suffixed
  | arguments => exact closed_arguments
  | primary => exact closed_eq fun _ _ _ ↦ agree_primary
  | newExpr => exact closed_eq fun _ _ _ ↦ agree_newExpr
  | objectLiteral => exact closed_eq fun _ _ _ ↦ agree_objectLiteral
  | arrayLiteral => exact closed_eq fun _ _ _ ↦ agree_arrayLiteral
  | _ => rfl

/-- Every rule takes a token when it succeeds. -/
theorem agree (h : IsRule p q) (k : Nat) : Agree k 1 q q := by
  cases h with
  | stmt => exact agree_statement fun j _ ↦ agree_stmt j
  | comment => exact agree_commentStmt
  | block => exact agree_block fun j _ ↦ agree_stmt j
  | body => exact agree_body fun j _ ↦ agree_stmt j
  | importStmt => exact agree_importStmt
  | importNamed => exact agree_importNamed
  | importNamespace => exact agree_importNamespace
  | moduleSource => exact agree_moduleSource
  | exportStmt => exact agree_exportStmt fun j _ ↦ agree_stmt j
  | variableDecl => exact agree_variableDecl
  | variableStmt => exact agree_variableStmt
  | print => exact agree_printStmt
  | console => exact agree_consoleStmt
  | function => exact agree_functionDecl fun j _ ↦ agree_stmt j
  | ret => exact agree_returnStmt
  | ifStmt => exact agree_ifStmt fun j _ ↦ agree_stmt j
  | forStmt => exact agree_forStmt fun j _ ↦ agree_stmt j
  | whileStmt => exact agree_whileStmt fun j _ ↦ agree_stmt j
  | exprStmt => exact agree_exprStmt
  | expr => exact agree_assignmentExpr fun j _ ↦ whole_agree j
  | conditional => exact agree_conditionalExpr fun j _ ↦ whole_agree j
  | binary h => exact agree_levels h k _ _ fun j _ ↦ whole_agree j
  | unary => exact agree_unaryExpr fun j _ ↦ whole_agree j
  | suffixed => exact agree_suffixed fun j _ ↦ whole_agree j
  | propertyName => exact agree_propertyName
  | arguments => exact agree_arguments fun j _ ↦ whole_agree j
  | primary => exact agree_primary fun j _ ↦ whole_agree j
  | newExpr => exact agree_newExpr fun j _ ↦ whole_agree j
  | objectLiteral => exact agree_objectLiteral fun j _ ↦ whole_agree j
  | arrayLiteral => exact agree_arrayLiteral fun j _ ↦ whole_agree j

end IsRule

/-! ## Cursors -/

namespace Cursor

variable {α : Type} {c : Cursor} {p : Parse α} {d : Nat}

/-- What trying a rule does to a cursor, at least `d` tokens further on if the rule succeeds. -/
structure Moves (c : Cursor) (p : Parse α) (d : Nat) : Prop where
  /-- The stream stays as it is. -/
  tokens : (c.run p).2.tokens = c.tokens
  /-- What lies ahead of the cursor is what the rule has left. -/
  ahead : (c.run p).2.rest = (p (Context.of c.tokens c.start) c.rest).rest
  /-- The cursor does not move back, whether the rule succeeds or fails. -/
  index_le : c.index ≤ (c.run p).2.index
  /-- The cursor does not move beyond the end. -/
  le_length : (c.run p).2.index ≤ c.tokens.length
  /-- A success moves the cursor forward. -/
  takes : ∀ a, (c.run p).1 = .ok a → c.index + d ≤ (c.run p).2.index

theorem run_snd (c : Cursor) (p : Parse α) : (c.run p).2 =
    { c with index := c.tokens.length - (p (Context.of c.tokens c.start) c.rest).rest.length } := by
  rw [run]
  cases p (Context.of c.tokens c.start) c.rest <;> rfl

theorem run_eq_ok {a : α} (h : (c.run p).1 = .ok a) :
    ∃ rest, p (Context.of c.tokens c.start) c.rest = .ok a rest := by
  rw [run] at h
  cases hp : p (Context.of c.tokens c.start) c.rest with
  | ok b rest =>
    rw [hp] at h
    cases h
    exact ⟨rest, rfl⟩
  | error f rest =>
    rw [hp] at h
    cases h

/-- What a rule does to the stream it does to the cursor. -/
theorem moves_of_agree (h : ∀ k, Agree k d p p) (hc : c.index ≤ c.tokens.length) : c.Moves p d := by
  have hlength : c.rest.length = c.tokens.length - c.index := List.length_drop
  have hsuffix : (p (Context.of c.tokens c.start) c.rest).rest <:+ c.rest :=
    (h c.rest.length).rest_suffix (Nat.le_refl _)
  have hle := hsuffix.length_le
  refine ⟨by rw [run_snd], ?_, ?_, ?_, fun a ha ↦ ?_⟩
  · rw [run_snd]
    exact (List.suffix_iff_eq_drop.mp (hsuffix.trans (List.drop_suffix _ _))).symm
  · rw [run_snd]
    show c.index ≤ c.tokens.length - _
    omega
  · rw [run_snd]
    exact Nat.sub_le _ _
  · obtain ⟨rest, hok⟩ := run_eq_ok ha
    have htakes := (h c.rest.length).takes (Nat.le_refl _) hok
    rw [run_snd, hok]
    show c.index + d ≤ c.tokens.length - rest.length
    omega

end Cursor

/-- **Each rule moves the cursor forward when it succeeds, and never back or beyond the end.** -/
theorem IsRule.moves {α : Type} {p q : Parse α} (h : IsRule p q) {c : Cursor}
    (hc : c.index ≤ c.tokens.length) : c.Moves p 1 := by
  rw [h.eq]
  exact Cursor.moves_of_agree h.agree hc

/-! ## Rounds -/

section Rounds

variable {ι α : Type} {F : (ι → Parse α) → ι → Parse α} {f : ι → Parse α}

/-- Whether `f` goes through rounds of `F`, and these end: on fewer than `n` tokens, the last of `n`
rounds does not go on, so that it does not matter what it would go on with. -/
structure Ends (F : (ι → Parse α) → ι → Parse α) (f : ι → Parse α) : Prop where
  round : ∀ i, f i = F f i
  ends : ∀ P n i env ts, ts.length < n → F^[n] P i env ts = f i env ts

/-- **Rounds end if each of them takes a token before the next.** -/
theorem ends_of_guarded {d : Nat} (hF : ∀ K, Guarded K d F F) (hf : ∀ i, f i = F f i) :
    Ends F f where
  round := hf
  ends P n i env ts hn := by
    -- By induction on the tokens that are left; the rounds only have to be more than these.
    have hagree : ∀ k n, k < n → ∀ i, Agree k d (F^[n] P i) (f i) := by
      intro k
      induction k using Nat.strongRecOn with
      | ind k ih =>
        intro n hk i
        obtain ⟨n, rfl⟩ := Nat.exists_eq_succ_of_ne_zero (Nat.ne_zero_of_lt hk)
        rw [Function.iterate_succ_apply', hf]
        exact hF k k (Nat.le_refl k) _ _ (fun j hj i ↦ ih j hj n (by omega) i) i
    exact (hagree ts.length n hn i).eq (Nat.le_refl _)

end Rounds

/-- The two parsers for inner expressions, as one family. -/
def nest : Bool → Parse Expr
  | true => expr
  | false => unary

/-- What the grammar does repeatedly: the round, and the parser that goes through the rounds. -/
inductive Repeats : {ι α : Type} → ((ι → Parse α) → ι → Parse α) → (ι → Parse α) → Prop where
  /-- The statements of a program. -/
  | program : Repeats (untilStep [.endOfInput] stmt) fun _ ↦ untilKind [.endOfInput] stmt
  /-- The statements of a block. -/
  | block : Repeats (untilStep [.mark .closeBrace, .endOfInput] stmt)
      fun _ ↦ untilKind [.mark .closeBrace, .endOfInput] stmt
  /-- The names of an import. -/
  | imports : Repeats (listedStep .closeBrace namedSpecifier)
      fun _ ↦ listed .closeBrace namedSpecifier
  /-- The names of an export. -/
  | exports : Repeats (listedStep .closeBrace exportedName) fun _ ↦ listed .closeBrace exportedName
  /-- The parameters of a function. -/
  | parameters : Repeats (separatedStep parameter) fun _ ↦ separated parameter
  /-- The arguments of a call or of an output statement. -/
  | arguments : Repeats (separatedStep expr) fun _ ↦ separated expr
  /-- The operands of one level of binary operators. -/
  | operands {ops : List Kind} {tighter : List (List Kind)} (h : ops :: tighter <:+ binaryLevels) :
      Repeats (chainStep (binaryExpr whole tighter) ops) (chain (binaryExpr whole tighter) ops)
  /-- The members and calls behind an expression. -/
  | suffixes : Repeats (suffixesStep whole) (suffixes whole)
  /-- The names behind the points of the callee of `new`. -/
  | callee : Repeats calleeStep callee
  /-- The properties of an object literal. -/
  | properties : Repeats (listedStep .closeBrace (property whole))
      fun _ ↦ listed .closeBrace (property whole)
  /-- The elements of an array literal. -/
  | elements : Repeats (listedStep .closeBracket expr) fun _ ↦ listed .closeBracket expr
  /-- Expressions inside expressions. -/
  | exprs : Repeats nestStep nest
  /-- Statements inside statements. -/
  | stmts : Repeats stmtStep fun _ ↦ stmt

/-- **What the grammar does repeatedly comes to an end.** -/
theorem Repeats.ends {ι α : Type} {F : (ι → Parse α) → ι → Parse α} {f : ι → Parse α}
    (h : Repeats F f) : Ends F f := by
  have hproperty : ∀ k, Agree k 1 (property whole) (property whole) := fun k ↦
    agree_property fun j _ ↦ whole_agree j
  have hparameter : ∀ k, Agree k 1 parameter parameter := fun k ↦
    (agree_expect _).bind_one fun _ _ ↦ Agree.pure _
  cases h with
  | program =>
    exact ends_of_guarded (fun K ↦ guarded_untilStep _ (agree_stmt K))
      fun _ ↦ untilKind_eq (by decide) agree_stmt
  | block =>
    exact ends_of_guarded (fun K ↦ guarded_untilStep _ (agree_stmt K))
      fun _ ↦ untilKind_eq (by decide) agree_stmt
  | imports =>
    exact ends_of_guarded (fun _ ↦ guarded_listedStep _ agree_namedSpecifier)
      fun _ ↦ listed_eq _ fun _ ↦ agree_namedSpecifier
  | exports =>
    exact ends_of_guarded (fun _ ↦ guarded_listedStep _ agree_exportedName)
      fun _ ↦ listed_eq _ fun _ ↦ agree_exportedName
  | parameters =>
    exact ends_of_guarded (fun K ↦ guarded_separatedStep (hparameter K))
      fun _ ↦ separated_eq hparameter
  | arguments =>
    exact ends_of_guarded (fun K ↦ guarded_separatedStep (agree_expr K))
      fun _ ↦ separated_eq agree_expr
  | @operands ops tighter h =>
    have hoperand : ∀ k, Agree k 1 (binaryExpr whole tighter) (binaryExpr whole tighter) := fun k ↦
      agree_levels ((List.suffix_cons ops tighter).trans h) k _ _ fun j _ ↦ whole_agree j
    have hops := endOfInput_not_mem_binaryLevels ops (h.subset List.mem_cons_self)
    exact ends_of_guarded (fun _ ↦ guarded_chainStep fun j _ ↦ hoperand j) (chain_eq hops hoperand)
  | suffixes =>
    exact ends_of_guarded (fun _ ↦ guarded_suffixesStep fun j _ ↦ whole_agree j)
      (suffixes_eq whole_agree)
  | callee => exact ends_of_guarded guarded_calleeStep callee_eq
  | properties =>
    exact ends_of_guarded (fun K ↦ guarded_listedStep _ (hproperty K))
      fun _ ↦ listed_eq _ hproperty
  | elements =>
    exact ends_of_guarded (fun K ↦ guarded_listedStep _ (agree_expr K))
      fun _ ↦ listed_eq _ agree_expr
  | exprs =>
    exact ends_of_guarded guarded_nestStep fun i ↦ match i with
      | true => expr_eq
      | false => unary_eq
  | stmts => exact ends_of_guarded guarded_stmtStep fun _ ↦ stmt_eq

/-! ## Templates inside templates -/

section Holes

variable {read read' : Text → Pos → Except Fault Expr} {source : Text} {p : Pos}

/-- Reads the source of a hole, where `read` reads the holes of the templates in it. -/
def readWith (read : Text → Pos → Except Fault Expr) (source : Text) (p : Pos) :
    Except Fault Expr :=
  match tokenize source p with
  | .error e => .error (.lexical e)
  | .ok ts =>
    match standalone ⟨endPosition ts p, read⟩ ts with
    | .ok e _ => .ok e
    | .error f _ => .error f

theorem agree_standalone (k : Nat) : Agree k 1 standalone standalone :=
  (agree_expr k).bind_one fun _ _ ↦ (agree_check _).bind_zero fun _ ↦
    Agree.ite (Agree.pure _) (agree_fail 0 _ _)

/-- Only shorter sources are read in the course of reading one. -/
theorem readWith_congr (h : ∀ s q, s.length < source.length → read s q = read' s q) :
    readWith read source p = readWith read' source p := by
  rw [readWith, readWith]
  cases hts : tokenize source p with
  | error e => rfl
  | ok ts =>
    have halike : Context.Alike ⟨endPosition ts p, read⟩ ⟨endPosition ts p, read'⟩ ts :=
      ⟨rfl, fun t ht w hw s q hlt ↦
        h s q (Nat.lt_of_lt_of_le hlt (length_le_of_tokenize hts ht hw))⟩
    have heq := (agree_standalone ts.length _ _ ts halike (Nat.le_refl _)).1
    simp only [heq]

/-- On a source shorter than both counts, it does not matter how often reading is unrolled, nor from
what. -/
theorem iterate_readWith_eq {n m : Nat} (hn : source.length < n) (hm : source.length < m) :
    readWith^[n] read source p = readWith^[m] read' source p := by
  induction n generalizing m source p with
  | zero => exact absurd hn (Nat.not_lt_zero _)
  | succ n ih =>
    obtain ⟨m, rfl⟩ := Nat.exists_eq_succ_of_ne_zero (Nat.ne_zero_of_lt hm)
    rw [Function.iterate_succ_apply', Function.iterate_succ_apply']
    exact readWith_congr fun s q hs ↦ ih (by omega) (by omega)

theorem holeAt_eq_iterate (n : Nat) : holeAt n = readWith^[n] (holeAt 0) := by
  induction n with
  | zero => rfl
  | succ n ih =>
    rw [Function.iterate_succ_apply', ← ih]
    funext source p
    exact holeAt_succ n source p

/-- **Reading a hole ends**: whatever is done with the templates that nest as deep as the source is
long, there are none. -/
theorem iterate_readWith {n : Nat} (hn : source.length < n) :
    readWith^[n] read source p = readHole source p := by
  rw [readHole, holeAt_eq_iterate]
  exact iterate_readWith_eq hn (Nat.lt_succ_self _)

/-- **The holes inside a hole are read like the hole itself.** -/
theorem readHole_eq : readHole source p = readWith readHole source p := by
  have hread : readWith^[source.length + 1] readHole source p = readHole source p :=
    iterate_readWith (Nat.lt_succ_self _)
  rw [← hread, Function.iterate_succ_apply']
  exact readWith_congr fun s q hs ↦ iterate_readWith hs

end Holes

/-! ## Programs -/

theorem agree_program (k : Nat) : Agree k 0 program program := by
  intro env env' ts halike hts
  have hagree : Agree k 0 (untilKind [.endOfInput] stmt) (untilKind [.endOfInput] stmt) :=
    agree_untilKind (by decide) (agree_stmt k)
  obtain ⟨heq, hrest, htakes⟩ := hagree env env' ts halike hts
  rw [program, program, ← heq]
  generalize untilKind [.endOfInput] stmt env ts = outcome at hrest htakes
  cases outcome with
  | ok body rest =>
    refine ⟨rfl, hrest, fun a rest' hok ↦ ?_⟩
    cases hok
    exact htakes body rest rfl
  | error f rest => cases f <;> exact ⟨rfl, hrest, fun a rest' hok ↦ by cases hok⟩

/-- **A program that is read has been read to the last token.** -/
theorem index_program {c : Cursor} {prog : Program} (h : (c.run program).1 = .ok prog)
    (hend : ∀ t ∈ c.rest, t.kind ≠ .endOfInput) :
    (c.run program).2.index = c.tokens.length := by
  obtain ⟨rest, hok⟩ := Cursor.run_eq_ok h
  have hsuffix : (program (Context.of c.tokens c.start) c.rest).rest <:+ c.rest :=
    (agree_program c.rest.length).rest_suffix (Nat.le_refl _)
  rw [hok] at hsuffix
  have hnil : rest = [] := by
    cases rest with
    | nil => rfl
    | cons t rest =>
      exact absurd (nextKind_of_program hok) (hend t (hsuffix.subset List.mem_cons_self))
  rw [Cursor.run_snd, hok, hnil]
  rfl

/-! ## The parser as a whole -/

/-- **The parser always makes progress.**  A rule that is tried at a cursor leaves the stream as it
is and the cursor between its old place and the end, further on if the rule succeeds.  What the
rules do repeatedly ends, and so does reading the holes of templates, and the scan of a template for
them.  A program is read to the last token. -/
theorem parser_progresses :
    (∀ (α : Type) (p q : Parse α), IsRule p q →
      p = q ∧ ∀ c : Cursor, c.index ≤ c.tokens.length → c.Moves p 1) ∧
    (∀ (ι α : Type) (F : (ι → Parse α) → ι → Parse α) (f : ι → Parse α), Repeats F f → Ends F f) ∧
    (∀ source p, readHole source p = readWith readHole source p ∧
      ∀ read n, source.length < n → readWith^[n] read source p = readHole source p) ∧
    (∀ t behind, (Outline.chunk t).2 = some behind → behind.length < t.length ∧
      ∀ source rest, Outline.source 0 none behind = some (source, rest) →
        source.length + rest.length < behind.length) ∧
    ∀ c : Cursor, c.index ≤ c.tokens.length → c.Moves program 0 ∧
      ∀ prog, (c.run program).1 = .ok prog → (∀ t ∈ c.rest, t.kind ≠ .endOfInput) →
        (c.run program).2.index = c.tokens.length := by
  refine ⟨fun α p q h ↦ ⟨h.eq, fun c hc ↦ h.moves hc⟩, fun ι α F f h ↦ h.ends,
    fun source p ↦ ⟨readHole_eq, fun read n hn ↦ iterate_readWith hn⟩,
    fun t behind hchunk ↦ ⟨Outline.length_of_chunk hchunk, fun source rest h ↦ ?_⟩,
    fun c hc ↦ ⟨Cursor.moves_of_agree agree_program hc, fun prog h hend ↦ index_program h hend⟩⟩
  exact Outline.length_of_source h

/-- A statement, and behind it a token of no known kind and without a text. -/
def oddStream : List Token :=
  [⟨.identifier, .absent, ⟨1, 1⟩⟩, ⟨.mark .semicolon, ";", ⟨1, 2⟩⟩, ⟨.other "ODD", .absent, ⟨1, 3⟩⟩]

theorem parser_progresses_sample :
    (oddStream.length = 3 ∧ Cursor.Moves ⟨oddStream, 0, ⟨1, 1⟩⟩ stmt 1 ∧
      Cursor.Moves ⟨oddStream, 2, ⟨1, 1⟩⟩ (closed primary) 1 ∧
      Cursor.Moves ⟨oddStream, 0, ⟨1, 1⟩⟩ program 0) ∧
    Ends (untilStep [.endOfInput] stmt) (fun _ ↦ untilKind [.endOfInput] stmt) ∧
    readWith^[3] (fun _ p ↦ .error (.openHole p)) "ab" ⟨1, 3⟩ = readHole "ab" ⟨1, 3⟩ ∧
    ((Text.ofString "b\x7dc").length < (Text.ofString "a$\x7bb\x7dc").length ∧
      (Text.ofString "b").length + (Text.ofString "c").length < (Text.ofString "b\x7dc").length) ∧
    (Cursor.run ⟨oddStream.take 2, 0, ⟨1, 1⟩⟩ program).2.index = 2 := by
  obtain ⟨hrules, hrounds, hholes, houtline, hprogram⟩ := parser_progresses
  have hhole := houtline "a$\x7bb\x7dc" "b\x7dc" (by decide)
  refine ⟨⟨rfl, (hrules _ _ _ .stmt).2 _ (by decide), (hrules _ _ _ .primary).2 _ (by decide),
    (hprogram _ (by decide)).1⟩, hrounds _ _ _ _ .program, (hholes _ _).2 _ _ (by decide),
    ⟨hhole.1, hhole.2 "b" "c" (by decide)⟩, ?_⟩
  exact (hprogram ⟨oddStream.take 2, 0, ⟨1, 1⟩⟩ (by decide)).2
    ⟨some ⟨1, 1⟩, [.expr (some ⟨1, 1⟩) (.name (some ⟨1, 1⟩) .absent)]⟩ rfl (by decide)

end Advplc.Grammar

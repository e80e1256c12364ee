import Advplc.Proofs.Grammar.Unrolled
import Advplc.Proofs.Lowering.CommentBody
import Advplc.Proofs.Lowering.Session
import Advplc.Proofs.Token.Lines

/-!
# Comments stay comments

The text of a comment is written into the file, so nothing in it may end the comment there.  A block
comment of a source ends where the lexer first sees `*/`.  On the way into the file its lines lose a
column of stars and get another one, and they are trimmed and indented; but a star that is put
before a line is put there with a space behind it, and what is left of a line stands somewhere in
the comment as it is.  So a star is nowhere followed by a slash that was not (`Unclosed.body`), and
`*/` is nowhere but at the end of what is written.

`Holds` says what stands in between, and `comment_token_written` says both of every comment token of
a source.
-/

set_option autoImplicit false

namespace Advplc

variable {s t u : Text}

/-! ## Texts without the end of a comment -/

/-- No star in the text has a slash behind it. -/
def Text.Unclosed (t : Text) : Prop := t.IsChain fun c d : CodePoint ↦ ¬ (c = '*' ∧ d = '/')

namespace Text.Unclosed

theorem mono (h : Unclosed t) (hs : s <:+: t) : Unclosed s := List.IsChain.infix h hs

theorem append (hs : Unclosed s) (ht : Unclosed t)
    (h : s.getLast? ≠ some (.scalar '*') ∨ t.head? ≠ some (.scalar '/')) : Unclosed (s ++ t) := by
  refine List.IsChain.append hs ht fun c hc d hd ⟨hstar, hslash⟩ ↦ ?_
  rcases h with h | h
  · exact h (hstar ▸ Option.mem_def.mp hc)
  · exact h (hslash ▸ Option.mem_def.mp hd)

theorem of_notMem (h : (.scalar '*') ∉ t) : Unclosed t := by
  refine List.isChain_iff_forall_rel_of_append_cons_cons.mpr ?_
  rintro c d before behind rfl ⟨rfl, -⟩
  exact h (by simp)

theorem padded {pad : Text} (hpad : ∀ c ∈ pad, c.isBlank = true) (ht : Unclosed t) :
    Unclosed (pad ++ t) := by
  have hstar : (.scalar '*') ∉ pad := fun h ↦ absurd (hpad _ h) (by decide)
  exact (of_notMem hstar).append ht (.inl fun h ↦ hstar (List.mem_of_getLast? h))

/-- Lines below each other. -/
theorem body {ls : List Text} (hls : ∀ l ∈ ls, Unclosed l) (ht : Unclosed t) :
    Unclosed (Target.body ls ++ t) := by
  induction ls with
  | nil => exact ht
  | cons l ls ih =>
    rw [List.forall_mem_cons] at hls
    have hfeed : Unclosed [.scalar '\n'] := of_notMem (by decide)
    have hrest := hfeed.append (ih hls.2) (.inl (by decide))
    rw [Target.body, List.flatMap_cons, List.append_assoc, List.append_assoc]
    exact hls.1.append hrest (.inr (by simp))

/-- With a slash behind the text, the end of a comment is at the end or nowhere. -/
theorem eq_nil {x y : Text} (ht : Unclosed t) (h : t ++ [.scalar '/'] = x ++ ("*/" : Text) ++ y) :
    y = [] := by
  rcases List.eq_nil_or_concat' y with rfl | ⟨y, c, rfl⟩
  · rfl
  · rw [← List.append_assoc] at h
    have hinit : t = x ++ .scalar '*' :: .scalar '/' :: y := by
      simpa [Text.ofString] using (List.append_inj' h rfl).1
    exact absurd ⟨rfl, rfl⟩ (List.isChain_iff_forall_rel_of_append_cons_cons.mp ht hinit)

end Text.Unclosed

open Text (Unclosed visible joinWith times)

/-! ## Comment tokens -/

namespace Rule

/-- A comment ends where its end is seen first. -/
theorem exists_of_commentEnd {n : Nat} (h : commentEnd t = some n) :
    ∃ b, t.take n = b ++ "*/" ∧ Unclosed b := by
  induction t generalizing n with
  | nil => cases h
  | cons c t ih =>
    rw [commentEnd_cons] at h
    by_cases hend : c = '*' ∧ t.head? = some (.scalar '/')
    · rw [if_pos hend, Option.some.injEq] at h
      obtain ⟨rest, rfl⟩ := List.head?_eq_some_iff.mp hend.2
      obtain ⟨rfl, -⟩ := hend
      subst h
      exact ⟨[], rfl, List.IsChain.nil⟩
    · rw [if_neg hend] at h
      obtain ⟨m, hm, rfl⟩ := Option.map_eq_some_iff.mp h
      obtain ⟨b, hb, hopen⟩ := ih hm
      refine ⟨c :: b, by rw [List.take_succ_cons, hb, List.cons_append], ?_⟩
      refine List.isChain_cons.mpr ⟨fun d hd ⟨hstar, hslash⟩ ↦ hend ⟨hstar, ?_⟩, hopen⟩
      -- The slash would be the first of the text behind the star.
      obtain ⟨b, rfl⟩ := List.head?_eq_some_iff.mp (Option.mem_def.mp hd)
      rcases t with _ | ⟨e, t⟩
      · cases hm
      · rcases m with _ | m
        · cases hb
        · rw [List.take_succ_cons] at hb
          rw [List.head?_cons, (List.cons.inj hb).1, hslash]

end Rule

/-- **A block comment of a source** ends where its end is seen first. -/
theorem exists_of_blockComment {source : Text} {start : Pos} {t : Token}
    (ht : t ∈ (scan source start).tokens) (hk : t.kind = .blockComment) :
    ∃ b, t.lexeme = .text ("/*" ++ b ++ "*/") ∧ Unclosed b := by
  obtain ⟨before, u, n, hfirst, hlexeme, -⟩ := Scan.exists_first? ht
  obtain ⟨rfl, hpos⟩ := Rule.length_of_first? (hk ▸ hfirst) rfl
  fun_cases Rule.blockComment u with
  | case1 rest n hend =>
    obtain ⟨b, hb, hopen⟩ := Rule.exists_of_commentEnd hend
    refine ⟨b, ?_, hopen⟩
    rw [hlexeme, Rule.blockComment, hend]
    simp [hb, Text.ofString]
  | case2 rest hend => simp [Rule.blockComment, hend] at hpos
  | case3 u hopen => simp [Rule.blockComment] at hpos

/-- **A line comment of a source** goes to the end of the line. -/
theorem exists_of_lineComment {source : Text} {start : Pos} {t : Token}
    (ht : t ∈ (scan source start).tokens) (hk : t.kind = .lineComment) :
    ∃ b, t.lexeme = .text ("//" ++ b) ∧ (.scalar '\n') ∉ b := by
  obtain ⟨before, u, n, hfirst, hlexeme, -⟩ := Scan.exists_first? ht
  obtain ⟨rfl, hpos⟩ := Rule.length_of_first? (hk ▸ hfirst) rfl
  fun_cases Rule.lineComment u with
  | case1 rest =>
    refine ⟨rest.take (Rule.run (· ≠ '\n') rest), ?_, Rule.avoids_run (by decide) rest⟩
    rw [hlexeme, Rule.lineComment, Nat.add_comm]
    rfl
  | case2 u hopen => simp [Rule.lineComment] at hpos

/-! ## What is written -/

/-- A line with the star that goes before it in a comment. -/
def starred (said : Text) : Text := if said = [] then "*" else "* " ++ said

/-- Between the ends of a block comment, `inner` holds what `text` says. -/
inductive Holds (text : Text) : Text → Prop
  | line (h : (.scalar '\n') ∉ text) : Holds text (" " ++ text.trim ++ " ")
  | lines {said : List Text} {inner : Text} (h : (.scalar '\n') ∈ text)
      (hsaid : SaysAll text.lines said) (hinner : inner.visible = said.map starred) :
      Holds text inner

section Written

variable {pad text : Text}

section Starred

variable {said : Text} (h : ∀ c ∈ said.getLast?, c.isBlank = false)

include h

theorem trim_starred : (starred said).trim = starred said := by
  by_cases hsaid : said = []
  · subst hsaid
    decide
  · have hlast : Text.trimRight ("* " ++ said) = "* " ++ said :=
      Text.trimRight_of_getLast? (by rwa [List.getLast?_append_of_ne_nil _ hsaid])
    rw [starred, if_neg hsaid]
    exact (Text.trim_cons_of_not_blank (by decide) _).trans hlast

/-- With the gutter before it, nothing is trimmed but the blank of a line that says nothing. -/
theorem trimRight_gutter : Text.trimRight (" * " ++ said) = .scalar ' ' :: starred said := by
  by_cases hsaid : said = []
  · subst hsaid
    decide
  · rw [starred, if_neg hsaid, Text.trimRight_of_getLast?]
    · rfl
    · rwa [List.getLast?_append_of_ne_nil _ hsaid]

end Starred

theorem body_cons (l : Text) (ls : List Text) :
    Target.body (l :: ls) = l ++ .scalar '\n' :: Target.body ls := by
  simp [Target.body]

/-- Lines below each other, with nothing behind the last one. -/
theorem joinWith_concat (ls : List Text) (l : Text) :
    joinWith "\n" (ls ++ [l]) = Target.body ls ++ l := by
  induction ls with
  | nil => exact List.intercalate_singleton
  | cons l' ls ih =>
    rw [List.cons_append, Text.joinWith_cons _ _ (by simp), ih, body_cons]
    simp [Text.ofString]

theorem starred_ne_nil (said : Text) : starred said ≠ [] := by
  rw [starred]
  split <;> simp [Text.ofString]

/-- What can be seen of the lines of a comment. -/
theorem visible_body (hpad : ∀ c ∈ pad, c.isBlank = true) {ls : List Text}
    (hls : ∀ said ∈ ls, (.scalar '\n') ∉ said ∧ ∀ c ∈ said.getLast?, c.isBlank = false) (t : Text) :
    visible (Target.body (ls.map fun said ↦ pad ++ .scalar ' ' :: starred said) ++ t) =
      ls.map starred ++ visible t := by
  induction ls with
  | nil => rfl
  | cons said ls ih =>
    obtain ⟨⟨hfeed, hlast⟩, hls⟩ := List.forall_mem_cons.mp hls
    have hstarred : (.scalar '\n') ∉ starred said := by
      rw [starred]
      split <;> simp [Text.ofString, hfeed]
    have hvisible : visible (starred said) = [starred said] := by
      rw [Text.visible_of_notMem hstarred, trim_starred hlast]
      rw [trim_starred hlast]
      exact starred_ne_nil said
    rw [List.map_cons, body_cons, List.append_assoc, List.append_assoc,
      Text.visible_append_of_blank hpad, List.cons_append, Text.visible_cons_of_blank (by decide),
      List.cons_append, Text.visible_append_feed, ih hls, hvisible]
    rfl

theorem unclosed_starred {said : Text} (h : Unclosed said) :
    Unclosed (.scalar ' ' :: starred said) := by
  by_cases hsaid : said = []
  · subst hsaid
    simp [Unclosed, starred, Text.ofString]
  · have hgutter : Unclosed " * " := by simp [Unclosed, Text.ofString]
    rw [starred, if_neg hsaid]
    exact hgutter.append h (.inl (by decide))

/-- The lines of a comment over several lines. -/
theorem blockCommentLines_of_feed (h : (.scalar '\n') ∈ text) :
    Lowering.blockCommentLines text = (("/*" : Text) ::
      (Lowering.commentBody text.lines).map fun said ↦ .scalar ' ' :: starred said) ++
        [(" */" : Text)] := by
  have hsaid := saysAll_commentBody text.lines
  have hseveral : ∀ line, text.lines ≠ [line] := by
    intro line hline
    rw [Text.eq_of_lines_eq_singleton hline] at h
    have hone : line ∈ text.lines := hline ▸ List.mem_singleton_self line
    exact Text.broken_eq_false_iff.mp (Text.broken_of_mem_lines hone) h
  rw [Lowering.blockCommentLines]
  split
  · exact absurd ‹_› (hseveral _)
  · refine congrArg (fun ls ↦ ("/*" : Text) :: ls ++ [(" */" : Text)])
      (List.map_congr_left fun said hmem ↦ ?_)
    obtain ⟨line, -, hsays⟩ := hsaid.exists_line said hmem
    exact trimRight_gutter hsays.not_blank

example : Lowering.blockCommentLines "*\n * a *\n * /b\n " =
    (["/*", " * a *", " * /b", " */"] : List Text) := by decide

/-- Behind the padding, the lines are a block comment with `inner` between its ends, and nothing in
it ends it before. -/
structure Surrounds (pad inner : Text) (ls : List Text) : Prop where
  join : joinWith "\n" (ls.map (pad ++ ·)) = pad ++ ("/*" : Text) ++ inner ++ ("*/" : Text)
  unclosed : Unclosed (pad ++ ("/*" : Text) ++ inner ++ [.scalar '*'])

/-- What is between the ends of a comment over several lines. -/
def innerLines (pad : Text) (ls : List Text) : Text :=
  .scalar '\n' :: (Target.body (ls.map fun said ↦ pad ++ .scalar ' ' :: starred said) ++
    (pad ++ [.scalar ' ']))

theorem surrounds_lines (hpad : ∀ c ∈ pad, c.isBlank = true) {ls : List Text}
    (hls : ∀ said ∈ ls, Unclosed said) :
    Surrounds pad (innerLines pad ls)
      ((("/*" : Text) :: ls.map fun said ↦ .scalar ' ' :: starred said) ++ [(" */" : Text)]) where
  join := by
    have hwritten :
        ((("/*" : Text) :: ls.map fun said ↦ .scalar ' ' :: starred said).map (pad ++ ·)) =
          (pad ++ "/*") :: ls.map fun said ↦ pad ++ .scalar ' ' :: starred said := by
      rw [List.map_cons, List.map_map]
      rfl
    rw [List.map_append, List.map_singleton, joinWith_concat, hwritten, body_cons, innerLines]
    simp [Text.ofString]
  unclosed := by
    have hlines : ∀ l ∈ (pad ++ "/*") :: ls.map fun said ↦ pad ++ .scalar ' ' :: starred said,
        Unclosed l := by
      refine List.forall_mem_cons.mpr ⟨.padded hpad (by simp [Unclosed, Text.ofString]), ?_⟩
      exact List.forall_mem_map.mpr fun said hmem ↦ .padded hpad (unclosed_starred (hls said hmem))
    have hend : Unclosed (pad ++ " *") := .padded hpad (by simp [Unclosed, Text.ofString])
    have hall := Unclosed.body hlines hend
    rw [body_cons] at hall
    simpa [innerLines, Text.ofString] using hall

theorem visible_innerLines (hpad : ∀ c ∈ pad, c.isBlank = true) {ls : List Text}
    (hls : ∀ said ∈ ls, (.scalar '\n') ∉ said ∧ ∀ c ∈ said.getLast?, c.isBlank = false) :
    visible (innerLines pad ls) = ls.map starred := by
  have hend : visible (pad ++ [.scalar ' ']) = [] := by
    rw [Text.visible_append_of_blank hpad]
    exact Text.visible_of_blank (by decide)
  rw [innerLines, Text.visible_cons_of_blank (by decide), visible_body hpad hls, hend,
    List.append_nil]

theorem surrounds_line (hpad : ∀ c ∈ pad, c.isBlank = true) (hopen : Unclosed t) :
    Surrounds pad (" " ++ t ++ " ") [("/* " : Text) ++ t ++ " */"] where
  join := by
    rw [List.map_singleton, joinWith, List.intercalate_singleton]
    simp [Text.ofString]
  unclosed := by
    have hopening : Unclosed (pad ++ "/* ") := .padded hpad (by simp [Unclosed, Text.ofString])
    have hends : Unclosed " *" := by simp [Unclosed, Text.ofString]
    have hlast : (pad ++ "/* " : Text).getLast? ≠ some (.scalar '*') := by simp [Text.ofString]
    have hall := (hopening.append hopen (.inl hlast)).append hends (.inr (by decide))
    simpa [Text.ofString] using hall

/-- **A block comment is written as one** that says the same and ends only at its end. -/
theorem exists_inner (hopen : Unclosed text) (hpad : ∀ c ∈ pad, c.isBlank = true) :
    ∃ inner, Surrounds pad inner (Lowering.blockCommentLines text) ∧ Holds text inner := by
  by_cases hfeed : (.scalar '\n') ∈ text
  · have hsaid := saysAll_commentBody text.lines
    have htext : ∀ said ∈ Lowering.commentBody text.lines, said <:+: text ∧
        (.scalar '\n') ∉ said ∧ ∀ c ∈ said.getLast?, c.isBlank = false := by
      intro said hmem
      obtain ⟨line, hline, hsays⟩ := hsaid.exists_line said hmem
      have hpart : said <:+: line := hsays.isInfix
      exact ⟨hpart.trans (Text.infix_of_mem_lines hline),
        fun h ↦ Text.broken_eq_false_iff.mp (Text.broken_of_mem_lines hline) (hpart.subset h),
        hsays.not_blank⟩
    rw [blockCommentLines_of_feed hfeed]
    exact ⟨_, surrounds_lines hpad fun said hmem ↦ hopen.mono (htext said hmem).1,
      .lines hfeed hsaid (visible_innerLines hpad fun said hmem ↦ (htext said hmem).2)⟩
  · have hlines : Lowering.blockCommentLines text = [("/* " : Text) ++ text.trim ++ " */"] := by
      rw [Lowering.blockCommentLines, Text.lines_of_notMem hfeed]
    rw [hlines]
    exact ⟨_, surrounds_line hpad (hopen.mono (Text.isInfix_trim text)), .line hfeed⟩

end Written

/-! ## Comments in a file -/

namespace Lowering

open Script (Stmt)

variable {s : Session} {indent : Text}

/-- The statement is written as the block comment that says what `text` does.  It opens behind the
indentation, and it is closed at its end and nowhere before. -/
def Session.WritesBlock (s : Session) (statement : Stmt) (text : Text) : Prop :=
  ∀ indent, s.options.indent = some indent → (∀ c ∈ indent, c.isBlank = true) →
    ∃ entries inner, s.stmt statement = ({ s with lines := s.lines ++ entries }, .ok ()) ∧
      joinWith "\n" entries =
        times s.level.toNat indent ++ ("/*" : Text) ++ inner ++ ("*/" : Text) ∧
      (∀ x y, joinWith "\n" entries = x ++ ("*/" : Text) ++ y → y = []) ∧ Holds text inner

/-- The statement is written as one line comment that says what `text` does. -/
def Session.WritesLine (s : Session) (statement : Stmt) (text : Text) : Prop :=
  ∀ indent, s.options.indent = some indent →
    ∃ said, s.stmt statement = ({ s with
        lines := s.lines ++ [times s.level.toNat indent ++ ("//" : Text) ++ said] }, .ok ()) ∧
      (.scalar '\n') ∉ said ∧ said = if text.trim = [] then [] else (" " : Text) ++ text.trim

theorem entriesAll_lines (ls : List Text) :
    Target.Code.entriesAll (ls.map .line) = ls.map Target.outer := by
  induction ls with
  | nil => rfl
  | cons l ls ih => rw [List.map_cons, Target.Code.entriesAll, ih, Target.Code.entries]; rfl

/-- What becomes nothing but lines is written at the level of the session. -/
theorem Session.stmt_of_lines {statement : Stmt} {ls : List Text}
    (hcode : lowerStmt s.options.functionWords none statement = .ok (ls.map .line))
    (hindent : s.options.indent = some indent) (hne : ∀ l ∈ ls, l ≠ []) :
    s.stmt statement =
      ({ s with lines := s.lines ++ ls.map (times s.level.toNat indent ++ ·) }, .ok ()) := by
  have hrender : (ls.map Target.outer).map (Target.Entry.render indent s.level) =
      ls.map (times s.level.toNat indent ++ ·) := by
    rw [List.map_map]
    refine List.map_congr_left fun l hl ↦ ?_
    show Target.indented indent (s.level + 0) l = _
    rw [Target.indented, if_neg (by simpa using hne l hl), Int.add_zero]
  rw [Session.stmt, hcode]
  simp only [Session.writeCode, Session.write, hindent, entriesAll_lines, hrender]

theorem ne_nil_of_mem_blockCommentLines {text : Text} :
    ∀ l ∈ blockCommentLines text, l ≠ [] := by
  by_cases hfeed : (.scalar '\n') ∈ text
  · rw [blockCommentLines_of_feed hfeed, List.forall_mem_append, List.forall_mem_cons,
      List.forall_mem_map, List.forall_mem_singleton]
    exact ⟨⟨by decide, fun said _ ↦ List.cons_ne_nil _ _⟩, by decide⟩
  · rw [blockCommentLines, Text.lines_of_notMem hfeed]
    simp [Text.ofString]

theorem Session.writesBlock {text : Text} (hopen : Unclosed text) (p : Option Pos) :
    s.WritesBlock (.blockComment p text) text := by
  intro indent hindent hblank
  have hpad : ∀ c ∈ times s.level.toNat indent, c.isBlank = true := by
    intro c hc
    obtain ⟨part, hpart, hc⟩ := List.mem_flatten.mp hc
    exact hblank c (List.eq_of_mem_replicate hpart ▸ hc)
  obtain ⟨inner, hinner, hholds⟩ := exists_inner hopen hpad
  refine ⟨_, inner, stmt_of_lines rfl hindent ne_nil_of_mem_blockCommentLines, hinner.join, ?_,
    hholds⟩
  intro x y h
  refine hinner.unclosed.eq_nil (x := x) ?_
  rw [← h, hinner.join]
  simp [Text.ofString]

theorem Session.writesLine {text : Text} (hfeed : (.scalar '\n') ∉ text) (p : Option Pos) :
    s.WritesLine (.lineComment p text) text := by
  intro indent hindent
  refine ⟨if text.trim = [] then [] else (" " : Text) ++ text.trim, ?_, ?_, rfl⟩
  · have hline : lineCommentText text =
        ("//" : Text) ++ if text.trim = [] then [] else (" " : Text) ++ text.trim := by
      rw [lineCommentText]
      by_cases htrim : text.trim = []
      · simp [htrim]
      · simp [htrim, Text.ofString]
    have hcode : lowerStmt s.options.functionWords none (.lineComment p text) =
        .ok ([lineCommentText text].map .line) := rfl
    have hne : ∀ l ∈ [lineCommentText text], l ≠ [] := by simp [hline, Text.ofString]
    rw [Session.stmt_of_lines hcode hindent hne, List.map_singleton, hline, List.append_assoc]
  · split
    · exact List.not_mem_nil
    · have htrim : (.scalar '\n') ∉ text.trim := fun h ↦ hfeed ((Text.isInfix_trim text).subset h)
      simpa [Text.ofString] using htrim

end Lowering

open Lowering (Session)

/-- A comment token is read as a comment. -/
theorem Grammar.stmt_of_comment {t : Token} {w : Text} (hw : t.lexeme = .text w)
    (hk : t.kind ∈ [Kind.lineComment, .blockComment]) (env : Context) (rest : List Token) :
    stmt env (t :: rest) = .ok (if t.kind = .lineComment then .lineComment (some t.pos) (w.drop 2)
      else .blockComment (some t.pos) (Text.trimEnds 2 w)) rest := by
  have hrule : statementRule stmt t.kind = commentStmt := by
    rcases List.mem_pair.mp hk with hk | hk <;> (rw [hk]; rfl)
  rw [stmt_apply, nextKind_cons, hrule, commentStmt_cons hw]

/-- **Comments stay comments.**  A comment token of a source is read as a comment with the text
between its ends.  In a file, a block comment ends where it is closed and a line comment with its
line, and both hold what the text says and nothing else. -/
theorem comment_token_written {source : Text} {start : Pos} {t : Token}
    (ht : t ∈ (scan source start).tokens) :
    (t.kind = .blockComment → ∃ text, t.lexeme = .text (("/*" : Text) ++ text ++ ("*/" : Text)) ∧
      let comment := .blockComment (some t.pos) text
      (∀ env rest, Grammar.stmt env (t :: rest) = .ok comment rest) ∧
        ∀ s : Session, s.WritesBlock comment text) ∧
    (t.kind = .lineComment → ∃ text, t.lexeme = .text (("//" : Text) ++ text) ∧
      let comment := .lineComment (some t.pos) text
      (∀ env rest, Grammar.stmt env (t :: rest) = .ok comment rest) ∧
        ∀ s : Session, s.WritesLine comment text) := by
  constructor
  · intro hk
    obtain ⟨text, hlexeme, hopen⟩ := exists_of_blockComment ht hk
    refine ⟨text, hlexeme, fun env rest ↦ ?_, fun s ↦ Session.writesBlock hopen _⟩
    have htext : Text.trimEnds 2 (("/*" : Text) ++ text ++ ("*/" : Text)) = text := by
      simp [Text.trimEnds, Text.ofString]
    rw [Grammar.stmt_of_comment hlexeme (by simp [hk]), if_neg (by simp [hk]), htext]
  · intro hk
    obtain ⟨text, hlexeme, hfeed⟩ := exists_of_lineComment ht hk
    refine ⟨text, hlexeme, fun env rest ↦ ?_, fun s ↦ Session.writesLine hfeed _⟩
    rw [Grammar.stmt_of_comment hlexeme (by simp [hk]), if_pos hk]
    rfl

/-- The first line ends with a star and the second begins with a slash, once both are trimmed. -/
theorem comment_token_written_sample :
    let source : Text := "/**\n * a *\n * /b\n */"
    let t : Token := ⟨.blockComment, source, ⟨1, 1⟩⟩
    t ∈ (scan source Pos.origin).tokens ∧ t.kind = .blockComment ∧
      ∃ text, t.lexeme = .text (("/*" : Text) ++ text ++ ("*/" : Text)) ∧
        let comment := .blockComment (some t.pos) text
        (∀ env rest, Grammar.stmt env (t :: rest) = .ok comment rest) ∧
          ∀ s : Session, s.WritesBlock comment text := by
  intro source t
  have ht : t ∈ (scan source Pos.origin).tokens := by decide +kernel
  exact ⟨ht, rfl, (comment_token_written ht).1 rfl⟩

end Advplc

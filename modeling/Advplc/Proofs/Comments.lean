import Advplc.Proofs.Grammar.Comments.Displacement
import Advplc.Proofs.Grammar.Places

/-!
# Comments and the rest of a program

A comment is a statement, and where statements stand in a list, one more or less makes no difference
to the others.  `parse_withoutComments` says when the comments among the tokens can be taken out
without another effect on the program than that its comments are gone: if no comment stands directly
behind the parenthesis or the `else` that the body of a branch or a loop follows.  For the tokens of
a source, that is the case in no other way.
-/

set_option autoImplicit false

namespace Advplc

open Script

/-! ## The forms of comments and marks in a source -/

/-- A comment or a mark in a source does not have the form of a name. -/
theorem Scans.not_isName {before : Option Kind} {t : Text} {fs : List (Kind × Lexeme)}
    (h : Scans before t fs) : ∀ f ∈ fs, (f.1 ∈ [Kind.lineComment, .blockComment] ∨
      ∃ m, f.1 = .mark m) → ∀ w, f.2 = .text w → w.isName = false := by
  have hslash : nameStartRanges.has (CodePoint.scalar '/').val = false := by decide +kernel
  have hmark : ∀ m : Mark, ∀ c ∈ m.spelling.head?, nameStartRanges.has c.val = false := by
    intro m c hc
    cases m <;> (cases hc; decide +kernel)
  induction h with
  | done => simp
  | blank _ _ ih => exact ih
  | @token before c t k n fs h _ ih =>
    intro f hf hkind w hw
    obtain rfl | hf := List.mem_cons.mp hf
    · have hstarts := Rule.starts_of_first? h
      obtain ⟨n, rfl⟩ := Nat.exists_eq_succ_of_ne_zero (Nat.ne_of_gt (Rule.pos_of_first? h))
      cases hw
      have hfirst : nameStartRanges.has c.val = false := by
        simp only [List.mem_cons, List.not_mem_nil, or_false] at hkind
        obtain (rfl | rfl) | ⟨m, rfl⟩ := hkind
        · rw [of_decide_eq_true hstarts]
          exact hslash
        · rw [of_decide_eq_true hstarts]
          exact hslash
        · exact hmark m c (of_decide_eq_true hstarts)
      rw [List.take_succ_cons, Text.isName, hfirst]
      rfl
    · exact ih f hf hkind w hw

namespace Grammar

variable {ts : List Token} {p : Program}

theorem genuine_of_tokenize {source : Text} {start : Pos} (h : tokenize source start = .ok ts) :
    Genuine ts := by
  have hscans := (tokenize_eq_ok_iff start).mpr ⟨ts, h, rfl⟩
  intro t ht hkind hname
  have hform : (t.kind, t.lexeme) ∈ ts.map Token.form := List.mem_map_of_mem ht
  have hcomment : t.kind ∈ [Kind.lineComment, .blockComment] ∨ ∃ m, t.kind = .mark m := by
    simpa [Token.isComment] using hkind
  obtain hidentifier | ⟨w, hw, hisName⟩ := hname
  · simp [hidentifier] at hcomment
  · rw [hscans.not_isName _ hform hcomment w hw] at hisName
    cases hisName

/-! ## Parsing without comments -/

/-- Without their comments, the tokens `ts` are parsed to the program `p` without its comments. -/
def CommentsAside (ts : List Token) (p : Program) : Prop :=
  ∃ q, parse (withoutComments ts) = .ok q ∧
    Root.same (.program p.withoutComments) (.program q) = true

theorem native_withoutComments (h : parse ts = .ok p) :
    Stmt.nativeAll p.withoutComments.body = true := by
  obtain ⟨used, rest, -, -, hwritten⟩ := written_of_parse (readsOnly_filled _) h
  exact Stmt.nativeAll_withoutComments p.body (native_of_written hwritten)

theorem nextKind_withoutComments (h : nextKind ts = .endOfInput) :
    nextKind (withoutComments ts) = .endOfInput := by
  cases ts with
  | nil => rfl
  | cons t ts =>
    rw [nextKind_cons] at h
    rw [withoutComments_cons (isComment_of_kind h rfl), nextKind_cons, h]

theorem commentsAside_of_unobtrusive (h : parse ts = .ok p) (hts : Unobtrusive ts) :
    CommentsAside ts p := by
  have hnative := native_withoutComments h
  obtain ⟨used, rest, rfl, hend, hwritten⟩ := written_of_parse (readsOnly_filled _) h
  have hstripped := hwritten.stripped hts.left trivial
  obtain ⟨q, hparse, hbare⟩ := parse_of_written_append hstripped (nextKind_withoutComments hend)
    (fills_filled _ steady_readHole)
  rw [← withoutComments_append] at hparse
  exact ⟨q, hparse, (Root.same_iff _ q hnative).mpr hbare.symm⟩

theorem unobtrusive_of_commentsAside {source : Text} {start : Pos}
    (hsource : tokenize source start = .ok ts) (h : parse ts = .ok p)
    (haside : CommentsAside ts p) : Unobtrusive ts := by
  obtain ⟨q, hparse, hsame⟩ := haside
  have hbare := (Root.same_iff _ q (native_withoutComments h)).mp hsame
  obtain ⟨used, rest, heq, -, hwritten⟩ := written_of_parse (readsOnly_filled _) hparse
  have henv := fills_filled (.ok Pos.origin) steady_readHole
  obtain ⟨hts, -, -⟩ | ⟨o, c, -, -, hnil⟩ :=
    (written_of_tokenize hsource h).settled henv rfl (genuine_of_tokenize hsource)
      (x := []) (y := rest) (List.forall_mem_nil _) ⟨q.body, hbare.symm, hwritten⟩
      (by rw [List.append_nil, heq])
  · exact hts
  · cases hnil

/-- **Comments are without effect on the rest of a program, bodies apart.**  If no comment is the
body of a branch or a loop or taken for a name, then without their comments the tokens are parsed to
the program without its comments.  In a source no comment is taken for a name, and as soon as one is
the body of a branch or a loop, they are not. -/
theorem parse_withoutComments (h : parse ts = .ok p) :
    (Unobtrusive ts → CommentsAside ts p) ∧
      ∀ source start, tokenize source start = .ok ts →
        (CommentsAside ts p ↔ ts.IsChain fun t u ↦ ¬ BodyOfComment t u) := by
  refine ⟨commentsAside_of_unobtrusive h,
    fun source start hsource ↦ ⟨fun haside ↦ ?_, fun hts ↦ ?_⟩⟩
  · exact (unobtrusive_of_commentsAside hsource h haside).imp fun _ _ h ↦ h.2
  · have hgenuine := genuine_of_tokenize hsource
    refine commentsAside_of_unobtrusive h (hts.imp_of_mem_imp fun t u ht hu hbody ↦ ?_)
    exact ⟨hgenuine.not_namedByComment ht hu, hbody⟩

/-- The source `if(a){/*c*/x;}`, where the comment stands in a block. -/
theorem parse_withoutComments_sample :
    let source : Text := "if(a)\x7b/*c*/x;\x7d"
    ∃ ts p, tokenize source Pos.origin = .ok ts ∧ parse ts = .ok p ∧
      (ts.IsChain fun t u ↦ ¬ BodyOfComment t u) ∧ CommentsAside ts p := by
  intro source
  let ts : List Token :=
    [⟨.keyword .ifWord, "if", ⟨1, 1⟩⟩, ⟨.mark .openParen, "(", ⟨1, 3⟩⟩,
     ⟨.identifier, "a", ⟨1, 4⟩⟩, ⟨.mark .closeParen, ")", ⟨1, 5⟩⟩,
     ⟨.mark .openBrace, "\x7b", ⟨1, 6⟩⟩, ⟨.blockComment, "/*c*/", ⟨1, 7⟩⟩,
     ⟨.identifier, "x", ⟨1, 12⟩⟩, ⟨.mark .semicolon, ";", ⟨1, 13⟩⟩,
     ⟨.mark .closeBrace, "\x7d", ⟨1, 14⟩⟩]
  let p : Program := ⟨some ⟨1, 1⟩, [.ifThen (some ⟨1, 1⟩) (.name (some ⟨1, 4⟩) "a")
    [.blockComment (some ⟨1, 7⟩) "c",
     .expr (some ⟨1, 12⟩) (.name (some ⟨1, 12⟩) "x")]]⟩
  have htokens : tokenize source Pos.origin = .ok ts := tokenize_of_toOption (by decide +kernel)
  have hparse : parse ts = .ok p := rfl
  have hts : ts.IsChain fun t u ↦ ¬ BodyOfComment t u := by
    simp [ts, BodyOfComment, Token.isComment]
  exact ⟨ts, p, htokens, hparse, hts,
    ((parse_withoutComments hparse).2 source Pos.origin htokens).mpr hts⟩

/-- The source `if(a)/*c*/x;`: the comment is the body of the branch, and without it the statement
behind is. -/
theorem comment_is_body :
    let source : Text := "if(a)/*c*/x;"
    ∃ ts p, tokenize source Pos.origin = .ok ts ∧ parse ts = .ok p ∧ ¬ CommentsAside ts p := by
  intro source
  let ts : List Token :=
    [⟨.keyword .ifWord, "if", ⟨1, 1⟩⟩, ⟨.mark .openParen, "(", ⟨1, 3⟩⟩,
     ⟨.identifier, "a", ⟨1, 4⟩⟩, ⟨.mark .closeParen, ")", ⟨1, 5⟩⟩,
     ⟨.blockComment, "/*c*/", ⟨1, 6⟩⟩, ⟨.identifier, "x", ⟨1, 11⟩⟩,
     ⟨.mark .semicolon, ";", ⟨1, 12⟩⟩]
  let test : Expr := .name (some ⟨1, 4⟩) "a"
  let statement : Stmt := .expr (some ⟨1, 11⟩) (.name (some ⟨1, 11⟩) "x")
  let p : Program := ⟨some ⟨1, 1⟩,
    [.ifThen (some ⟨1, 1⟩) test [.blockComment (some ⟨1, 6⟩) "c"], statement]⟩
  let q : Program := ⟨some ⟨1, 1⟩, [.ifThen (some ⟨1, 1⟩) test [statement]]⟩
  have htokens : tokenize source Pos.origin = .ok ts := tokenize_of_toOption (by decide +kernel)
  refine ⟨ts, p, htokens, rfl, ?_⟩
  rintro ⟨q', hparse, hsame⟩
  have hstripped : parse (withoutComments ts) = .ok q := rfl
  rw [hstripped] at hparse
  cases hparse
  revert hsame
  decide

end Grammar

end Advplc

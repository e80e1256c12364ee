import Advplc.Proofs.Grammar.Braces
import Advplc.Proofs.Grammar.Comments.Removal
import Advplc.Proofs.Grammar.Completeness.Statement

/-!
# Comments that cannot be taken out

A comment that is the body of a branch or a loop cannot be taken out: what is left is no writing of
the program without its comments (`WrittenStmt.settled`).

To show it, let the tokens without their comments write that program nevertheless.  Two writings of
the same program are compared from left to right, and agree as long as no comment is such a body.
Where one is, the body has become empty, and an empty body can only be written by a pair of braces.
The tokens would have to go on with these, in the place of the comment, and the next statement of
the other writing would begin with them.  But a statement that begins with a brace is an expression,
and the same expression would have to be written without that pair of braces, so with one object
less.
-/

set_option autoImplicit false

namespace Advplc.Grammar

open Script Parse

variable {templates : Text → List Text → List Expr → Prop} {env : Context}
  {ts us x y : List Token} {t u : Token}

/-! ## Tokens of a source -/

/-- Neither comments nor marks have the form of a name. -/
def Genuine (ts : List Token) : Prop :=
  ∀ t ∈ ts, Token.isComment t = true ∨ (∃ m : Mark, t.kind = .mark m) → ¬ Token.NamesProperty t

theorem Genuine.of_subset (h : Genuine ts) (hsub : us ⊆ ts) : Genuine us := fun t ht ↦ h t (hsub ht)

theorem Genuine.left (h : Genuine (ts ++ us)) : Genuine ts :=
  h.of_subset (List.subset_append_left ts us)

theorem Genuine.right (h : Genuine (ts ++ us)) : Genuine us :=
  h.of_subset (List.subset_append_right ts us)

theorem Genuine.tail (h : Genuine (t :: ts)) : Genuine ts :=
  h.of_subset (List.subset_cons_self t ts)

theorem Genuine.append (hts : Genuine ts) (hus : Genuine us) : Genuine (ts ++ us) :=
  List.forall_mem_append.mpr ⟨hts, hus⟩

theorem Genuine.withoutComments (h : Genuine ts) : Genuine (withoutComments ts) :=
  h.of_subset (List.filter_subset_self ts)

theorem Genuine.marksSpelled (h : Genuine ts) : MarksSpelled ts :=
  fun t ht m hm ↦ h t ht (.inr ⟨m, hm⟩)

theorem Genuine.not_namedByComment (h : Genuine ts) (ht : t ∈ ts) (hu : u ∈ ts) :
    ¬ NamedByComment t u := by
  rintro (⟨-, hcomment, hname⟩ | ⟨-, hcomment, hname⟩)
  · exact h u hu (.inl hcomment) hname
  · exact h t ht (.inl hcomment) hname

theorem Genuine.unnamed (h : Genuine ts) : Unnamed ts :=
  (List.pairwise_of_forall_mem_list fun _ ht _ hu ↦ h.not_namedByComment ht hu).isChain

/-! ## Putting unobtrusive tokens together -/

/-- The kinds behind which a comment is taken for a body or a name. -/
def commentTakers : List Kind := [.mark .closeParen, .keyword .elseWord, .mark .dot]

theorem Unobtrusive.nil : Unobtrusive [] := List.IsChain.nil

theorem Unobtrusive.append (hts : Unobtrusive ts) (hus : Unobtrusive us)
    (hedge : ∀ t ∈ ts.getLast?, ∀ u ∈ us.head?, ¬ NamedByComment t u ∧ ¬ BodyOfComment t u) :
    Unobtrusive (ts ++ us) := List.IsChain.append hts hus hedge

theorem Uncommented.unobtrusive (h : Uncommented ts) : Unobtrusive ts := by
  refine (List.pairwise_of_forall_mem_list fun t ht u hu ↦ ?_).isChain
  have htplain := h t ht
  have huplain := h u hu
  simp [NamedByComment, BodyOfComment, htplain, huplain]

/-- Tokens without comments before tokens that do not begin with one. -/
theorem Unobtrusive.headed (hts : Uncommented ts) (hus : Unobtrusive us)
    (hfirst : ∀ u ∈ us.head?, Token.isComment u = false) : Unobtrusive (ts ++ us) := by
  refine hts.unobtrusive.append hus fun t ht u hu ↦ ?_
  simp [NamedByComment, BodyOfComment, hts t (List.mem_of_getLast? ht), hfirst u hu]

/-- A token behind which a comment is nothing but a comment. -/
theorem Unobtrusive.cons (ht : Token.isComment t = false) (hkind : t.kind ∉ commentTakers)
    (hts : Unobtrusive ts) : Unobtrusive (t :: ts) := by
  refine List.IsChain.cons hts fun u _ ↦ ?_
  simp only [commentTakers, List.mem_cons, List.not_mem_nil, or_false, not_or] at hkind
  simp [NamedByComment, BodyOfComment, ht, hkind]

/-- A token that a comment may stand before. -/
theorem Unobtrusive.before (ht : Token.isComment t = false) (hkind : t.kind ≠ .mark .colon)
    (hts : Unobtrusive ts) (hus : Unobtrusive (t :: us)) : Unobtrusive (ts ++ t :: us) := by
  refine hts.append hus fun t' _ u hu ↦ ?_
  cases hu
  simp [NamedByComment, BodyOfComment, ht, hkind]

/-! ## Where statements begin and end -/

/-- The list ends with a token of one of the given kinds. -/
def EndsIn (ks : List Kind) (ts : List Token) : Prop := ∃ us e, ts = us ++ [e] ∧ e.kind ∈ ks

theorem EndsIn.last {ks : List Kind} {k : Kind} (ht : t.kind = k) (hk : k ∈ ks) : EndsIn ks [t] :=
  ⟨[], t, rfl, ht ▸ hk⟩

theorem EndsIn.behind {ks : List Kind} (us : List Token) (h : EndsIn ks ts) :
    EndsIn ks (us ++ ts) := by
  obtain ⟨vs, e, rfl, he⟩ := h
  exact ⟨us ++ vs, e, by rw [List.append_assoc], he⟩

theorem EndsIn.cons {ks : List Kind} (t : Token) (h : EndsIn ks ts) : EndsIn ks (t :: ts) :=
  h.behind [t]

/-- The kinds of the tokens with which statements end. -/
def statementEnds : List Kind := [.mark .semicolon, .mark .closeBrace, .lineComment, .blockComment]

/-- How a clause stops: with the end of a statement, unless it is an empty list. -/
def Clause.Stops (ts : List Token) : Clause → Prop
  | .stmts _ => ts = [] ∨ EndsIn statementEnds ts
  | .stmt _ _ | .body _ _ => EndsIn statementEnds ts

/-- Statements and bodies end with a semicolon, a brace or a comment. -/
theorem WrittenStmt.stops {clause : Clause} (h : WrittenStmt templates clause ts) :
    clause.Stops ts := by
  have hsemicolon : ∀ {e : Token}, e.kind = .mark .semicolon → EndsIn statementEnds [e] :=
    fun he ↦ .last he (by decide)
  induction h with
  | lineComment p t w ht hw => exact .last ht (by decide)
  | blockComment p t w ht hw => exact .last ht (by decide)
  | importFrom p i m e w hi hm hw he h => exact .cons i (.behind _ (.cons m (hsemicolon he)))
  | exportDefaultFunction p q x d hx hd _ ih => exact .cons x (.cons d ih)
  | exportDefault p x d e hx hd he h => exact .cons x (.cons d (.behind _ (hsemicolon he)))
  | exportFunction p q x hx _ ih => exact .cons x ih
  | exportVariable p x e hx he h => exact .cons x (.behind _ (hsemicolon he))
  | exportNames p x l r e hx hl hr he h =>
    exact .cons x (.cons l (.behind _ (.cons r (hsemicolon he))))
  | «variable» e he h => exact .behind _ (hsemicolon he)
  | print p w e hw he h => exact .cons w (.behind _ (hsemicolon he))
  | console p w l r e hw hl hr he h =>
    exact .cons w (.cons l (.behind _ (.cons r (hsemicolon he))))
  | function p f n l r o c hf hn hl hr ho hc hps _ _ =>
    have hbrace : EndsIn statementEnds [c] := .last hc (by decide)
    exact .cons f (.cons n (.cons l (.behind _ (.cons r (.cons o (.behind _ hbrace))))))
  | ret p w e hw he h => exact .cons w (.behind _ (hsemicolon he))
  | ifThen p w l r hw hl hr htest _ ih => exact .cons w (.cons l (.behind _ (.cons r ih)))
  | ifElse p w l r x hw hl hr hx htest _ _ _ ihno =>
    exact .cons w (.cons l (.behind _ (.cons r (.behind _ (.cons x ihno)))))
  | forLoop p w l m e r hw hl hm he hr hinit htest hupdate _ ih =>
    exact .cons w (.cons l (.behind _ (.cons m (.behind _ (.cons e (.behind _ (.cons r ih)))))))
  | whileLoop p w l r hw hl hr htest _ ih => exact .cons w (.cons l (.behind _ (.cons r ih)))
  | breakLoop p w e hw he => exact .cons w (hsemicolon he)
  | continueLoop p w e hw he => exact .cons w (hsemicolon he)
  | expr p e he h => exact .behind _ (hsemicolon he)
  | nil => exact .inl rfl
  | cons _ _ ihs ihss =>
    obtain rfl | ihss := ihss
    · rw [List.append_nil]
      exact .inr ihs
    · exact .inr (.behind _ ihss)
  | braces l r hl hr _ _ => exact .cons l (.behind _ (.last hr (by decide)))
  | single _ _ ih => exact ih

/-- The last token is none that a body or a name stands behind. -/
def Closed (ts : List Token) : Prop := ∃ us e, ts = us ++ [e] ∧ e.kind ∉ commentTakers

theorem EndsIn.closed (h : EndsIn statementEnds ts) : Closed ts := by
  have hall : ∀ k ∈ statementEnds, k ∉ commentTakers := by decide
  obtain ⟨us, e, rfl, he⟩ := h
  exact ⟨us, e, rfl, hall _ he⟩

/-- How a clause ends, if there need not be an end at all. -/
def Clause.Ends (ts : List Token) : Clause → Prop
  | .stmts _ => True
  | .stmt _ _ | .body _ _ => Closed ts

theorem WrittenStmt.ends {clause : Clause} (h : WrittenStmt templates clause ts) :
    clause.Ends ts := by
  cases clause with
  | stmts => trivial
  | stmt => exact h.stops.closed
  | body => exact h.stops.closed

/-- A statement that is no comment does not begin with one. -/
theorem WrittenStmt.isComment_head {ajar : Bool} {s : Stmt}
    (h : WrittenStmt templates (.stmt ajar s) ts) (hs : s.isComment = false) (hts : Unnamed ts) :
    ∀ t ∈ ts.head?, Token.isComment t = false := by
  intro t ht
  cases hplain : s.isPlain with
  | true => exact h.silent hplain hts t (List.mem_of_head? ht)
  | false =>
    cases h with
    | exportDefaultFunction p q x d hx hd h => cases ht; exact isComment_of_kind hx rfl
    | exportFunction p q x hx h => cases ht; exact isComment_of_kind hx rfl
    | function p f n l r o c hf => cases ht; exact isComment_of_kind hf rfl
    | ifThen p w l r hw => cases ht; exact isComment_of_kind hw rfl
    | ifElse p w l r x hw => cases ht; exact isComment_of_kind hw rfl
    | forLoop p w l m e r hw => cases ht; exact isComment_of_kind hw rfl
    | whileLoop p w l r hw => cases ht; exact isComment_of_kind hw rfl
    | lineComment | blockComment => cases hs
    | _ => cases hplain

/-! ## Two writings from left to right -/

/-- What one parser reads from the same tokens ends at the same place. -/
theorem Reads.unique {α : Type} {p : Parse α} {good good' : α → Prop} {follow follow' : Kind → Prop}
    (h : Reads env p good follow ts) (h' : Reads env p good' follow' us)
    (heq : ts ++ x = us ++ y) (hx : follow (nextKind x)) (hy : follow' (nextKind y)) : x = y := by
  obtain ⟨a, -, hrun⟩ := h
  obtain ⟨b, -, hrun'⟩ := h'
  have hread := hrun x hx
  rw [heq, hrun' y hy] at hread
  cases hread
  rfl

/-- Two writings that begin with a token go on alike. -/
theorem eq_behind_token (ht : Token.isComment t = false)
    (heq : withoutComments (t :: ts) ++ x = u :: us ++ y) : withoutComments ts ++ x = us ++ y := by
  rw [withoutComments_cons ht] at heq
  exact (List.cons.inj heq).2

/-- Two writings that begin with what one parser reads and a token behind it go on alike. -/
theorem Reads.eq_behind {α : Type} {p : Parse α} {good good' : α → Prop}
    {follow follow' : Kind → Prop} {vs zs : List Token} (h : Reads env p good follow ts)
    (h' : Reads env p good' follow' vs) (hts : Uncommented ts) (ht : Token.isComment t = false)
    (hfollow : follow t.kind) (hfollow' : follow' u.kind)
    (heq : withoutComments (ts ++ t :: us) ++ x = vs ++ u :: zs ++ y) :
    withoutComments us ++ x = zs ++ y := by
  rw [withoutComments_append, withoutComments_eq_self hts, withoutComments_cons ht] at heq
  simp only [List.append_assoc, List.cons_append] at heq
  exact (List.cons.inj (h.unique h' heq hfollow hfollow')).2

/-- What stands between braces in two writings. -/
theorem eq_inside_braces {l r l' r' : Token} (hl : l.kind = .mark .openBrace)
    (hr : r.kind = .mark .closeBrace)
    (heq : withoutComments (l :: (ts ++ [r])) ++ x = l' :: (us ++ [r']) ++ y) :
    withoutComments ts ++ r :: x = us ++ r' :: y := by
  have hrest := eq_behind_token (isComment_of_kind hl rfl) heq
  have hclose : withoutComments [r] = [r] :=
    withoutComments_eq_self (.cons (isComment_of_kind hr rfl) .nil)
  rw [withoutComments_append, hclose] at hrest
  simpa using hrest

/-- The first semicolon is at one place. -/
theorem eq_of_semicolon (ht : t.kind = .mark .semicolon) (hu : u.kind = .mark .semicolon)
    (hts : marks .semicolon ts = 0) (hus : marks .semicolon us = 0)
    (heq : ts ++ t :: x = us ++ u :: y) : ts = us := by
  have hnone : ∀ {ts : List Token}, marks .semicolon ts = 0 →
      ∀ v ∈ ts, v.kind ≠ .mark .semicolon := by
    intro ts h v hv
    simpa using List.countP_eq_zero.mp h v hv
  induction ts generalizing us with
  | nil =>
    cases us with
    | nil => rfl
    | cons v us =>
      cases heq
      exact absurd ht (hnone hus t List.mem_cons_self)
  | cons v ts ih =>
    cases us with
    | nil =>
      cases heq
      exact absurd hu (hnone hts u List.mem_cons_self)
    | cons v' us =>
      obtain ⟨rfl, htail⟩ := List.cons.inj heq
      have hne := hnone hts v List.mem_cons_self
      rw [marks_cons_of_ne hne] at hts hus
      rw [ih hts hus htail]

/-! ## Writings of what is left without comments -/

/-- The tokens write what a clause is without its comments, positions apart. -/
def Clause.Rewritten (templates : Text → List Text → List Expr → Prop) (us : List Token) :
    Clause → Prop
  | .stmt _ s => ∃ ajar s', s'.bare = s.withoutComments.bare ∧
      WrittenStmt templates (.stmt ajar s') us
  | .stmts ss => ∃ ss', Stmt.bareAll ss' = Stmt.bareAll (Stmt.withoutCommentsAll ss) ∧
      WrittenStmt templates (.stmts ss') us
  | .body _ ss => ∃ ajar ss', Stmt.bareAll ss' = Stmt.bareAll (Stmt.withoutCommentsAll ss) ∧
      WrittenStmt templates (.body ajar ss') us

section Inversion

variable {ajar : Bool} {p : Option Pos}

theorem rewritten_ifThen {test : Expr} {yes : List Stmt}
    (h : Clause.Rewritten templates us (.stmt ajar (.ifThen p test yes))) :
    ∃ w l r vs ws test', us = w :: l :: (vs ++ r :: ws) ∧ r.kind = .mark .closeParen ∧
      Written templates (.expr .assignment test') vs ∧
      Clause.Rewritten templates ws (.body ajar yes) := by
  obtain ⟨ajar', s', hbare, hs⟩ := h
  rw [Stmt.withoutComments] at hbare
  cases hs with
  | ifThen p w l r hw hl hr htest hyes =>
    simp only [Stmt.bare, Stmt.ifThen.injEq] at hbare
    exact ⟨w, l, r, _, _, _, rfl, hr, htest, _, _, hbare.2.2, hyes⟩
  | _ => simp [Stmt.bare] at hbare

theorem rewritten_whileLoop {test : Expr} {body : List Stmt}
    (h : Clause.Rewritten templates us (.stmt ajar (.whileLoop p test body))) :
    ∃ w l r vs ws test', us = w :: l :: (vs ++ r :: ws) ∧ r.kind = .mark .closeParen ∧
      Written templates (.expr .assignment test') vs ∧
      Clause.Rewritten templates ws (.body ajar body) := by
  obtain ⟨ajar', s', hbare, hs⟩ := h
  rw [Stmt.withoutComments] at hbare
  cases hs with
  | whileLoop p w l r hw hl hr htest hbody =>
    simp only [Stmt.bare, Stmt.whileLoop.injEq] at hbare
    exact ⟨w, l, r, _, _, _, rfl, hr, htest, _, _, hbare.2.2, hbody⟩
  | _ => simp [Stmt.bare] at hbare

theorem rewritten_ifElse {test : Expr} {yes no : List Stmt}
    (h : Clause.Rewritten templates us (.stmt ajar (.ifElse p test yes no))) :
    ∃ w l r x vs ws zs test', us = w :: l :: (vs ++ r :: (ws ++ x :: zs)) ∧
      r.kind = .mark .closeParen ∧ Written templates (.expr .assignment test') vs ∧
      Clause.Rewritten templates ws (.body false yes) ∧
      Clause.Rewritten templates zs (.body ajar no) := by
  obtain ⟨ajar', s', hbare, hs⟩ := h
  rw [Stmt.withoutComments] at hbare
  cases hs with
  | ifElse p w l r x hw hl hr hx htest hyes hno =>
    simp only [Stmt.bare, Stmt.ifElse.injEq] at hbare
    exact ⟨w, l, r, x, _, _, _, _, rfl, hr, htest, ⟨_, _, hbare.2.2.1, hyes⟩,
      _, _, hbare.2.2.2, hno⟩
  | _ => simp [Stmt.bare] at hbare

theorem rewritten_forLoop {init : ForInit} {test update : Option Expr} {body : List Stmt}
    (h : Clause.Rewritten templates us (.stmt ajar (.forLoop p init test update body))) :
    ∃ w l m e r vs ws xs zs init' test' update',
      us = w :: l :: (vs ++ m :: (ws ++ e :: (xs ++ r :: zs))) ∧ m.kind = .mark .semicolon ∧
      e.kind = .mark .semicolon ∧ r.kind = .mark .closeParen ∧ WrittenInit templates init' vs ∧
      WrittenOption templates test' ws ∧ WrittenOption templates update' xs ∧
      Clause.Rewritten templates zs (.body ajar body) := by
  obtain ⟨ajar', s', hbare, hs⟩ := h
  rw [Stmt.withoutComments] at hbare
  cases hs with
  | forLoop p w l m e r hw hl hm he hr hinit htest hupdate hbody =>
    simp only [Stmt.bare, Stmt.forLoop.injEq] at hbare
    exact ⟨w, l, m, e, r, _, _, _, _, _, _, _, rfl, hm, he, hr, hinit, htest, hupdate, _, _,
      hbare.2.2.2.2, hbody⟩
  | _ => simp [Stmt.bare] at hbare

theorem rewritten_function {name : Lexeme} {ps : List Lexeme} {body : List Stmt}
    (h : Clause.Rewritten templates us (.stmt ajar (.function p name ps body))) :
    ∃ f n l r o c vs ws ps', us = f :: n :: l :: (vs ++ r :: o :: (ws ++ [c])) ∧
      r.kind = .mark .closeParen ∧ WrittenParameters ps' vs ∧
      Clause.Rewritten templates ws (.stmts body) := by
  obtain ⟨ajar', s', hbare, hs⟩ := h
  rw [Stmt.withoutComments] at hbare
  cases hs with
  | function p f n l r o c hf hn hl hr ho hc hps hbody =>
    simp only [Stmt.bare, Stmt.function.injEq] at hbare
    exact ⟨f, n, l, r, o, c, _, _, _, rfl, hr, hps, _, hbare.2.2.2, hbody⟩
  | _ => simp [Stmt.bare] at hbare

theorem rewritten_exportDecl {name : Lexeme} {ps : List Lexeme} {body : List Stmt}
    {q : Option Pos} {byDefault : Bool}
    (h : Clause.Rewritten templates us
      (.stmt ajar (.exportDecl p (.function q name ps body) [] byDefault))) :
    ∃ vs ws, us = vs ++ ws ∧ vs.length = (if byDefault then 2 else 1) ∧
      Clause.Rewritten templates ws (.stmt false (.function q name ps body)) := by
  obtain ⟨ajar', s', hbare, hs⟩ := h
  rw [Stmt.withoutComments] at hbare
  cases hs with
  | exportDefaultFunction p q x d hx hd h =>
    simp only [Stmt.bare, Stmt.exportDecl.injEq] at hbare
    obtain rfl := hbare.2.2.2
    refine ⟨[x, d], _, rfl, rfl, _, _, ?_, h⟩
    rw [Stmt.bare]
    exact hbare.2.1
  | exportFunction p q x hx h =>
    simp only [Stmt.bare, Stmt.exportDecl.injEq] at hbare
    obtain rfl := hbare.2.2.2
    refine ⟨[x], _, rfl, rfl, _, _, ?_, h⟩
    rw [Stmt.bare]
    exact hbare.2.1
  | exportVariable p x e hx he h => simp [Stmt.bare, Stmt.withoutComments] at hbare
  | _ => simp [Stmt.bare] at hbare

theorem rewritten_nil (h : Clause.Rewritten templates us (.stmts [])) : us = [] := by
  obtain ⟨ss, hbare, hss⟩ := h
  rw [Stmt.withoutCommentsAll_nil] at hbare
  cases hss with
  | nil => rfl
  | cons => cases hbare

theorem rewritten_cons {s : Stmt} {ss : List Stmt} (hs : s.isComment = false)
    (h : Clause.Rewritten templates us (.stmts (s :: ss))) :
    ∃ vs ws, us = vs ++ ws ∧ Clause.Rewritten templates vs (.stmt false s) ∧
      Clause.Rewritten templates ws (.stmts ss) := by
  obtain ⟨ss', hbare, hss⟩ := h
  rw [Stmt.withoutCommentsAll_cons hs] at hbare
  cases hss with
  | nil => cases hbare
  | cons hfirst hrest =>
    simp only [Stmt.bareAll, List.cons.injEq] at hbare
    exact ⟨_, _, rfl, ⟨_, _, hbare.1, hfirst⟩, _, hbare.2, hrest⟩

theorem rewritten_of_comment {s : Stmt} {ss : List Stmt} (hs : s.isComment = true)
    (h : Clause.Rewritten templates us (.stmts (s :: ss))) :
    Clause.Rewritten templates us (.stmts ss) := by
  obtain ⟨ss', hbare, hss⟩ := h
  rw [Stmt.withoutCommentsAll_of_comment hs] at hbare
  exact ⟨ss', hbare, hss⟩

/-- A body is written with braces or as a single statement. -/
theorem rewritten_body {ss : List Stmt} (h : Clause.Rewritten templates us (.body ajar ss)) :
    (∃ l r vs, us = l :: (vs ++ [r]) ∧ l.kind = .mark .openBrace ∧ r.kind = .mark .closeBrace ∧
      Clause.Rewritten templates vs (.stmts ss)) ∨
    (∃ t vs s', us = t :: vs ∧ t.kind ≠ .mark .openBrace ∧
      [s'.bare] = Stmt.bareAll (Stmt.withoutCommentsAll ss) ∧
      ∃ ajar', WrittenStmt templates (.stmt ajar' s') us) := by
  obtain ⟨ajar', ss', hbare, hss⟩ := h
  cases hss with
  | braces l r hl hr hss => exact .inl ⟨l, r, _, rfl, hl, hr, _, hbare, hss⟩
  | single ht hs => exact .inr ⟨_, _, _, rfl, ht, hbare, _, hs⟩

end Inversion

/-! ## A pair of braces in the place of a comment -/

/-- A statement that begins with a brace is an expression. -/
theorem WrittenStmt.exists_of_openBrace {ajar : Bool} {s : Stmt}
    (h : WrittenStmt templates (.stmt ajar s) (t :: ts)) (ht : t.kind = .mark .openBrace) :
    ∃ p e us m, s = .expr p e ∧ t :: ts = us ++ [m] ∧ m.kind = .mark .semicolon ∧
      Written templates (.expr .assignment e) us := by
  generalize hall : t :: ts = all at h
  cases h with
  | expr p m hm h => exact ⟨p, _, _, m, rfl, rfl, hm, h⟩
  | «variable» e he h =>
    cases h with
    | declared p w n hw hn h =>
      cases hall
      rw [ht] at hw
      exact absurd hw (by decide)
  | lineComment p t w ht' | blockComment p t w ht' =>
    cases hall
    rw [ht] at ht'
    cases ht'
  | _ =>
    cases hall
    simp_all

/-- The tokens `x` are the tokens `y` behind a pair of braces. -/
def Displaced (x y : List Token) : Prop :=
  ∃ o c : Token, o.kind = .mark .openBrace ∧ c.kind = .mark .closeBrace ∧ x = o :: c :: y

theorem not_displaced_cons (ht : t.kind ≠ .mark .openBrace) : ¬ Displaced (t :: x) y := by
  rintro ⟨o, c, ho, -, heq⟩
  cases heq
  exact ht ho

/-- The first token of a statement that is no comment stays where it is. -/
theorem WrittenStmt.withoutComments_eq_cons {ajar : Bool} {s : Stmt}
    (h : WrittenStmt templates (.stmt ajar s) ts) (hs : s.isComment = false) (hts : Unnamed ts) :
    ∃ t us, ts = t :: us ∧ withoutComments ts = t :: withoutComments us := by
  have hhead := h.isComment_head hs hts
  cases ts with
  | nil =>
    obtain ⟨us, e, hnil, -⟩ := h.ends
    simp at hnil
  | cons t us => exact ⟨t, us, rfl, withoutComments_cons (hhead t rfl) us⟩

/-- A statement does not begin with a pair of braces that the same statement can be written
without. -/
theorem not_displaced_stmt {ajar ajar' : Bool} {s : Stmt}
    (h : WrittenStmt templates (.stmt ajar s) ts) (hs : s.isComment = false) (hts : Genuine ts)
    (hx : Genuine x) (hus : Clause.Rewritten templates us (.stmt ajar' s)) :
    ¬ Displaced (withoutComments ts ++ x) (us ++ y) := by
  rintro ⟨o, c, ho, hc, heq⟩
  have hall : Genuine (o :: c :: (us ++ y)) := heq ▸ hts.withoutComments.append hx
  obtain ⟨t, ts', rfl, hfirst⟩ := h.withoutComments_eq_cons hs hts.unnamed
  have ht : t = o := by
    rw [hfirst] at heq
    exact (List.cons.inj heq).1
  obtain ⟨p, e, vs, m, rfl, hvs, hm, he⟩ := h.exists_of_openBrace (ht ▸ ho)
  rw [withoutComments_eq_self (h.silent rfl hts.unnamed), hvs] at heq
  rw [hvs] at hts
  obtain ⟨ajar', s', hbare, hs'⟩ := hus
  rw [Stmt.withoutComments_of_isPlain _ rfl] at hbare
  cases hs' with
  | @expr p' m' hm' e' ws he' =>
    simp only [Stmt.bare, Stmt.expr.injEq, true_and] at hbare
    have hvs := he.tallies hts.left.marksSpelled
    have hws := he'.tallies hall.tail.tail.left.left.marksSpelled
    have hsemicolons : marks .semicolon (o :: c :: ws) = 0 := by
      rw [marks_cons_of_ne (by simp [ho]), marks_cons_of_ne (by simp [hc]), hws.2]
    -- Up to the semicolon, the two writings of the expression differ by the braces.
    have hsame : vs = o :: c :: ws := by
      refine eq_of_semicolon hm hm' hvs.2 hsemicolons (x := x) (y := y) ?_
      simpa using heq
    have hobjects : e.objects = e'.objects := by
      rw [← Expr.objects_bare e, ← hbare, Expr.objects_bare]
    have hbraces := hvs.1
    rw [hsame, marks_cons_of_eq ho, marks_cons_of_ne (by simp [hc]), hws.1] at hbraces
    simp only [Phrase.objects] at hbraces
    omega
  | _ => simp [Stmt.bare] at hbare

/-- A pair of braces before a list of statements comes from behind it. -/
theorem displaced_of_stmts {ss : List Stmt} (h : WrittenStmt templates (.stmts ss) ts)
    (hts : Genuine ts) (hx : Genuine x) (hus : Clause.Rewritten templates us (.stmts ss))
    (hdisplaced : Displaced (withoutComments ts ++ x) (us ++ y)) : Displaced x y := by
  induction ss generalizing ts us with
  | nil =>
    cases h
    rw [rewritten_nil hus] at hdisplaced
    exact hdisplaced
  | cons s ss ih =>
    cases h with
    | @cons ajar _ _ ts ts' hs hss =>
      rw [withoutComments_append, List.append_assoc] at hdisplaced
      cases hcomment : s.isComment with
      | true =>
        obtain ⟨t, rfl, ht⟩ := hs.eq_of_comment hcomment
        rw [withoutComments_comment ht] at hdisplaced
        exact ih hss hts.right (rewritten_of_comment hcomment hus) hdisplaced
      | false =>
        obtain ⟨vs, ws, rfl, hfirst, -⟩ := rewritten_cons hcomment hus
        rw [List.append_assoc] at hdisplaced
        have hrest := hts.right.withoutComments.append hx
        exact absurd hdisplaced (not_displaced_stmt hs hcomment hts.left hrest hfirst)

/-! ## Comparing the two writings -/

/-- Whether a clause is a comment. -/
def Clause.isComment : Clause → Bool
  | .stmt _ s => s.isComment
  | _ => false

/-- The tokens `ts` hold no comment that gets in the way and the two writings go on alike, or there
is a pair of braces that only one of them goes on with. -/
def Clause.Settled (clause : Clause) (ts x y : List Token) : Prop :=
  (Unobtrusive ts ∧ clause.Follows ts ∧ x = y) ∨ Displaced x y

theorem WrittenStmt.ajar_of_isPlain {ajar : Bool} {s : Stmt}
    (h : WrittenStmt templates (.stmt ajar s) ts) (hs : s.isPlain = true) : ajar = false := by
  cases h with
  | ifThen | ifElse | forLoop | whileLoop => cases hs
  | _ => rfl

/-- Statements without statements inside are written in one way, whatever follows. -/
theorem settled_of_isPlain (henv : env.Fills templates) {ajar : Bool} {s : Stmt}
    (h : WrittenStmt templates (.stmt ajar s) ts) (hs : s.isPlain = true) (hts : Genuine ts)
    (hus : Clause.Rewritten templates us (.stmt ajar s)) (heq : withoutComments ts ++ x = us ++ y) :
    Clause.Settled (.stmt ajar s) ts x y := by
  have hplain := h.silent hs hts.unnamed
  rw [withoutComments_eq_self hplain] at heq
  obtain ⟨ajar', s', hbare, hs'⟩ := hus
  rw [Stmt.withoutComments_of_isPlain s hs] at hbare
  have hsplain' : s'.isPlain = true := by
    rw [← Stmt.isPlain_bare, hbare, Stmt.isPlain_bare, hs]
  have hfollow : ∀ {ajar : Bool} {k : Kind}, ajar = false → MayFollow ajar k := by
    intro ajar k hajar htrue
    rw [hajar] at htrue
    cases htrue
  have hrest := (h.taken henv).2.unique (hs'.taken henv).2 heq (hfollow (h.ajar_of_isPlain hs))
    (hfollow (hs'.ajar_of_isPlain hsplain'))
  exact .inl ⟨hplain.unobtrusive, trivial, hrest⟩

/-- What stands before a body does not hold comments. -/
theorem Clause.Settled.headed {ajar : Bool} {ss : List Stmt} {clause : Clause}
    (hus : Uncommented us) (h : Clause.Settled (.body ajar ss) ts x y)
    (hfollows : clause.Follows (us ++ ts)) : clause.Settled (us ++ ts) x y := by
  obtain ⟨hts, hfirst, rfl⟩ | hdisplaced := h
  · exact .inl ⟨.headed hus hts hfirst, hfollows, rfl⟩
  · exact .inr hdisplaced

/-- Statements between braces. -/
theorem unobtrusive_braces {l r : Token} (hl : l.kind = .mark .openBrace)
    (hr : r.kind = .mark .closeBrace) (hts : Unobtrusive ts) : Unobtrusive (l :: (ts ++ [r])) := by
  have hinside := hts.before (isComment_of_kind hr rfl) (by simp [hr]) (List.isChain_singleton r)
  exact .cons (isComment_of_kind hl rfl) (by rw [hl]; decide) hinside

/-- Statements behind a statement. -/
theorem Closed.unobtrusive_append (hclosed : Closed ts) (hgenuine : Genuine ts)
    (hts : Unobtrusive ts) (hus : Unobtrusive us) : Unobtrusive (ts ++ us) := by
  obtain ⟨vs, e, rfl, he⟩ := hclosed
  refine hts.append hus fun t ht u _ ↦ ?_
  rw [List.getLast?_concat, Option.mem_some_iff] at ht
  subst ht
  have hname : Token.isComment e = true → ¬ Token.NamesProperty e :=
    fun hcomment ↦ hgenuine e (by simp) (.inl hcomment)
  simp only [commentTakers, List.mem_cons, List.not_mem_nil, or_false, not_or] at he
  refine ⟨?_, ?_⟩
  · rintro (⟨hdot, -⟩ | ⟨-, hcomment, hnames⟩)
    · exact he.2.2 hdot
    · exact hname hcomment hnames
  · rintro ⟨hkind, -⟩
    simp [he] at hkind

/-- Statements between braces are a body. -/
theorem Clause.Settled.braces {ajar : Bool} {ss : List Stmt} {l r r' : Token}
    (hl : l.kind = .mark .openBrace) (hr : r.kind = .mark .closeBrace)
    (h : Clause.Settled (.stmts ss) ts (r :: x) (r' :: y)) :
    Clause.Settled (.body ajar ss) (l :: (ts ++ [r])) x y := by
  obtain ⟨hts, -, hrest⟩ | hdisplaced := h
  · refine .inl ⟨unobtrusive_braces hl hr hts, fun t ht ↦ ?_, (List.cons.inj hrest).2⟩
    cases ht
    exact isComment_of_kind hl rfl
  · exact absurd hdisplaced (not_displaced_cons (by simp [hr]))

/-- Both branches of an `if`.  Braces in the place of a comment in the first would stand before
`else`. -/
theorem Clause.Settled.otherwise {ajar ajar' : Bool} {yes no : List Stmt} {e e' : Token}
    {x' y' : List Token} (he : e.kind = .keyword .elseWord)
    (hyes : Clause.Settled (.body ajar yes) ts (e :: x') (e' :: y'))
    (hno : x' = y' → Clause.Settled (.body ajar' no) us x y) :
    Clause.Settled (.body ajar yes) (ts ++ e :: us) x y := by
  have heplain : Token.isComment e = false := isComment_of_kind he rfl
  obtain ⟨hts, hfirst, helse⟩ | hdisplaced := hyes
  · obtain ⟨hus, hnofirst, hxy⟩ | hdisplaced := hno (List.cons.inj helse).2
    · have hbehind : Unobtrusive (e :: us) := .headed (.cons heplain .nil) hus hnofirst
      refine .inl ⟨hts.before heplain (by simp [he]) hbehind, fun t ht ↦ ?_, hxy⟩
      cases ts with
      | nil =>
        cases ht
        exact heplain
      | cons t' ts =>
        cases ht
        exact hfirst t rfl
    · exact .inr hdisplaced
  · exact absurd hdisplaced (not_displaced_cons (by simp [he]))

/-! ## Headers -/

section Headers

variable {vs zs : List Token} {w l r w' l' r' : Token}

/-- Up to the parenthesis behind a test, two writings are alike. -/
theorem eq_behind_test (henv : env.Fills templates) {test test' : Expr}
    (hw : plainKind w.kind = true) (hl : l.kind = .mark .openParen)
    (hr : r.kind = .mark .closeParen) (hr' : r'.kind = .mark .closeParen)
    (htest : Written templates (.expr .assignment test) ts)
    (htest' : Written templates (.expr .assignment test') vs)
    (hts : Genuine (w :: l :: (ts ++ r :: us)))
    (heq : withoutComments (w :: l :: (ts ++ r :: us)) ++ x = w' :: l' :: (vs ++ r' :: zs) ++ y) :
    Uncommented (w :: l :: (ts ++ [r])) ∧ withoutComments us ++ x = zs ++ y := by
  have hwplain := isComment_of_plainKind hw
  have hlplain : Token.isComment l = false := isComment_of_kind hl rfl
  have hrplain : Token.isComment r = false := isComment_of_kind hr rfl
  have htestplain := htest.silent hts.tail.tail.left.unnamed
  have hend : .mark .closeParen ∉ Slot.assignment.goesOn := by decide
  have hopen := eq_behind_token hlplain (eq_behind_token hwplain heq)
  refine ⟨.cons hwplain (.cons hlplain (htestplain.append (.cons hrplain .nil))), ?_⟩
  exact (htest.taken henv).reads.eq_behind (htest'.taken henv).reads htestplain hrplain (hr ▸ hend)
    (hr' ▸ hend) hopen

/-- Up to the parenthesis behind the parameters of a function, two writings are alike. -/
theorem eq_behind_parameters (env : Context) {ps ps' : List Lexeme} {f n f' n' : Token}
    (hf : f.kind = .keyword .functionWord) (hn : n.kind = .identifier)
    (hl : l.kind = .mark .openParen) (hr : r.kind = .mark .closeParen)
    (hr' : r'.kind = .mark .closeParen) (hps : WrittenParameters ps ts)
    (hps' : WrittenParameters ps' vs) (hts : Genuine (f :: n :: l :: (ts ++ r :: us)))
    (heq : withoutComments (f :: n :: l :: (ts ++ r :: us)) ++ x =
      f' :: n' :: l' :: (vs ++ r' :: zs) ++ y) :
    Uncommented (f :: n :: l :: (ts ++ [r])) ∧ withoutComments us ++ x = zs ++ y := by
  have hfplain : Token.isComment f = false := isComment_of_kind hf rfl
  have hnplain : Token.isComment n = false := isComment_of_kind hn rfl
  have hlplain : Token.isComment l = false := isComment_of_kind hl rfl
  have hrplain : Token.isComment r = false := isComment_of_kind hr rfl
  have hplain := hps.silent hts.tail.tail.tail.left.unnamed
  have hopen := eq_behind_token hlplain (eq_behind_token hnplain (eq_behind_token hfplain heq))
  refine ⟨?_, (hps.reads env).eq_behind (hps'.reads env) hplain hrplain hr hr' hopen⟩
  exact .cons hfplain (.cons hnplain (.cons hlplain (hplain.append (.cons hrplain .nil))))

/-- Up to the parenthesis behind the three parts of a `for`, two writings are alike. -/
theorem eq_behind_parts (henv : env.Fills templates) {i i' : ForInit}
    {test update test' update' : Option Expr} {m e m' e' : Token}
    {ts₁ ts₂ ts₃ vs₁ vs₂ vs₃ : List Token}
    (hw : w.kind = .keyword .forWord) (hl : l.kind = .mark .openParen)
    (hm : m.kind = .mark .semicolon) (he : e.kind = .mark .semicolon)
    (hr : r.kind = .mark .closeParen) (hm' : m'.kind = .mark .semicolon)
    (he' : e'.kind = .mark .semicolon) (hr' : r'.kind = .mark .closeParen)
    (hi : WrittenInit templates i ts₁) (htest : WrittenOption templates test ts₂)
    (hupdate : WrittenOption templates update ts₃) (hi' : WrittenInit templates i' vs₁)
    (htest' : WrittenOption templates test' vs₂) (hupdate' : WrittenOption templates update' vs₃)
    (hts : Genuine (w :: l :: (ts₁ ++ m :: (ts₂ ++ e :: (ts₃ ++ r :: us)))))
    (heq : withoutComments (w :: l :: (ts₁ ++ m :: (ts₂ ++ e :: (ts₃ ++ r :: us)))) ++ x =
      w' :: l' :: (vs₁ ++ m' :: (vs₂ ++ e' :: (vs₃ ++ r' :: zs))) ++ y) :
    Uncommented (w :: l :: (ts₁ ++ m :: (ts₂ ++ e :: (ts₃ ++ [r])))) ∧
      withoutComments us ++ x = zs ++ y := by
  have hwplain : Token.isComment w = false := isComment_of_kind hw rfl
  have hlplain : Token.isComment l = false := isComment_of_kind hl rfl
  have hmplain : Token.isComment m = false := isComment_of_kind hm rfl
  have heplain : Token.isComment e = false := isComment_of_kind he rfl
  have hrplain : Token.isComment r = false := isComment_of_kind hr rfl
  have hsecond := hts.tail.tail.right.tail
  have hinitplain := hi.silent hts.tail.tail.left.unnamed
  have htestplain := htest.silent hsecond.left.unnamed
  have hupdateplain := hupdate.silent hsecond.right.tail.left.unnamed
  have hopen := eq_behind_token hlplain (eq_behind_token hwplain heq)
  have hinit := (hi.reads henv).eq_behind (hi'.reads henv) hinitplain hmplain hm hm' hopen
  have htests := (htest.reads henv .semicolon (by decide)).eq_behind
    (htest'.reads henv .semicolon (by decide)) htestplain heplain he he' hinit
  have hupdates := (hupdate.reads henv .closeParen (by decide)).eq_behind
    (hupdate'.reads henv .closeParen (by decide)) hupdateplain hrplain hr hr' htests
  refine ⟨.cons hwplain (.cons hlplain (hinitplain.append (.cons hmplain (htestplain.append ?_)))),
    hupdates⟩
  exact .cons heplain (hupdateplain.append (.cons hrplain .nil))

end Headers

/-- **Of two writings, one with and one without comments, one goes on with a pair of braces if a
comment is the body of a branch or a loop.** -/
theorem WrittenStmt.settled (henv : env.Fills templates) {clause : Clause}
    (h : WrittenStmt templates clause ts) (hclause : clause.isComment = false) (hts : Genuine ts)
    (hx : Genuine x) (hus : clause.Rewritten templates us)
    (heq : withoutComments ts ++ x = us ++ y) : clause.Settled ts x y := by
  induction h generalizing us x y with
  | lineComment | blockComment => cases hclause
  | importFrom p i m e w hi hm hw he h =>
    exact settled_of_isPlain henv (.importFrom p i m e w hi hm hw he h) rfl hts hus heq
  | exportDefaultFunction p q a d ha hd h ih =>
    obtain ⟨vs, ws, rfl, hlength, hws⟩ := rewritten_exportDecl hus
    obtain ⟨a', d', rfl⟩ := List.length_eq_two.mp hlength
    have haplain : Token.isComment a = false := isComment_of_kind ha rfl
    have hdplain : Token.isComment d = false := isComment_of_kind hd rfl
    have hrest := eq_behind_token hdplain (eq_behind_token haplain heq)
    obtain ⟨hunobtrusive, -, hxy⟩ | hdisplaced := ih rfl hts.tail.tail hx hws hrest
    · refine .inl ⟨?_, trivial, hxy⟩
      exact .cons haplain (by rw [ha]; decide) (.cons hdplain (by rw [hd]; decide) hunobtrusive)
    · exact .inr hdisplaced
  | exportDefault p a d e ha hd he h =>
    exact settled_of_isPlain henv (.exportDefault p a d e ha hd he h) rfl hts hus heq
  | exportFunction p q a ha h ih =>
    obtain ⟨vs, ws, rfl, hlength, hws⟩ := rewritten_exportDecl hus
    obtain ⟨a', rfl⟩ := List.length_eq_one_iff.mp hlength
    have haplain : Token.isComment a = false := isComment_of_kind ha rfl
    obtain ⟨hunobtrusive, -, hxy⟩ | hdisplaced :=
      ih rfl hts.tail hx hws (eq_behind_token haplain heq)
    · exact .inl ⟨.cons haplain (by rw [ha]; decide) hunobtrusive, trivial, hxy⟩
    · exact .inr hdisplaced
  | exportVariable p a e ha he h =>
    exact settled_of_isPlain henv (.exportVariable p a e ha he h) rfl hts hus heq
  | exportNames p a l r e ha hl hr he h =>
    exact settled_of_isPlain henv (.exportNames p a l r e ha hl hr he h) rfl hts hus heq
  | «variable» e he h => exact settled_of_isPlain henv (.variable e he h) rfl hts hus heq
  | print p w e hw he h => exact settled_of_isPlain henv (.print p w e hw he h) rfl hts hus heq
  | console p w l r e hw hl hr he h =>
    exact settled_of_isPlain henv (.console p w l r e hw hl hr he h) rfl hts hus heq
  | @function p f n l r o c hf hn hl hr ho hc ps ss ts us' hps _ ih =>
    obtain ⟨f', n', l', r', o', c', vs, ws, ps', rfl, hr', hps', hws⟩ := rewritten_function hus
    obtain ⟨hhead, hrest⟩ := eq_behind_parameters env hf hn hl hr hr' hps hps' hts heq
    have hbehind := hts.tail.tail.tail.right.tail.tail
    have hinside := ih rfl hbehind.left (hbehind.right.append hx) hws (eq_inside_braces ho hc hrest)
    have hbody : Clause.Settled (.body false ss) (o :: (us' ++ [c])) x y := hinside.braces ho hc
    have hsplit : f :: n :: l :: (ts ++ r :: o :: (us' ++ [c])) =
        f :: n :: l :: (ts ++ [r]) ++ o :: (us' ++ [c]) := by simp
    rw [hsplit]
    exact hbody.headed hhead trivial
  | ret p w e hw he h => exact settled_of_isPlain henv (.ret p w e hw he h) rfl hts hus heq
  | @ifThen p w l r hw hl hr ajar test yes ts ts' htest _ ih =>
    obtain ⟨w', l', r', vs, ws, test', rfl, hr', htest', hws⟩ := rewritten_ifThen hus
    obtain ⟨hhead, hrest⟩ := eq_behind_test henv (hw ▸ rfl) hl hr hr' htest htest' hts heq
    have hbody := ih rfl hts.tail.tail.right.tail hx hws hrest
    have hsplit : w :: l :: (ts ++ r :: ts') = w :: l :: (ts ++ [r]) ++ ts' := by simp
    rw [hsplit]
    exact hbody.headed hhead trivial
  | @ifElse p w l r e hw hl hr he ajar test yes no ts ts' ts'' htest _ _ ihyes ihno =>
    obtain ⟨w', l', r', e', vs, ws, zs, test', rfl, hr', htest', hws, hzs⟩ := rewritten_ifElse hus
    obtain ⟨hhead, hrest⟩ := eq_behind_test henv (hw ▸ rfl) hl hr hr' htest htest' hts heq
    have hbehind := hts.tail.tail.right.tail
    have heplain : Token.isComment e = false := isComment_of_kind he rfl
    have hyesrest : Genuine (e :: withoutComments ts'' ++ x) := by
      rw [← withoutComments_cons heplain]
      exact hbehind.right.withoutComments.append hx
    rw [withoutComments_append, withoutComments_cons heplain, List.append_assoc,
      List.append_assoc] at hrest
    have hyes := ihyes rfl hbehind.left hyesrest hws hrest
    have hboth := hyes.otherwise he fun helse ↦ ihno rfl hbehind.right.tail hx hzs helse
    have hsplit : w :: l :: (ts ++ r :: (ts' ++ e :: ts'')) =
        w :: l :: (ts ++ [r]) ++ (ts' ++ e :: ts'') := by simp
    rw [hsplit]
    exact hboth.headed hhead trivial
  | @forLoop p w l m e r hw hl hm he hr ajar i test update ss ts₁ ts₂ ts₃ ts hi htest hupdate _
      ih =>
    obtain ⟨w', l', m', e', r', vs₁, vs₂, vs₃, ws, i', test', update', rfl, hm', he', hr', hi',
      htest', hupdate', hws⟩ := rewritten_forLoop hus
    obtain ⟨hhead, hrest⟩ := eq_behind_parts henv hw hl hm he hr hm' he' hr' hi htest hupdate hi'
      htest' hupdate' hts heq
    have hbody := ih rfl hts.tail.tail.right.tail.right.tail.right.tail hx hws hrest
    have hsplit : w :: l :: (ts₁ ++ m :: (ts₂ ++ e :: (ts₃ ++ r :: ts))) =
        w :: l :: (ts₁ ++ m :: (ts₂ ++ e :: (ts₃ ++ [r]))) ++ ts := by simp
    rw [hsplit]
    exact hbody.headed hhead trivial
  | @whileLoop p w l r hw hl hr ajar test ss ts ts' htest _ ih =>
    obtain ⟨w', l', r', vs, ws, test', rfl, hr', htest', hws⟩ := rewritten_whileLoop hus
    obtain ⟨hhead, hrest⟩ := eq_behind_test henv (hw ▸ rfl) hl hr hr' htest htest' hts heq
    have hbody := ih rfl hts.tail.tail.right.tail hx hws hrest
    have hsplit : w :: l :: (ts ++ r :: ts') = w :: l :: (ts ++ [r]) ++ ts' := by simp
    rw [hsplit]
    exact hbody.headed hhead trivial
  | breakLoop p w e hw he => exact settled_of_isPlain henv (.breakLoop p w e hw he) rfl hts hus heq
  | continueLoop p w e hw he =>
    exact settled_of_isPlain henv (.continueLoop p w e hw he) rfl hts hus heq
  | expr p e he h => exact settled_of_isPlain henv (.expr p e he h) rfl hts hus heq
  | nil =>
    rw [rewritten_nil hus] at heq
    exact .inl ⟨.nil, trivial, heq⟩
  | @cons ajar s ss ts ts' hs hss ihs ihss =>
    rw [withoutComments_append, List.append_assoc] at heq
    have hrest := hts.right.withoutComments.append hx
    have hall : Unobtrusive ts → Clause.Settled (.stmts ss) ts' x y →
        Clause.Settled (.stmts (s :: ss)) (ts ++ ts') x y := by
      rintro hfirst (⟨hunobtrusive, -, hxy⟩ | hdisplaced)
      · exact .inl ⟨hs.ends.unobtrusive_append hts.left hfirst hunobtrusive, trivial, hxy⟩
      · exact .inr hdisplaced
    cases hcomment : s.isComment with
    | true =>
      obtain ⟨t, rfl, ht⟩ := hs.eq_of_comment hcomment
      rw [withoutComments_comment ht] at heq
      exact hall (List.isChain_singleton t)
        (ihss rfl hts.right hx (rewritten_of_comment hcomment hus) heq)
    | false =>
      obtain ⟨vs, ws, rfl, hvs, hws⟩ := rewritten_cons hcomment hus
      rw [List.append_assoc] at heq
      obtain ⟨hfirst, -, htail⟩ | hdisplaced := ihs hcomment hts.left hrest hvs heq
      · exact hall hfirst (ihss rfl hts.right hx hws htail)
      · exact .inr (displaced_of_stmts hss hts.right hx hws hdisplaced)
  | @braces l r hl hr ss ts _ ih =>
    obtain ⟨l', r', vs, rfl, -, -, hvs⟩ | ⟨t, vs, s', rfl, ht, -⟩ := rewritten_body hus
    · have hrest : Genuine (r :: x) := hts.tail.right.append hx
      exact (ih rfl hts.tail.left hrest hvs (eq_inside_braces hl hr heq)).braces hl hr
    · rw [withoutComments_cons (isComment_of_kind hl rfl)] at heq
      rw [(List.cons.inj heq).1] at hl
      exact absurd hl ht
  | @single ajar s t ts ht hs ih =>
    cases hcomment : s.isComment with
    | true =>
      obtain ⟨t', heq', ht'⟩ := hs.eq_of_comment hcomment
      cases heq'
      rw [withoutComments_comment ht'] at heq
      -- Without the comment, the body is empty.
      obtain ⟨l, r, vs, rfl, hl, hr, hvs⟩ | ⟨t', vs, s', rfl, -, hs', -⟩ := rewritten_body hus
      · obtain rfl := rewritten_nil (rewritten_of_comment hcomment hvs)
        exact .inr ⟨l, r, hl, hr, heq⟩
      · rw [Stmt.withoutCommentsAll_of_comment hcomment] at hs'
        simp [Stmt.bareAll] at hs'
    | false =>
      have hhead : Token.isComment t = false := hs.isComment_head hcomment hts.unnamed t rfl
      obtain ⟨l, r, vs, rfl, hl, -⟩ | ⟨t', vs, s', rfl, -, hs', ajar', hstmt⟩ := rewritten_body hus
      · rw [withoutComments_cons hhead] at heq
        rw [← (List.cons.inj heq).1] at hl
        exact absurd hl ht
      · rw [Stmt.withoutCommentsAll_cons hcomment] at hs'
        simp only [Stmt.withoutCommentsAll_nil, Stmt.bareAll, List.cons.injEq, and_true] at hs'
        obtain ⟨hunobtrusive, -, hrest⟩ | hdisplaced :=
          ih hcomment hts hx ⟨ajar', s', hs', hstmt⟩ heq
        · refine .inl ⟨hunobtrusive, fun u hu ↦ ?_, hrest⟩
          cases hu
          exact hhead
        · exact .inr hdisplaced

end Advplc.Grammar

import Advplc.Proofs.Grammar.Written
import Advplc.Proofs.Script.Comments
import Mathlib.Data.List.Chain

/-!
# Tokens without comments

A comment is written where a statement is, and if it is taken out, the tokens around it still write
the statements around it.  There is one exception: where a single statement is the body of a branch
or a loop, a comment in its place is that body, and without it the next statement would be.  So a
comment must not stand directly behind the parenthesis or the `else` that such a body follows.

Names of properties are told by their form and not by their kind.  The text of a comment does not
have the form of a name, but a token that was put together by hand may have the kind of a comment
and a name for its text, and that must not be used as one.

`Unobtrusive` says that neither is the case, and `WrittenStmt.stripped` that such comments can be
taken out.
-/

set_option autoImplicit false

namespace Advplc.Grammar

open Script

variable {templates : Text → List Text → List Expr → Prop} {ts us : List Token} {t u : Token}

/-! ## Comments among tokens -/

/-- Whether a token is a comment. -/
def Token.isComment (t : Token) : Bool := t.kind = .lineComment ∨ t.kind = .blockComment

/-- The tokens that are not comments. -/
def withoutComments (ts : List Token) : List Token := ts.filter fun t ↦ !Token.isComment t

/-- None of the tokens is a comment. -/
def Uncommented (ts : List Token) : Prop := ∀ t ∈ ts, Token.isComment t = false

theorem Uncommented.nil : Uncommented [] := List.forall_mem_nil _

theorem Uncommented.cons (ht : Token.isComment t = false) (hts : Uncommented ts) :
    Uncommented (t :: ts) := List.forall_mem_cons.mpr ⟨ht, hts⟩

theorem Uncommented.append (hts : Uncommented ts) (hus : Uncommented us) :
    Uncommented (ts ++ us) := List.forall_mem_append.mpr ⟨hts, hus⟩

theorem withoutComments_eq_self (h : Uncommented ts) : withoutComments ts = ts :=
  List.filter_eq_self.mpr fun t ht ↦ by rw [h t ht]; rfl

@[simp] theorem withoutComments_append (ts us : List Token) :
    withoutComments (ts ++ us) = withoutComments ts ++ withoutComments us := List.filter_append ..

theorem withoutComments_cons (ht : Token.isComment t = false) (ts : List Token) :
    withoutComments (t :: ts) = t :: withoutComments ts :=
  List.filter_cons_of_pos (by rw [ht]; rfl)

theorem withoutComments_comment (ht : Token.isComment t = true) (ts : List Token) :
    withoutComments (t :: ts) = withoutComments ts :=
  List.filter_cons_of_neg (by rw [ht]; decide)

/-- Whether tokens of this kind are no comments. -/
def plainKind : Kind → Bool
  | .lineComment | .blockComment => false
  | _ => true

theorem isComment_of_plainKind (h : plainKind t.kind = true) : Token.isComment t = false := by
  rw [Token.isComment, decide_eq_false_iff_not]
  rintro (hk | hk)
  · rw [hk] at h
    cases h
  · rw [hk] at h
    cases h

theorem isComment_of_kind {k : Kind} (h : t.kind = k) (hk : plainKind k = true) :
    Token.isComment t = false := isComment_of_plainKind (h ▸ hk)

/-! ## Comments that do not get in the way -/

/-- Of the token `t` and the token `u` behind it, one is a comment that is taken for a name. -/
def NamedByComment (t u : Token) : Prop :=
  (t.kind = .mark .dot ∧ Token.isComment u = true ∧ Token.NamesProperty u) ∨
    (u.kind = .mark .colon ∧ Token.isComment t = true ∧ Token.NamesProperty t)

/-- The token `u` behind the token `t` is a comment that is the body of a branch or a loop. -/
def BodyOfComment (t u : Token) : Prop :=
  t.kind ∈ [Kind.mark .closeParen, .keyword .elseWord] ∧ Token.isComment u = true

/-- No comment is taken for a name. -/
def Unnamed (ts : List Token) : Prop := ts.IsChain fun t u ↦ ¬ NamedByComment t u

/-- No comment is taken for a name, and none is the body of a branch or a loop. -/
def Unobtrusive (ts : List Token) : Prop :=
  ts.IsChain fun t u ↦ ¬ NamedByComment t u ∧ ¬ BodyOfComment t u

theorem Unobtrusive.tail (h : Unobtrusive (t :: ts)) : Unobtrusive ts := List.IsChain.tail h

theorem Unobtrusive.left (h : Unobtrusive (ts ++ us)) : Unobtrusive ts :=
  List.IsChain.left_of_append h

/-- What stands behind may be left out. -/
theorem Unobtrusive.left_cons (h : Unobtrusive (t :: (ts ++ us))) : Unobtrusive (t :: ts) := by
  rw [← List.cons_append] at h
  exact h.left

theorem Unobtrusive.right (h : Unobtrusive (ts ++ us)) : Unobtrusive us :=
  List.IsChain.right_of_append h

theorem Unobtrusive.unnamed (h : Unobtrusive ts) : Unnamed ts := h.imp fun _ _ h ↦ h.1

/-! ## Expressions -/

/-- The tokens are no comments as long as no comment is taken for a name. -/
def Silent (ts : List Token) : Prop := Unnamed ts → Uncommented ts

theorem Silent.nil : Silent [] := fun _ ↦ .nil

theorem Silent.cons (ht : plainKind t.kind = true) (hts : Silent ts) : Silent (t :: ts) :=
  fun h ↦ .cons (isComment_of_plainKind ht) (hts h.tail)

theorem Silent.divided (ht : plainKind t.kind = true) (hts : Silent ts) (hus : Silent us) :
    Silent (ts ++ t :: us) := fun h ↦
  .append (hts h.left_of_append) (.cons (isComment_of_plainKind ht) (hus h.right_of_append.tail))

theorem Silent.closed (ht : plainKind t.kind = true) (hts : Silent ts) : Silent (ts ++ [t]) :=
  .divided ht hts .nil

theorem Silent.single (ht : plainKind t.kind = true) : Silent [t] := .cons ht .nil

/-- A property behind a point. -/
theorem Silent.member (ht : t.kind = .mark .dot) (hu : Token.NamesProperty u) (hts : Silent ts) :
    Silent (ts ++ [t, u]) := by
  intro h
  have hpair := List.isChain_pair.mp h.right_of_append
  have hplain : Token.isComment u = false := by
    rw [← Bool.not_eq_true]
    exact fun hcomment ↦ hpair (.inl ⟨ht, hcomment, hu⟩)
  have hdot : plainKind t.kind = true := by
    rw [ht]
    rfl
  exact .append (hts h.left_of_append)
    (.cons (isComment_of_plainKind hdot) (.cons hplain .nil))

/-- The key of a property before its value. -/
theorem Silent.keyed {key : Lexeme} (ht : WritesKey t key) (hu : u.kind = .mark .colon)
    (hts : Silent ts) : Silent (t :: u :: ts) := by
  intro h
  have hplain : Token.isComment t = false := by
    cases ht with
    | string w ht hw => exact isComment_of_kind ht rfl
    | number ht => exact isComment_of_kind ht rfl
    | name ht hkind =>
      rw [← Bool.not_eq_true]
      exact fun hcomment ↦ (List.isChain_cons_cons.mp h).1 (.inr ⟨hu, hcomment, ht⟩)
  exact .cons hplain (Silent.cons (by rw [hu]; rfl) hts h.tail)

theorem plainKind_of_mem {ks : List Kind} (hks : ∀ k ∈ ks, plainKind k = true)
    (ht : t.kind ∈ ks) : plainKind t.kind = true := hks t.kind ht

theorem Written.silent {phrase : Phrase} (h : Written templates phrase ts) : Silent ts := by
  have hmark : ∀ {t : Token} {m : Mark}, t.kind = .mark m → plainKind t.kind = true :=
    fun h ↦ h ▸ rfl
  have hlevels : ∀ ops ∈ binaryLevels, ∀ k ∈ ops, plainKind k = true := by decide
  induction h with
  | number p t ht => exact .single (ht ▸ rfl)
  | string p t w ht hw => exact .single (ht ▸ rfl)
  | template p t w chunks holes ht hw hholes => exact .single (ht ▸ rfl)
  | trueWord p t ht hw => exact .single (ht ▸ rfl)
  | falseWord p t ht hw => exact .single (ht ▸ rfl)
  | nullWord p t ht hw => exact .single (ht ▸ rfl)
  | name p t ht hw => exact .single (ht ▸ rfl)
  | thisWord p t ht => exact .single (ht ▸ rfl)
  | calleeName p t ht => exact .single (ht ▸ rfl)
  | shorthand p t ht => exact .single (ht ▸ rfl)
  | noArguments | noElements | noProperties => exact .nil
  | object p l r hl hr _ ih => exact .cons (hmark hl) (.closed (hmark hr) ih)
  | array p l r hl hr _ ih => exact .cons (hmark hl) (.closed (hmark hr) ih)
  | parentheses l r hl hr _ ih => exact .cons (hmark hl) (.closed (hmark hr) ih)
  | new p n l r hn hl hr _ _ ihe ihes =>
    exact .cons (hn ▸ rfl) (.divided (hmark hl) ihe (.closed (hmark hr) ihes))
  | newBare p n hn _ ih => exact .cons (hn ▸ rfl) ih
  | member p q d n hd hn _ ih => exact .member hd hn ih
  | calleeMember p q d n hd hn _ ih => exact .member hd hn ih
  | index p l r hl hr _ _ ihe ihk => exact .divided (hmark hl) ihe (.closed (hmark hr) ihk)
  | call p l r hl hr _ _ ihe ihes => exact .divided (hmark hl) ihe (.closed (hmark hr) ihes)
  | updateAfter p op hop _ ih => exact .closed (plainKind_of_mem (by decide) hop) ih
  | updateBefore p op hop _ ih => exact .cons (plainKind_of_mem (by decide) hop) ih
  | unary p op hop _ ih => exact .cons (plainKind_of_mem (by decide) hop) ih
  | binary p op hsuffix hop _ _ ihl ihr =>
    have hmem := hsuffix.subset List.mem_cons_self
    exact .divided (plainKind_of_mem (hlevels _ hmem) hop) ihl ihr
  | conditional p q c hq hc _ _ _ iht ihy ihn =>
    exact .divided (hmark hq) iht (.divided (hmark hc) ihy ihn)
  | assign p op hop htarget _ _ ihl ihv =>
    exact .divided (plainKind_of_mem (by decide) hop) ihl ihv
  | moreItems c hc _ _ ih ihs => exact .divided (hmark hc) ih ihs
  | moreElements c hc _ _ ih ihs => exact .divided (hmark hc) ih ihs
  | moreProperties c hc _ _ ih ihs => exact .divided (hmark hc) ih ihs
  | keyed k c hc hk _ ih => exact .keyed hk hc ih
  | toAssignment _ ih | toConditional _ ih | toBinary _ _ ih | toUnary _ ih | toSuffixed _ ih
  | toIndexed _ ih | toChained _ ih | someArguments _ ih | lastItem _ ih | lastElement _ ih
  | lastProperty _ ih => exact ih

/-! ## The parts of statements -/

section Lists

variable {α : Type} {item : α → List Token → Prop} {as : List α}

/-- In lists with commas there are no comments if there are none in their items. -/
theorem WrittenSeparated.silent (hitem : ∀ a ts, item a ts → Silent ts)
    (h : WrittenSeparated item as ts) : Silent ts := by
  induction h with
  | last ha => exact hitem _ _ ha
  | more c hc ha _ ih => exact .divided (hc ▸ rfl) (hitem _ _ ha) ih

theorem WrittenListed.silent (hitem : ∀ a ts, item a ts → Silent ts)
    (h : WrittenListed item as ts) : Silent ts := by
  induction h with
  | nil => exact .nil
  | last ha => exact hitem _ _ ha
  | more c hc ha _ ih => exact .divided (hc ▸ rfl) (hitem _ _ ha) ih

end Lists

theorem WrittenRenamed.silent {x : Lexeme × Option Lexeme} (h : WrittenRenamed x ts) :
    Silent ts := by
  cases h with
  | plain n hn => exact .single (hn ▸ rfl)
  | another n a m hn ha has hm => exact .cons (hn ▸ rfl) (.cons (ha ▸ rfl) (.single (hm ▸ rfl)))

theorem WrittenSpecifier.silent {x : Specifier} (h : WrittenSpecifier x ts) : Silent ts := by
  cases h with
  | named h => exact h.silent

theorem WrittenExported.silent {x : Lexeme} (h : WrittenExported x ts) : Silent ts := by
  cases h with
  | plain h => exact h.silent
  | another h => exact h.silent

theorem WrittenFurther.silent {xs : List Specifier} (h : WrittenFurther xs ts) : Silent ts := by
  cases h with
  | named l r hl hr h =>
    exact .cons (hl ▸ rfl) (.closed (hr ▸ rfl) (h.silent fun _ _ ↦ WrittenSpecifier.silent))
  | module s a n hs ha has hn => exact .cons (hs ▸ rfl) (.cons (ha ▸ rfl) (.single (hn ▸ rfl)))

theorem WrittenImport.silent {xs : List Specifier} (h : WrittenImport xs ts) : Silent ts := by
  cases h with
  | nothing => exact .nil
  | further f hf h => exact .closed (hf ▸ rfl) h.silent
  | default n f hn hf => exact .cons (hn ▸ rfl) (.single (hf ▸ rfl))
  | both n c f hn hc hf h =>
    exact .cons (hn ▸ rfl) (.cons (hc ▸ rfl) (.closed (hf ▸ rfl) h.silent))

theorem WrittenParameters.silent {ps : List Lexeme} (h : WrittenParameters ps ts) : Silent ts := by
  cases h with
  | empty => exact .nil
  | nonempty h =>
    refine h.silent fun _ _ hp ↦ ?_
    cases hp with
    | name t ht => exact .single (ht ▸ rfl)

theorem WrittenOption.silent {v : Option Expr} (h : WrittenOption templates v ts) : Silent ts := by
  cases h with
  | absent => exact .nil
  | present h => exact h.silent

/-- Declarations have no comments in them. -/
theorem WrittenVariable.silent {v : Variable} (h : WrittenVariable templates v ts) :
    Silent ts := by
  cases h with
  | declared p w n hw hn h =>
    refine .cons (plainKind_of_mem (by decide) hw) (.cons (hn ▸ rfl) ?_)
    cases h with
    | absent => exact .nil
    | present a ha h => exact .cons (ha ▸ rfl) h.silent

theorem WrittenInit.silent {i : ForInit} (h : WrittenInit templates i ts) : Silent ts := by
  cases h with
  | nothing => exact .nil
  | «variable» h => exact h.silent
  | expr h => exact h.silent

/-! ## Statements -/

/-- A comment is written by one token. -/
theorem WrittenStmt.eq_of_comment {ajar : Bool} {s : Stmt}
    (h : WrittenStmt templates (.stmt ajar s) ts) (hs : s.isComment = true) :
    ∃ t, ts = [t] ∧ Token.isComment t = true := by
  cases h with
  | lineComment p t w ht hw => exact ⟨t, rfl, decide_eq_true (.inl ht)⟩
  | blockComment p t w ht hw => exact ⟨t, rfl, decide_eq_true (.inr ht)⟩
  | _ => cases hs

/-- The tokens `us` write what a clause is without its comments.  A clause that is a comment is
written by nothing. -/
def Clause.Stripped (templates : Text → List Text → List Expr → Prop) (us : List Token) :
    Clause → Prop
  | .stmt ajar s =>
    if s.isComment = true then us = []
    else WrittenStmt templates (.stmt ajar s.withoutComments) us
  | .stmts ss => WrittenStmt templates (.stmts (Stmt.withoutCommentsAll ss)) us
  | .body ajar ss => WrittenStmt templates (.body ajar (Stmt.withoutCommentsAll ss)) us

/-- What stands before the first token of a clause.  Before the body of a branch or a loop, that is
a parenthesis or `else`. -/
def Clause.Follows (clause : Clause) (ts : List Token) : Prop :=
  match clause with
  | .body _ _ => ∀ t ∈ ts.head?, Token.isComment t = false
  | _ => True

/-- Within a statement without statements inside there are no comments. -/
theorem WrittenStmt.silent {ajar : Bool} {s : Stmt} (h : WrittenStmt templates (.stmt ajar s) ts)
    (hs : s.isPlain = true) : Silent ts := by
  cases h with
  | importFrom p i m e w hi hm hw he h =>
    exact .cons (hi ▸ rfl) (.divided (hm ▸ rfl) h.silent (.single (he ▸ rfl)))
  | exportDefault p x d e hx hd he h =>
    exact .cons (hx ▸ rfl) (.cons (hd ▸ rfl) (.closed (he ▸ rfl) h.silent))
  | exportVariable p x e hx he h => exact .cons (hx ▸ rfl) (.closed (he ▸ rfl) h.silent)
  | exportNames p x l r e hx hl hr he h =>
    have hnames := h.silent fun _ _ ↦ WrittenExported.silent
    exact .cons (hx ▸ rfl) (.cons (hl ▸ rfl) (.divided (hr ▸ rfl) hnames (.single (he ▸ rfl))))
  | «variable» e he h => exact .closed (he ▸ rfl) h.silent
  | print p w e hw he h => exact .cons (hw ▸ rfl) (.closed (he ▸ rfl) h.silent)
  | console p w l r e hw hl hr he h =>
    exact .cons (hw ▸ rfl) (.cons (hl ▸ rfl) (.divided (hr ▸ rfl) h.silent (.single (he ▸ rfl))))
  | ret p w e hw he h => exact .cons (hw ▸ rfl) (.closed (he ▸ rfl) h.silent)
  | breakLoop p w e hw he => exact .cons (hw ▸ rfl) (.single (he ▸ rfl))
  | continueLoop p w e hw he => exact .cons (hw ▸ rfl) (.single (he ▸ rfl))
  | expr p e he h => exact .closed (he ▸ rfl) h.silent
  | _ => cases hs

/-- Statements without statements inside are left as they are. -/
theorem stripped_of_isPlain {ajar : Bool} {s : Stmt} (h : WrittenStmt templates (.stmt ajar s) ts)
    (hs : s.isPlain = true) (hts : Unobtrusive ts) :
    Clause.Stripped templates (withoutComments ts) (.stmt ajar s) := by
  rw [Clause.Stripped, if_neg (by simp [Stmt.isComment_of_isPlain s hs]),
    Stmt.withoutComments_of_isPlain s hs, withoutComments_eq_self (h.silent hs hts.unnamed)]
  exact h

/-- Tokens behind a parenthesis or an `else` do not begin with a comment. -/
theorem Unobtrusive.follows {ajar : Bool} {ss : List Stmt} (h : Unobtrusive (t :: ts))
    (ht : t.kind ∈ [Kind.mark .closeParen, .keyword .elseWord]) :
    Clause.Follows (.body ajar ss) ts := by
  intro u hu
  cases ts with
  | nil => cases hu
  | cons v ts =>
    cases hu
    rw [← Bool.not_eq_true]
    exact fun hcomment ↦ (List.isChain_cons_cons.mp h).1.2 ⟨ht, hcomment⟩

/-- Up to the parenthesis behind a test, there are no comments. -/
theorem withoutComments_test {test : Expr} {w l r : Token} (hw : plainKind w.kind = true)
    (hl : l.kind = .mark .openParen) (hr : r.kind = .mark .closeParen)
    (htest : Written templates (.expr .assignment test) ts) (hts : Unnamed ts) :
    withoutComments (w :: l :: (ts ++ r :: us)) = w :: l :: (ts ++ r :: withoutComments us) := by
  rw [withoutComments_cons (isComment_of_plainKind hw),
    withoutComments_cons (isComment_of_kind hl rfl), withoutComments_append,
    withoutComments_eq_self (htest.silent hts), withoutComments_cons (isComment_of_kind hr rfl)]

/-- **Comments that do not get in the way can be taken out of tokens.** -/
theorem WrittenStmt.stripped {clause : Clause} (h : WrittenStmt templates clause ts)
    (hts : Unobtrusive ts) (hfollows : clause.Follows ts) :
    clause.Stripped templates (withoutComments ts) := by
  induction h with
  | lineComment p t w ht hw => exact withoutComments_comment (decide_eq_true (.inl ht)) []
  | blockComment p t w ht hw => exact withoutComments_comment (decide_eq_true (.inr ht)) []
  | importFrom p i m e w hi hm hw he h =>
    exact stripped_of_isPlain (.importFrom p i m e w hi hm hw he h) rfl hts
  | exportDefaultFunction p q x d hx hd h ih =>
    rw [withoutComments_cons (isComment_of_kind hx rfl),
      withoutComments_cons (isComment_of_kind hd rfl)]
    exact .exportDefaultFunction p q x d hx hd (ih hts.tail.tail trivial)
  | exportDefault p x d e hx hd he h =>
    exact stripped_of_isPlain (.exportDefault p x d e hx hd he h) rfl hts
  | exportFunction p q x hx h ih =>
    rw [withoutComments_cons (isComment_of_kind hx rfl)]
    exact .exportFunction p q x hx (ih hts.tail trivial)
  | exportVariable p x e hx he h =>
    exact stripped_of_isPlain (.exportVariable p x e hx he h) rfl hts
  | exportNames p x l r e hx hl hr he h =>
    exact stripped_of_isPlain (.exportNames p x l r e hx hl hr he h) rfl hts
  | «variable» e he h => exact stripped_of_isPlain (.variable e he h) rfl hts
  | print p w e hw he h => exact stripped_of_isPlain (.print p w e hw he h) rfl hts
  | console p w l r e hw hl hr he h =>
    exact stripped_of_isPlain (.console p w l r e hw hl hr he h) rfl hts
  | function p f n l r o c hf hn hl hr ho hc hps _ ih =>
    have hparameters := hts.tail.tail.tail.left
    have hinside := hts.tail.tail.tail.right.tail.tail.left
    rw [withoutComments_cons (isComment_of_kind hf rfl),
      withoutComments_cons (isComment_of_kind hn rfl),
      withoutComments_cons (isComment_of_kind hl rfl), withoutComments_append,
      withoutComments_eq_self (hps.silent hparameters.unnamed),
      withoutComments_cons (isComment_of_kind hr rfl),
      withoutComments_cons (isComment_of_kind ho rfl), withoutComments_append,
      withoutComments_eq_self (.cons (isComment_of_kind hc rfl) .nil)]
    exact .function p f n l r o c hf hn hl hr ho hc hps (ih hinside trivial)
  | ret p w e hw he h => exact stripped_of_isPlain (.ret p w e hw he h) rfl hts
  | ifThen p w l r hw hl hr htest _ ih =>
    have hrest := hts.tail.tail
    have hbody := hrest.right
    rw [withoutComments_test (hw ▸ rfl) hl hr htest hrest.left.unnamed]
    exact .ifThen p w l r hw hl hr htest (ih hbody.tail (hbody.follows (by simp [hr])))
  | ifElse p w l r x hw hl hr hx htest _ _ ihyes ihno =>
    have hrest := hts.tail.tail
    have hyes := hrest.right
    have hno := hyes.tail.right
    rw [withoutComments_test (hw ▸ rfl) hl hr htest hrest.left.unnamed, withoutComments_append,
      withoutComments_cons (isComment_of_kind hx rfl)]
    exact .ifElse p w l r x hw hl hr hx htest
      (ihyes hyes.tail.left (hyes.left_cons.follows (by simp [hr])))
      (ihno hno.tail (hno.follows (by simp [hx])))
  | forLoop p w l m e r hw hl hm he hr hinit htest hupdate _ ih =>
    have hafterInit := hts.tail.tail.right.tail
    have hafterTest := hafterInit.right.tail
    have hbody := hafterTest.right
    rw [withoutComments_cons (isComment_of_kind hw rfl),
      withoutComments_cons (isComment_of_kind hl rfl), withoutComments_append,
      withoutComments_eq_self (hinit.silent hts.tail.tail.left.unnamed),
      withoutComments_cons (isComment_of_kind hm rfl), withoutComments_append,
      withoutComments_eq_self (htest.silent hafterInit.left.unnamed),
      withoutComments_cons (isComment_of_kind he rfl), withoutComments_append,
      withoutComments_eq_self (hupdate.silent hafterTest.left.unnamed),
      withoutComments_cons (isComment_of_kind hr rfl)]
    exact .forLoop p w l m e r hw hl hm he hr hinit htest hupdate
      (ih hbody.tail (hbody.follows (by simp [hr])))
  | whileLoop p w l r hw hl hr htest _ ih =>
    have hrest := hts.tail.tail
    have hbody := hrest.right
    rw [withoutComments_test (hw ▸ rfl) hl hr htest hrest.left.unnamed]
    exact .whileLoop p w l r hw hl hr htest (ih hbody.tail (hbody.follows (by simp [hr])))
  | breakLoop p w e hw he => exact stripped_of_isPlain (.breakLoop p w e hw he) rfl hts
  | continueLoop p w e hw he => exact stripped_of_isPlain (.continueLoop p w e hw he) rfl hts
  | expr p e he h => exact stripped_of_isPlain (.expr p e he h) rfl hts
  | nil => exact .nil
  -- Only in a list of statements a comment leaves nothing behind.
  | @cons ajar s ss ts us hs hss ihs ihss =>
    rw [withoutComments_append]
    have hrest := ihss hts.right trivial
    have hfirst := ihs hts.left trivial
    cases hcomment : s.isComment with
    | true =>
      rw [Clause.Stripped, if_pos hcomment] at hfirst
      rw [hfirst, List.nil_append, Clause.Stripped, Stmt.withoutCommentsAll_of_comment hcomment]
      exact hrest
    | false =>
      rw [Clause.Stripped, if_neg (by simp [hcomment])] at hfirst
      rw [Clause.Stripped, Stmt.withoutCommentsAll_cons hcomment]
      exact .cons hfirst hrest
  | braces l r hl hr _ ih =>
    rw [withoutComments_cons (isComment_of_kind hl rfl), withoutComments_append,
      withoutComments_eq_self (.cons (isComment_of_kind hr rfl) .nil)]
    exact .braces l r hl hr (ih hts.tail.left trivial)
  -- A body without braces: it does not begin with a comment, so it is none.
  | @single ajar s t ts ht hs ih =>
    have hfirst : Token.isComment t = false := hfollows t rfl
    have hcomment : s.isComment = false := by
      rw [← Bool.not_eq_true]
      intro hs'
      obtain ⟨t', heq, ht'⟩ := hs.eq_of_comment hs'
      cases heq
      rw [hfirst] at ht'
      cases ht'
    have hstmt := ih hts trivial
    rw [Clause.Stripped, if_neg (by simp [hcomment])] at hstmt
    rw [withoutComments_cons hfirst] at hstmt ⊢
    rw [Clause.Stripped, Stmt.withoutCommentsAll_cons hcomment, Stmt.withoutCommentsAll_nil]
    exact .single ht hstmt

end Advplc.Grammar

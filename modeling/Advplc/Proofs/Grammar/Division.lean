import Advplc.Proofs.Grammar.Comments.Displacement

/-!
# A slash stands before an operand

In a program a slash is an operator between two operands, so what stands directly behind it begins
an expression (`Written.divided`, `WrittenStmt.divided`).  In particular no star does.  For a source
this means that a `/*` always begins a comment: a slash and a star that are read as two marks, since
nothing closes the comment, are not part of any program.

The induction is over the grammar, where a slash stands in one rule only, that for binary operators.
Everywhere else the tokens between two pieces are known by kinds that are not that of a slash, and
each way of putting pieces together has a lemma of its own (`Divided.cons`, `Divided.between`,
`Divided.closed`).

A token with the kind of a slash might be spelled like a name, and then be the name of a property.
The lexer makes no such token, and `Divided` assumes that.
-/

set_option autoImplicit false

namespace Advplc.Grammar

open Script

variable {templates : Text → List Text → List Expr → Prop} {env : Context} {ts us : List Token}
  {t : Token}

/-- Behind every slash an expression begins. -/
def SlashesDivide : List Token → Prop
  | [] => True
  | t :: ts => (t.kind = .mark .slash → nextKind ts ∈ expressionStart) ∧ SlashesDivide ts

/-- What follows a slash at the end of the first piece would be the beginning of the second, but no
piece ends with a slash. -/
theorem SlashesDivide.append (hts : SlashesDivide ts) (hus : SlashesDivide us) :
    SlashesDivide (ts ++ us) := by
  induction ts with
  | nil => exact hus
  | cons t ts ih =>
    refine ⟨fun ht ↦ ?_, ih hts.2⟩
    have hnext := hts.1 ht
    cases ts with
    | nil => exact absurd hnext (by decide)
    | cons u ts => exact hnext

/-- Behind every slash an expression begins, as long as marks are not taken for names. -/
def Divided (ts : List Token) : Prop := MarksSpelled ts → SlashesDivide ts

section Dividing

theorem Divided.nil : Divided [] := fun _ ↦ trivial

/-- Two pieces, one behind the other. -/
theorem Divided.append (hts : Divided ts) (hus : Divided us) : Divided (ts ++ us) := fun h ↦
  (hts (h.of_subset (List.subset_append_left ts us))).append
    (hus (h.of_subset (List.subset_append_right ts us)))

/-- A token that is no slash. -/
theorem Divided.one (ht : t.kind ≠ .mark .slash) : Divided [t] := fun _ ↦
  ⟨fun h ↦ absurd h ht, trivial⟩

theorem Divided.cons (ht : t.kind ≠ .mark .slash) (hts : Divided ts) : Divided (t :: ts) :=
  (one ht).append hts

/-- Two pieces with such a token between them. -/
theorem Divided.between (ht : t.kind ≠ .mark .slash) (hts : Divided ts) (hus : Divided us) :
    Divided (ts ++ t :: us) := hts.append (hus.cons ht)

theorem Divided.closed (ht : t.kind ≠ .mark .slash) (hts : Divided ts) : Divided (ts ++ [t]) :=
  .between ht hts .nil

/-- An operator before the beginning of an operand may be a slash. -/
theorem Divided.operator (hts : Divided ts) (hus : Divided us)
    (hbegin : Begins expressionStart us) : Divided (ts ++ t :: us) := by
  refine hts.append fun h ↦ ⟨fun _ ↦ ?_, hus (h.of_subset (List.subset_cons_self t us))⟩
  obtain ⟨u, vs, rfl, hu⟩ := hbegin
  exact hu

/-- The name of a property is no slash, because a slash is not spelled like a name. -/
theorem Divided.name (ht : Token.NamesProperty t) : Divided [t] := fun h ↦
  ⟨fun hslash ↦ absurd ht (h t List.mem_cons_self _ hslash), trivial⟩

/-- Neither is the key of one. -/
theorem Divided.key {key : Lexeme} (ht : WritesKey t key) : Divided [t] := by
  cases ht with
  | string w ht hw => exact .one (by rw [ht]; decide)
  | number ht => exact .one (by rw [ht]; decide)
  | name ht hkind => exact .name ht

end Dividing

/-! ## Expressions -/

/-- **Behind every slash of an expression an operand begins.** -/
theorem Written.divided (henv : env.Fills templates) {phrase : Phrase}
    (h : Written templates phrase ts) : Divided ts := by
  have hkind : ∀ {t : Token} {k : Kind}, t.kind = k → k ≠ .mark .slash → t.kind ≠ .mark .slash :=
    fun h hk ↦ h ▸ hk
  have hmem : ∀ {t : Token} {ks : List Kind}, t.kind ∈ ks → .mark .slash ∉ ks →
      t.kind ≠ .mark .slash := fun ht hks h ↦ hks (h ▸ ht)
  induction h with
  -- Single tokens, of kinds that are not that of a slash.
  | number p t ht => exact .one (hkind ht (by decide))
  | string p t w ht hw => exact .one (hkind ht (by decide))
  | template p t w chunks holes ht hw hholes => exact .one (hkind ht (by decide))
  | trueWord p t ht hw => exact .one (hkind ht (by decide))
  | falseWord p t ht hw => exact .one (hkind ht (by decide))
  | nullWord p t ht hw => exact .one (hkind ht (by decide))
  | name p t ht hw => exact .one (hkind ht (by decide))
  | thisWord p t ht => exact .one (hkind ht (by decide))
  | calleeName p t ht => exact .one (hkind ht (by decide))
  | shorthand p t ht => exact .one (hkind ht (by decide))
  | noArguments | noElements | noProperties => exact .nil
  -- Between marks.
  | object p l r hl hr _ ih =>
    exact .cons (hkind hl (by decide)) (.closed (hkind hr (by decide)) ih)
  | array p l r hl hr _ ih =>
    exact .cons (hkind hl (by decide)) (.closed (hkind hr (by decide)) ih)
  | parentheses l r hl hr _ ih =>
    exact .cons (hkind hl (by decide)) (.closed (hkind hr (by decide)) ih)
  | new p n l r hn hl hr _ _ ihe ihes =>
    exact .cons (hkind hn (by decide))
      (.between (hkind hl (by decide)) ihe (.closed (hkind hr (by decide)) ihes))
  | newBare p n hn _ ih => exact .cons (hkind hn (by decide)) ih
  -- The name of a property may be of any kind, so its spelling decides.
  | member p q d n hd hn _ ih => exact .between (hkind hd (by decide)) ih (.name hn)
  | calleeMember p q d n hd hn _ ih => exact .between (hkind hd (by decide)) ih (.name hn)
  | index p l r hl hr _ _ ihe ihk =>
    exact .between (hkind hl (by decide)) ihe (.closed (hkind hr (by decide)) ihk)
  | call p l r hl hr _ _ ihe ihes =>
    exact .between (hkind hl (by decide)) ihe (.closed (hkind hr (by decide)) ihes)
  | updateAfter p op hop _ ih => exact .closed (hmem hop (by decide)) ih
  | updateBefore p op hop _ ih => exact .cons (hmem hop (by decide)) ih
  | unary p op hop _ ih => exact .cons (hmem hop (by decide)) ih
  -- The one rule with a slash in it.
  | binary p op hsuffix hop hl hr ihl ihr => exact .operator ihl ihr (hr.taken henv).1
  | conditional p q c hq hc _ _ _ iht ihy ihn =>
    exact .between (hkind hq (by decide)) iht (.between (hkind hc (by decide)) ihy ihn)
  | assign p op hop htarget _ _ ihl ihv => exact .between (hmem hop (by decide)) ihl ihv
  | moreItems c hc _ _ ih ihs => exact .between (hkind hc (by decide)) ih ihs
  | moreElements c hc _ _ ih ihs => exact .between (hkind hc (by decide)) ih ihs
  | moreProperties c hc _ _ ih ihs => exact .between (hkind hc (by decide)) ih ihs
  | keyed k c hc hk _ ih => exact (Divided.key hk).between (hkind hc (by decide)) ih
  -- A looser slot has the same tokens.
  | toAssignment _ ih | toConditional _ ih | toBinary _ _ ih | toUnary _ ih | toSuffixed _ ih
  | toIndexed _ ih | toChained _ ih | someArguments _ ih | lastItem _ ih | lastElement _ ih
  | lastProperty _ ih => exact ih

/-! ## Statements -/

section Lists

variable {α : Type} {item : α → List Token → Prop} {as : List α}

/-- Items with commas between them. -/
theorem WrittenSeparated.divided (hitem : ∀ a ts, item a ts → Divided ts)
    (h : WrittenSeparated item as ts) : Divided ts := by
  induction h with
  | last ha => exact hitem _ _ ha
  | more c hc ha _ ih => exact .between (by rw [hc]; decide) (hitem _ _ ha) ih

theorem WrittenListed.divided (hitem : ∀ a ts, item a ts → Divided ts)
    (h : WrittenListed item as ts) : Divided ts := by
  induction h with
  | nil => exact .nil
  | last ha => exact hitem _ _ ha
  | more c hc ha _ ih => exact .between (by rw [hc]; decide) (hitem _ _ ha) ih

end Lists

/-- Tokens none of which is a slash. -/
theorem divided_of_forall (h : ∀ t ∈ ts, t.kind ≠ .mark .slash) : Divided ts := by
  induction ts with
  | nil => exact .nil
  | cons t ts ih =>
    exact .cons (h t List.mem_cons_self) (ih fun u hu ↦ h u (List.mem_cons_of_mem t hu))

theorem WrittenRenamed.divided {x : Lexeme × Option Lexeme} (h : WrittenRenamed x ts) :
    Divided ts := by
  cases h with
  | plain n hn => exact divided_of_forall (by simp [hn])
  | another n a m hn ha has hm => exact divided_of_forall (by simp [hn, ha, hm])

theorem WrittenFurther.divided {xs : List Specifier} (h : WrittenFurther xs ts) : Divided ts := by
  cases h with
  | named l r hl hr h =>
    have hnames := h.divided fun _ _ hx ↦ by cases hx with | named hx => exact hx.divided
    exact .cons (by rw [hl]; decide) (.closed (by rw [hr]; decide) hnames)
  | module s a n hs ha has hn => exact divided_of_forall (by simp [hs, ha, hn])

/-- In what is imported there is no slash at all. -/
theorem WrittenImport.divided {xs : List Specifier} (h : WrittenImport xs ts) : Divided ts := by
  cases h with
  | nothing => exact .nil
  | further f hf h => exact .closed (by rw [hf]; decide) h.divided
  | default n f hn hf => exact divided_of_forall (by simp [hn, hf])
  | both n c f hn hc hf h =>
    exact .cons (by rw [hn]; decide)
      (.cons (by rw [hc]; decide) (.closed (by rw [hf]; decide) h.divided))

theorem WrittenParameters.divided {ps : List Lexeme} (h : WrittenParameters ps ts) :
    Divided ts := by
  cases h with
  | empty => exact .nil
  | nonempty h =>
    exact h.divided fun _ _ hx ↦ by cases hx with | name t ht => exact .one (by rw [ht]; decide)

theorem WrittenOption.divided (henv : env.Fills templates) {v : Option Expr}
    (h : WrittenOption templates v ts) : Divided ts := by
  cases h with
  | absent => exact .nil
  | present h => exact h.divided henv

/-- The declaration of a variable. -/
theorem WrittenVariable.divided (henv : env.Fills templates) {v : Variable}
    (h : WrittenVariable templates v ts) : Divided ts := by
  cases h with
  | declared p w n hw hn h =>
    have hword : w.kind ≠ .mark .slash := fun hslash ↦ absurd (hslash ▸ hw) (by decide)
    refine .cons hword (.cons (by rw [hn]; decide) ?_)
    cases h with
    | absent => exact .nil
    | present a ha h => exact .cons (by rw [ha]; decide) (h.divided henv)

theorem WrittenInit.divided (henv : env.Fills templates) {i : ForInit}
    (h : WrittenInit templates i ts) : Divided ts := by
  cases h with
  | nothing => exact .nil
  | «variable» h => exact h.divided henv
  | expr h => exact h.divided henv

/-- **Behind every slash of a program an operand begins.** -/
theorem WrittenStmt.divided (henv : env.Fills templates) {clause : Clause}
    (h : WrittenStmt templates clause ts) : Divided ts := by
  have hmark : ∀ {t : Token} {m : Mark}, t.kind = .mark m → m ≠ .slash → t.kind ≠ .mark .slash :=
    fun h hm ↦ h ▸ fun hslash ↦ hm (Kind.mark.inj hslash)
  have hword : ∀ {t : Token} {w : Keyword}, t.kind = .keyword w → t.kind ≠ .mark .slash :=
    fun h ↦ h ▸ nofun
  have hsemicolon : ∀ {t : Token}, t.kind = .mark .semicolon → t.kind ≠ .mark .slash :=
    fun h ↦ hmark h (by decide)
  have hopen : ∀ {t : Token}, t.kind = .mark .openParen → t.kind ≠ .mark .slash :=
    fun h ↦ hmark h (by decide)
  have hclose : ∀ {t : Token}, t.kind = .mark .closeParen → t.kind ≠ .mark .slash :=
    fun h ↦ hmark h (by decide)
  have hbrace : ∀ {t : Token}, t.kind = .mark .openBrace → t.kind ≠ .mark .slash :=
    fun h ↦ hmark h (by decide)
  have hunbrace : ∀ {t : Token}, t.kind = .mark .closeBrace → t.kind ≠ .mark .slash :=
    fun h ↦ hmark h (by decide)
  -- The marks and words of statements are no slashes, so everything comes from the expressions in
  -- them.
  induction h with
  | lineComment p t w ht hw => exact .one (by rw [ht]; decide)
  | blockComment p t w ht hw => exact .one (by rw [ht]; decide)
  | importFrom p i m e w hi hm hw he h =>
    exact .cons (hword hi) (.between (by rw [hm]; decide) h.divided (.one (hsemicolon he)))
  | exportDefaultFunction p q x d hx hd _ ih => exact .cons (hword hx) (.cons (hword hd) ih)
  | exportDefault p x d e hx hd he h =>
    exact .cons (hword hx) (.cons (hword hd) (.closed (hsemicolon he) (h.divided henv)))
  | exportFunction p q x hx _ ih => exact .cons (hword hx) ih
  | exportVariable p x e hx he h =>
    exact .cons (hword hx) (.closed (hsemicolon he) (h.divided henv))
  | exportNames p x l r e hx hl hr he h =>
    have hnames := h.divided fun _ _ hx ↦ by
      cases hx with
      | plain hx => exact hx.divided
      | another hx => exact hx.divided
    exact .cons (hword hx)
      (.cons (hbrace hl) (.between (hunbrace hr) hnames (.one (hsemicolon he))))
  | «variable» e he h => exact .closed (hsemicolon he) (h.divided henv)
  | print p w e hw he h => exact .cons (hword hw) (.closed (hsemicolon he) (h.divided henv))
  | console p w l r e hw hl hr he h =>
    exact .cons (by rw [hw]; decide) (.cons (hopen hl) (.between (hclose hr) (h.divided henv)
      (.one (hsemicolon he))))
  | function p f n l r o c hf hn hl hr ho hc hps _ ih =>
    exact .cons (hword hf) (.cons (by rw [hn]; decide) (.cons (hopen hl) (.between (hclose hr)
      hps.divided (.cons (hbrace ho) (.closed (hunbrace hc) ih)))))
  | ret p w e hw he h => exact .cons (hword hw) (.closed (hsemicolon he) (h.divided henv))
  | ifThen p w l r hw hl hr htest _ ih =>
    exact .cons (hword hw) (.cons (hopen hl) (.between (hclose hr) (htest.divided henv) ih))
  | ifElse p w l r x hw hl hr hx htest _ _ ihyes ihno =>
    exact .cons (hword hw) (.cons (hopen hl) (.between (hclose hr) (htest.divided henv)
      (.between (hword hx) ihyes ihno)))
  | forLoop p w l m e r hw hl hm he hr hinit htest hupdate _ ih =>
    exact .cons (hword hw) (.cons (hopen hl) (.between (hsemicolon hm) (hinit.divided henv)
      (.between (hsemicolon he) (htest.divided henv)
        (.between (hclose hr) (hupdate.divided henv) ih))))
  | whileLoop p w l r hw hl hr htest _ ih =>
    exact .cons (hword hw) (.cons (hopen hl) (.between (hclose hr) (htest.divided henv) ih))
  | breakLoop p w e hw he => exact .cons (hword hw) (.one (hsemicolon he))
  | continueLoop p w e hw he => exact .cons (hword hw) (.one (hsemicolon he))
  | expr p e he h => exact .closed (hsemicolon he) (h.divided henv)
  | nil => exact .nil
  | cons _ _ ihs ihss => exact ihs.append ihss
  | braces l r hl hr _ ih => exact .cons (hbrace hl) (.closed (hunbrace hr) ih)
  | single _ _ ih => exact ih

end Advplc.Grammar

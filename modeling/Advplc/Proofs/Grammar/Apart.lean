import Advplc.Proofs.Grammar.Forms

/-!
# No identifier stands before a numeral

The lexer may read an identifier and a numeral side by side, as in `if٣`, and there the first is an
identifier only because of the second: alone it would be a reserved word.  In a program that cannot
happen.  Wherever two parts of a program meet there is a mark or a reserved word between them, or
the end of a statement.  `Written.apart` shows it for expressions, and `WrittenStmt.concluded` for
statements.

The induction is over the grammar.  A rule puts its pieces together in one of three ways, with a
dividing token in front of them, between two of them, or behind them, and there is one lemma for
each (`TokensApart.cons`, `TokensApart.divided`, `TokensApart.closed`).

For statements this is not enough, because one statement follows another with nothing between them.
So their last tokens are followed as well.  A statement ends with a mark or a comment, and never
with an identifier (`Concluded`).
-/

set_option autoImplicit false

namespace Advplc.Grammar

open Script

variable {templates : Text → List Text → List Expr → Prop} {ts : List Token}

/-- No identifier stands directly before a numeral. -/
def TokensApart (ts : List Token) : Prop := ts.IsChain fun t u ↦ Apart t.form u.form

/-- Whether a token of this kind is neither an identifier nor a numeral. -/
def divides : Kind → Bool
  | .identifier | .number => false
  | _ => true

/-! ## Expressions -/

section Dividing

variable {us : List Token} {t : Token}

theorem not_identifier_of_divides {k : Kind} (h : divides k = true) : k ≠ .identifier := by
  rintro rfl
  cases h

theorem not_number_of_divides {k : Kind} (h : divides k = true) : k ≠ .number := by
  rintro rfl
  cases h

/-- A token that divides may stand in front of anything. -/
theorem TokensApart.cons (ht : divides t.kind = true) (hts : TokensApart ts) :
    TokensApart (t :: ts) :=
  List.IsChain.cons hts fun _ _ h ↦ absurd h (not_identifier_of_divides ht)

/-- With a token that divides between them, two pieces do not touch. -/
theorem TokensApart.divided (ht : divides t.kind = true) (hts : TokensApart ts)
    (hus : TokensApart us) : TokensApart (ts ++ t :: us) := by
  refine List.IsChain.append hts (hus.cons ht) fun _ _ u hu _ ↦ ?_
  cases hu
  exact not_number_of_divides ht

/-- A token that divides may stand behind anything. -/
theorem TokensApart.closed (ht : divides t.kind = true) (hts : TokensApart ts) :
    TokensApart (ts ++ [t]) := .divided ht hts List.IsChain.nil

end Dividing

/-- The operators of a level are known by their kinds only, and each of them divides. -/
theorem divides_of_mem {ks : List Kind} (hks : ∀ k ∈ ks, divides k = true) {t : Token}
    (ht : t.kind ∈ ks) : divides t.kind = true := hks t.kind ht

/-- **In an expression no identifier stands before a numeral.**  The name of a property is the only
identifier that is the last token of a rule, and a point stands before it. -/
theorem Written.apart {phrase : Phrase} (h : Written templates phrase ts) : TokensApart ts := by
  have hmark : ∀ {t : Token} {m : Mark}, t.kind = .mark m → divides t.kind = true :=
    fun h ↦ h ▸ rfl
  have hlevels : ∀ ops ∈ binaryLevels, ∀ k ∈ ops, divides k = true := by decide
  induction h with
  -- A single token has no neighbours.
  | number | string | template | trueWord | falseWord | nullWord | name | thisWord | calleeName
  | shorthand => exact .singleton _
  | noArguments | noElements | noProperties => exact .nil
  -- Between marks.
  | object p l r hl hr _ ih => exact .cons (hmark hl) (.closed (hmark hr) ih)
  | array p l r hl hr _ ih => exact .cons (hmark hl) (.closed (hmark hr) ih)
  | parentheses l r hl hr _ ih => exact .cons (hmark hl) (.closed (hmark hr) ih)
  | new p n l r hn hl hr _ _ ihe ihes =>
    exact .cons (hn ▸ rfl) (.divided (hmark hl) ihe (.closed (hmark hr) ihes))
  -- The word `new` and the operators in front divide, and so do points.
  | newBare p n hn _ ih => exact .cons (hn ▸ rfl) ih
  | member p q d n hd hn _ ih => exact .divided (hmark hd) ih (.singleton n)
  | calleeMember p q d n hd hn _ ih => exact .divided (hmark hd) ih (.singleton n)
  | index p l r hl hr _ _ ihe ihk => exact .divided (hmark hl) ihe (.closed (hmark hr) ihk)
  | call p l r hl hr _ _ ihe ihes => exact .divided (hmark hl) ihe (.closed (hmark hr) ihes)
  | updateAfter p op hop _ ih => exact .closed (divides_of_mem (by decide) hop) ih
  | updateBefore p op hop _ ih => exact .cons (divides_of_mem (by decide) hop) ih
  | unary p op hop _ ih => exact .cons (divides_of_mem (by decide) hop) ih
  -- The levels of operators are a suffix of a fixed list, so the operator is one of those in it.
  | binary p op hsuffix hop _ _ ihl ihr =>
    have hmem := hsuffix.subset List.mem_cons_self
    exact .divided (divides_of_mem (hlevels _ hmem) hop) ihl ihr
  | conditional p q c hq hc _ _ _ iht ihy ihn =>
    exact .divided (hmark hq) iht (.divided (hmark hc) ihy ihn)
  | assign p op hop htarget _ _ ihl ihv => exact .divided (divides_of_mem (by decide) hop) ihl ihv
  | moreItems c hc _ _ ih ihs => exact .divided (hmark hc) ih ihs
  | moreElements c hc _ _ ih ihs => exact .divided (hmark hc) ih ihs
  | moreProperties c hc _ _ ih ihs => exact .divided (hmark hc) ih ihs
  | keyed k c hc hk _ ih => exact .divided (hmark hc) (.singleton k) ih
  -- A looser slot has the same tokens.
  | toAssignment _ ih | toConditional _ ih | toBinary _ _ ih | toUnary _ ih | toSuffixed _ ih
  | toIndexed _ ih | toChained _ ih | someArguments _ ih | lastItem _ ih | lastElement _ ih
  | lastProperty _ ih => exact ih

/-! ## Statements -/

section Lists

variable {α : Type} {item : α → List Token → Prop} {as : List α}

/-- Items are divided by the commas between them. -/
theorem WrittenSeparated.apart (hitem : ∀ a ts, item a ts → TokensApart ts)
    (h : WrittenSeparated item as ts) : TokensApart ts := by
  induction h with
  | last ha => exact hitem _ _ ha
  | more c hc ha _ ih => exact .divided (hc ▸ rfl) (hitem _ _ ha) ih

theorem WrittenListed.apart (hitem : ∀ a ts, item a ts → TokensApart ts)
    (h : WrittenListed item as ts) : TokensApart ts := by
  induction h with
  | nil => exact .nil
  | last ha => exact hitem _ _ ha
  | more c hc ha _ ih => exact .divided (hc ▸ rfl) (hitem _ _ ha) ih

end Lists

/-- What stands around the word `as` are identifiers, and none of the three tokens is a numeral. -/
theorem WrittenRenamed.apart {x : Lexeme × Option Lexeme} (h : WrittenRenamed x ts) :
    TokensApart ts := by
  cases h with
  | plain n hn => exact .singleton n
  | another n a m hn ha has hm => simp [TokensApart, Apart, Token.form, ha, hm]

/-- What is imported besides the default holds no numeral. -/
theorem WrittenFurther.apart {xs : List Specifier} (h : WrittenFurther xs ts) : TokensApart ts := by
  cases h with
  | named l r hl hr h =>
    have hnames := h.apart fun _ _ hx ↦ by cases hx with | named hx => exact hx.apart
    exact .cons (hl ▸ rfl) (.closed (hr ▸ rfl) hnames)
  | module s a n hs ha has hn => simp [TokensApart, Apart, Token.form, ha, hn]

theorem WrittenImport.apart {xs : List Specifier} (h : WrittenImport xs ts) : TokensApart ts := by
  cases h with
  | nothing => exact .nil
  | further f hf h => exact .closed (hf ▸ rfl) h.apart
  | default n f hn hf => exact .divided (hf ▸ rfl) (.singleton n) .nil
  | both n c f hn hc hf h =>
    exact .divided (hc ▸ rfl) (.singleton n) (.closed (hf ▸ rfl) h.apart)

theorem WrittenParameters.apart {ps : List Lexeme} (h : WrittenParameters ps ts) :
    TokensApart ts := by
  cases h with
  | empty => exact .nil
  | nonempty h => exact h.apart fun _ _ hx ↦ by cases hx with | name t ht => exact .singleton t

theorem WrittenOption.apart {v : Option Expr} (h : WrittenOption templates v ts) :
    TokensApart ts := by
  cases h with
  | absent => exact .nil
  | present h => exact h.apart

/-- Behind the name of a variable comes the sign of assignment, or nothing. -/
theorem WrittenVariable.apart {v : Variable} (h : WrittenVariable templates v ts) :
    TokensApart ts := by
  cases h with
  | declared p w n hw hn h =>
    refine .cons (divides_of_mem (by decide) hw) ?_
    cases h with
    | absent => exact .singleton n
    | present a ha h => exact .divided (ha ▸ rfl) (.singleton n) h.apart

theorem WrittenInit.apart {i : ForInit} (h : WrittenInit templates i ts) : TokensApart ts := by
  cases h with
  | nothing => exact .nil
  | «variable» h => exact h.apart
  | expr h => exact h.apart

/-- No identifier stands directly before a numeral, nor at the end, so that one could follow. -/
def Concluded (ts : List Token) : Prop := TokensApart ts ∧ ∀ t ∈ ts.getLast?, t.kind ≠ .identifier

section Concluding

variable {us : List Token} {t : Token}

theorem Concluded.nil : Concluded [] := ⟨.nil, by simp⟩

/-- Where the first piece does not end with an identifier, another may follow directly. -/
theorem Concluded.append (hts : Concluded ts) (hus : Concluded us) : Concluded (ts ++ us) := by
  refine ⟨List.IsChain.append hts.1 hus.1 fun t ht u _ h ↦ absurd h (hts.2 t ht), fun t ht ↦ ?_⟩
  -- The last token is that of the second piece, unless there is none.
  rw [List.getLast?_append] at ht
  cases hlast : us.getLast? with
  | none => exact hts.2 t (by simpa [hlast] using ht)
  | some u => exact hus.2 t (by simpa [hlast] using ht)

/-- A token that divides may begin a statement. -/
theorem Concluded.cons (ht : divides t.kind = true) (hus : Concluded us) : Concluded (t :: us) := by
  have hone : Concluded [t] := ⟨.singleton t, by simpa using not_identifier_of_divides ht⟩
  exact hone.append hus

/-- What stands before a token that divides may end with an identifier. -/
theorem Concluded.divided (ht : divides t.kind = true) (hts : TokensApart ts)
    (hus : Concluded us) : Concluded (ts ++ t :: us) := by
  refine ⟨.divided ht hts hus.1, fun u hu ↦ ?_⟩
  have hlast : (ts ++ t :: us).getLast? = (t :: us).getLast? := by
    simp [List.getLast?_append, List.getLast?_cons]
  exact (hus.cons ht).2 u (hlast ▸ hu)

/-- A token that divides concludes what stands before it. -/
theorem Concluded.closed (ht : divides t.kind = true) (hts : TokensApart ts) :
    Concluded (ts ++ [t]) := .divided ht hts .nil

end Concluding

/-- **In a program no identifier stands before a numeral**, and no statement ends with an
identifier. -/
theorem WrittenStmt.concluded {clause : Clause} (h : WrittenStmt templates clause ts) :
    Concluded ts := by
  have hmark : ∀ {t : Token} {m : Mark}, t.kind = .mark m → divides t.kind = true :=
    fun h ↦ h ▸ rfl
  have hkeyword : ∀ {t : Token} {w : Keyword}, t.kind = .keyword w → divides t.kind = true :=
    fun h ↦ h ▸ rfl
  induction h with
  -- A comment divides, although it is not a mark.
  | lineComment p t w ht hw => exact .cons (ht ▸ rfl) .nil
  | blockComment p t w ht hw => exact .cons (ht ▸ rfl) .nil
  -- Statements that end with a semicolon.
  | importFrom p i m e w hi hm hw he h =>
    exact .cons (hkeyword hi) (.divided (hm ▸ rfl) h.apart (.cons (hmark he) .nil))
  | exportDefaultFunction p q x d hx hd _ ih =>
    exact .cons (hkeyword hx) (.cons (hkeyword hd) ih)
  | exportDefault p x d e hx hd he h =>
    exact .cons (hkeyword hx) (.cons (hkeyword hd) (.closed (hmark he) h.apart))
  | exportFunction p q x hx _ ih => exact .cons (hkeyword hx) ih
  | exportVariable p x e hx he h => exact .cons (hkeyword hx) (.closed (hmark he) h.apart)
  | exportNames p x l r e hx hl hr he h =>
    have hnames := h.apart fun _ _ hx ↦ by
      cases hx with
      | plain hx => exact hx.apart
      | another hx => exact hx.apart
    exact .cons (hkeyword hx)
      (.cons (hmark hl) (.divided (hmark hr) hnames (.cons (hmark he) .nil)))
  | «variable» e he h => exact .closed (hmark he) h.apart
  | print p w e hw he h => exact .cons (hkeyword hw) (.closed (hmark he) h.apart)
  | console p w l r e hw hl hr he h =>
    exact .cons (hw ▸ rfl) (.cons (hmark hl) (.divided (hmark hr) h.apart (.cons (hmark he) .nil)))
  -- A function ends with its brace, so its body need not be followed to the end.
  | function p f n l r o c hf hn hl hr ho hc hps _ ih =>
    have hname : TokensApart [n] := .singleton n
    exact .cons (hkeyword hf) (.divided (hmark hl) hname
      (.divided (hmark hr) hps.apart (.cons (hmark ho) (.closed (hmark hc) ih.1))))
  | ret p w e hw he h => exact .cons (hkeyword hw) (.closed (hmark he) h.apart)
  -- Branches and loops end as their bodies do.
  | ifThen p w l r hw hl hr htest _ ih =>
    exact .cons (hkeyword hw) (.cons (hmark hl) (.divided (hmark hr) htest.apart ih))
  | ifElse p w l r x hw hl hr hx htest _ _ ihyes ihno =>
    exact .cons (hkeyword hw) (.cons (hmark hl) (.divided (hmark hr) htest.apart
      (.divided (hkeyword hx) ihyes.1 ihno)))
  | forLoop p w l m e r hw hl hm he hr hinit htest hupdate _ ih =>
    exact .cons (hkeyword hw) (.cons (hmark hl) (.divided (hmark hm) hinit.apart
      (.divided (hmark he) htest.apart (.divided (hmark hr) hupdate.apart ih))))
  | whileLoop p w l r hw hl hr htest _ ih =>
    exact .cons (hkeyword hw) (.cons (hmark hl) (.divided (hmark hr) htest.apart ih))
  | breakLoop p w e hw he => exact .cons (hkeyword hw) (.cons (hmark he) .nil)
  | continueLoop p w e hw he => exact .cons (hkeyword hw) (.cons (hmark he) .nil)
  | expr p e he h => exact .closed (hmark he) h.apart
  | nil => exact .nil
  -- Here two statements meet with nothing between them.
  | cons _ _ ihs ihss => exact ihs.append ihss
  | braces l r hl hr _ ih => exact .cons (hmark hl) (.closed (hmark hr) ih.1)
  | single _ _ ih => exact ih

end Advplc.Grammar

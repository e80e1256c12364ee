import Advplc.Proofs.Grammar.Written
import Advplc.Proofs.Token.Layout

/-!
# Only the forms of tokens are read

What tokens write is a matter of their kinds and lexemes: tokens of the same forms write the same
trees, wherever they stand (`Written.recast`, `WrittenStmt.recast`).  The trees have positions of
their own, but these do not have to be changed: how a tree is written says nothing about where its
nodes stand.  So a source that is laid out anew keeps its trees.

The induction is over the rules of the grammar.  A rule says of which pieces the tokens of a phrase
consist, and tokens of the same forms fall into the same pieces (`recast_cons`, `recast_append`).
Every case takes the given tokens apart in this way and puts them together again by the same rule.
What the rule asks of a single token, it asks of its kind or of its lexeme, and both are those of
the other token (`kind_of_form`, `lexeme_of_form`).
-/

set_option autoImplicit false

namespace Advplc.Grammar

open Script

variable {templates : Text → List Text → List Expr → Prop} {ts : List Token}

/-! ## Tokens of the same forms -/

/-- The tokens have the same forms, so that they differ in their positions only. -/
def Recast (us ts : List Token) : Prop := us.map Token.form = ts.map Token.form

section Recast

variable {us : List Token}

theorem recast_nil : Recast us [] ↔ us = [] := by simp [Recast]

/-- A token and others are recast by one of the same form and others of the same forms. -/
theorem recast_cons {t : Token} : Recast us (t :: ts) ↔
    ∃ u vs, us = u :: vs ∧ u.form = t.form ∧ Recast vs ts := by
  simp [Recast, List.map_eq_cons_iff]

/-- A single token is recast by a single token. -/
theorem recast_singleton {t : Token} : Recast us [t] ↔ ∃ u, us = [u] ∧ u.form = t.form := by
  simp [Recast, List.map_eq_singleton_iff]

/-- What recasts two pieces falls into two pieces that recast them. -/
theorem recast_append {ts' : List Token} : Recast us (ts ++ ts') ↔
    ∃ vs ws, us = vs ++ ws ∧ Recast vs ts ∧ Recast ws ts' := by
  simp [Recast, List.map_eq_append_iff]

end Recast

section Forms

variable {t u : Token}

theorem kind_of_form (h : u.form = t.form) : u.kind = t.kind := congrArg Prod.fst h

theorem lexeme_of_form (h : u.form = t.form) : u.lexeme = t.lexeme := congrArg Prod.snd h

/-- Whether a token can be the name of a property is seen from its form. -/
theorem Token.NamesProperty.recast (ht : Token.NamesProperty t) (h : u.form = t.form) :
    Token.NamesProperty u := by
  rw [Token.NamesProperty, kind_of_form h, lexeme_of_form h]
  exact ht

/-- A token of the same form writes the same key. -/
theorem WritesKey.recast {key : Lexeme} (ht : WritesKey t key) (h : u.form = t.form) :
    WritesKey u key := by
  have hkind := kind_of_form h
  have hlexeme := lexeme_of_form h
  cases ht with
  | string w ht hw => exact .string w (hkind.trans ht) (hlexeme.trans hw)
  | number ht => exact hlexeme ▸ .number (hkind.trans ht)
  | name hname ht => exact hlexeme ▸ .name (hname.recast h) (hkind ▸ ht)

end Forms

/-! ## Tokens of the same forms write the same trees -/

/-- **Tokens of the same forms write the same expressions.** -/
theorem Written.recast {phrase : Phrase} (h : Written templates phrase ts) {us : List Token}
    (hus : Recast us ts) : Written templates phrase us := by
  induction h generalizing us with
  -- Literals and names are a single token.  Where its lexeme goes into the tree, the tree is
  -- written with the lexeme of the other token first, which is the same.
  | number p t ht =>
    obtain ⟨u, rfl, hu⟩ := recast_singleton.mp hus
    rw [← lexeme_of_form hu]
    exact .number p u ((kind_of_form hu).trans ht)
  | string p t w ht hw =>
    obtain ⟨u, rfl, hu⟩ := recast_singleton.mp hus
    exact .string p u w ((kind_of_form hu).trans ht) ((lexeme_of_form hu).trans hw)
  | template p t w chunks holes ht hw hholes =>
    obtain ⟨u, rfl, hu⟩ := recast_singleton.mp hus
    exact .template p u w chunks holes ((kind_of_form hu).trans ht) ((lexeme_of_form hu).trans hw)
      hholes
  | trueWord p t ht hw =>
    obtain ⟨u, rfl, hu⟩ := recast_singleton.mp hus
    exact .trueWord p u ((kind_of_form hu).trans ht) ((lexeme_of_form hu).trans hw)
  | falseWord p t ht hw =>
    obtain ⟨u, rfl, hu⟩ := recast_singleton.mp hus
    exact .falseWord p u ((kind_of_form hu).trans ht) ((lexeme_of_form hu).trans hw)
  | nullWord p t ht hw =>
    obtain ⟨u, rfl, hu⟩ := recast_singleton.mp hus
    exact .nullWord p u ((kind_of_form hu).trans ht) (lexeme_of_form hu ▸ hw)
  | name p t ht hw =>
    obtain ⟨u, rfl, hu⟩ := recast_singleton.mp hus
    rw [← lexeme_of_form hu] at hw ⊢
    exact .name p u ((kind_of_form hu).trans ht) hw
  | thisWord p t ht =>
    obtain ⟨u, rfl, hu⟩ := recast_singleton.mp hus
    exact .thisWord p u ((kind_of_form hu).trans ht)
  -- What stands between two marks is recast by the hypothesis, and the marks are recast one by one.
  | object p l r hl hr _ ih =>
    simp only [recast_cons, recast_append, recast_nil] at hus
    obtain ⟨l', _, rfl, hl', vs, _, rfl, hvs, r', _, rfl, hr', rfl⟩ := hus
    exact .object p l' r' ((kind_of_form hl').trans hl) ((kind_of_form hr').trans hr) (ih hvs)
  | array p l r hl hr _ ih =>
    simp only [recast_cons, recast_append, recast_nil] at hus
    obtain ⟨l', _, rfl, hl', vs, _, rfl, hvs, r', _, rfl, hr', rfl⟩ := hus
    exact .array p l' r' ((kind_of_form hl').trans hl) ((kind_of_form hr').trans hr) (ih hvs)
  | new p n l r hn hl hr _ _ ihe ihes =>
    simp only [recast_cons, recast_append, recast_nil] at hus
    obtain ⟨n', _, rfl, hn', vs, _, rfl, hvs, l', _, rfl, hl', ws, _, rfl, hws, r', _, rfl, hr',
      rfl⟩ := hus
    exact .new p n' l' r' ((kind_of_form hn').trans hn) ((kind_of_form hl').trans hl)
      ((kind_of_form hr').trans hr) (ihe hvs) (ihes hws)
  | parentheses l r hl hr _ ih =>
    simp only [recast_cons, recast_append, recast_nil] at hus
    obtain ⟨l', _, rfl, hl', vs, _, rfl, hvs, r', _, rfl, hr', rfl⟩ := hus
    exact .parentheses l' r' ((kind_of_form hl').trans hl) ((kind_of_form hr').trans hr) (ih hvs)
  | newBare p n hn _ ih =>
    simp only [recast_cons] at hus
    obtain ⟨n', vs, rfl, hn', hvs⟩ := hus
    exact .newBare p n' ((kind_of_form hn').trans hn) (ih hvs)
  -- Behind an expression.  The tokens before a point or a bracket are those of the expression, so
  -- the list is split from the left.
  | member p q d n hd hn _ ih =>
    simp only [recast_append, recast_cons, recast_nil] at hus
    obtain ⟨vs, _, rfl, hvs, d', _, rfl, hd', n', _, rfl, hn', rfl⟩ := hus
    rw [← lexeme_of_form hn']
    exact .member p q d' n' ((kind_of_form hd').trans hd) (hn.recast hn') (ih hvs)
  | index p l r hl hr _ _ ihe ihk =>
    simp only [recast_append, recast_cons, recast_nil] at hus
    obtain ⟨vs, _, rfl, hvs, l', _, rfl, hl', ws, _, rfl, hws, r', _, rfl, hr', rfl⟩ := hus
    exact .index p l' r' ((kind_of_form hl').trans hl) ((kind_of_form hr').trans hr) (ihe hvs)
      (ihk hws)
  | call p l r hl hr _ _ ihe ihes =>
    simp only [recast_append, recast_cons, recast_nil] at hus
    obtain ⟨vs, _, rfl, hvs, l', _, rfl, hl', ws, _, rfl, hws, r', _, rfl, hr', rfl⟩ := hus
    exact .call p l' r' ((kind_of_form hl').trans hl) ((kind_of_form hr').trans hr) (ihe hvs)
      (ihes hws)
  | updateAfter p op hop _ ih =>
    simp only [recast_append, recast_cons, recast_nil] at hus
    obtain ⟨vs, _, rfl, hvs, op', _, rfl, hop', rfl⟩ := hus
    rw [← lexeme_of_form hop']
    exact .updateAfter p op' (kind_of_form hop' ▸ hop) (ih hvs)
  -- Operators, whose lexemes the tree keeps.
  | updateBefore p op hop _ ih =>
    simp only [recast_cons] at hus
    obtain ⟨op', vs, rfl, hop', hvs⟩ := hus
    rw [← lexeme_of_form hop']
    exact .updateBefore p op' (kind_of_form hop' ▸ hop) (ih hvs)
  | unary p op hop _ ih =>
    simp only [recast_cons] at hus
    obtain ⟨op', vs, rfl, hop', hvs⟩ := hus
    rw [← lexeme_of_form hop']
    exact .unary p op' (kind_of_form hop' ▸ hop) (ih hvs)
  | binary p op hlevels hop _ _ ihl ihr =>
    simp only [recast_append, recast_cons] at hus
    obtain ⟨vs, _, rfl, hvs, op', ws, rfl, hop', hws⟩ := hus
    rw [← lexeme_of_form hop']
    exact .binary p op' hlevels (kind_of_form hop' ▸ hop) (ihl hvs) (ihr hws)
  -- Three operands, and so two marks between them.
  | conditional p q c hq hc _ _ _ iht ihy ihn =>
    simp only [recast_append, recast_cons] at hus
    obtain ⟨ws, _, rfl, hws, q', _, rfl, hq', xs, _, rfl, hxs, c', ys, rfl, hc', hys⟩ := hus
    exact .conditional p q' c' ((kind_of_form hq').trans hq) ((kind_of_form hc').trans hc) (iht hws)
      (ihy hxs) (ihn hys)
  -- That something can be assigned to the first operand is a matter of the tree alone.
  | assign p op hop htarget _ _ ihl ihv =>
    simp only [recast_append, recast_cons] at hus
    obtain ⟨vs, _, rfl, hvs, op', ws, rfl, hop', hws⟩ := hus
    rw [← lexeme_of_form hop']
    exact .assign p op' (kind_of_form hop' ▸ hop) htarget (ihl hvs) (ihv hws)
  -- A slot that takes what the next tighter one takes has the same tokens.
  | toAssignment _ ih => exact .toAssignment (ih hus)
  | toConditional _ ih => exact .toConditional (ih hus)
  | toBinary hlevels _ ih => exact .toBinary hlevels (ih hus)
  | toUnary _ ih => exact .toUnary (ih hus)
  | toSuffixed _ ih => exact .toSuffixed (ih hus)
  | toIndexed _ ih => exact .toIndexed (ih hus)
  | toChained _ ih => exact .toChained (ih hus)
  -- The parts of expressions: callees, lists with commas between their items, and properties.
  | calleeName p t ht =>
    obtain ⟨u, rfl, hu⟩ := recast_singleton.mp hus
    rw [← lexeme_of_form hu]
    exact .calleeName p u ((kind_of_form hu).trans ht)
  | calleeMember p q d n hd hn _ ih =>
    simp only [recast_append, recast_cons, recast_nil] at hus
    obtain ⟨vs, _, rfl, hvs, d', _, rfl, hd', n', _, rfl, hn', rfl⟩ := hus
    rw [← lexeme_of_form hn']
    exact .calleeMember p q d' n' ((kind_of_form hd').trans hd) (hn.recast hn') (ih hvs)
  | noArguments => rw [recast_nil.mp hus]; exact .noArguments
  | someArguments _ ih => exact .someArguments (ih hus)
  | lastItem _ ih => exact .lastItem (ih hus)
  -- The first item, the comma, and the items behind it.
  | moreItems c hc _ _ ihe ihes =>
    simp only [recast_append, recast_cons] at hus
    obtain ⟨vs, _, rfl, hvs, c', ws, rfl, hc', hws⟩ := hus
    exact .moreItems c' ((kind_of_form hc').trans hc) (ihe hvs) (ihes hws)
  | noElements => rw [recast_nil.mp hus]; exact .noElements
  | lastElement _ ih => exact .lastElement (ih hus)
  | moreElements c hc _ _ ihe ihes =>
    simp only [recast_append, recast_cons] at hus
    obtain ⟨vs, _, rfl, hvs, c', ws, rfl, hc', hws⟩ := hus
    exact .moreElements c' ((kind_of_form hc').trans hc) (ihe hvs) (ihes hws)
  -- A key need not be a name, so it is recast as a key.
  | keyed k c hc hk _ ih =>
    simp only [recast_cons] at hus
    obtain ⟨k', _, rfl, hk', c', vs, rfl, hc', hvs⟩ := hus
    exact .keyed k' c' ((kind_of_form hc').trans hc) (hk.recast hk') (ih hvs)
  | shorthand p t ht =>
    obtain ⟨u, rfl, hu⟩ := recast_singleton.mp hus
    rw [← lexeme_of_form hu]
    exact .shorthand p u ((kind_of_form hu).trans ht)
  | noProperties => rw [recast_nil.mp hus]; exact .noProperties
  | lastProperty _ ih => exact .lastProperty (ih hus)
  | moreProperties c hc _ _ ih ihps =>
    simp only [recast_append, recast_cons] at hus
    obtain ⟨vs, _, rfl, hvs, c', ws, rfl, hc', hws⟩ := hus
    exact .moreProperties c' ((kind_of_form hc').trans hc) (ih hvs) (ihps hws)

section Lists

variable {α : Type} {item : α → List Token → Prop} {as : List α} {us : List Token}

/-- Items with commas between them are recast if each item can be. -/
theorem WrittenSeparated.recast
    (hitem : ∀ ⦃a ts us⦄, item a ts → Recast us ts → item a us)
    (h : WrittenSeparated item as ts) (hus : Recast us ts) : WrittenSeparated item as us := by
  induction h generalizing us with
  | last ha => exact .last (hitem ha hus)
  | more c hc ha _ ih =>
    simp only [recast_append, recast_cons] at hus
    obtain ⟨vs, _, rfl, hvs, c', ws, rfl, hc', hws⟩ := hus
    exact .more c' ((kind_of_form hc').trans hc) (hitem ha hvs) (ih hws)

/-- The same where a comma may stand behind the last item. -/
theorem WrittenListed.recast
    (hitem : ∀ ⦃a ts us⦄, item a ts → Recast us ts → item a us)
    (h : WrittenListed item as ts) (hus : Recast us ts) : WrittenListed item as us := by
  induction h generalizing us with
  | nil => rw [recast_nil.mp hus]; exact .nil
  | last ha => exact .last (hitem ha hus)
  | more c hc ha _ ih =>
    simp only [recast_append, recast_cons] at hus
    obtain ⟨vs, _, rfl, hvs, c', ws, rfl, hc', hws⟩ := hus
    exact .more c' ((kind_of_form hc').trans hc) (hitem ha hvs) (ih hws)

end Lists

section Names

variable {us : List Token}

/-- A name and what it is renamed to are seen from the forms of their tokens, and so is the word
between them, which is an identifier like any other. -/
theorem WrittenRenamed.recast {x : Lexeme × Option Lexeme} (h : WrittenRenamed x ts)
    (hus : Recast us ts) : WrittenRenamed x us := by
  cases h with
  | plain n hn =>
    simp only [recast_cons, recast_nil] at hus
    obtain ⟨n', _, rfl, hn', rfl⟩ := hus
    rw [← lexeme_of_form hn']
    exact .plain n' ((kind_of_form hn').trans hn)
  | another n a m hn ha has hm =>
    simp only [recast_cons, recast_nil] at hus
    obtain ⟨n', _, rfl, hn', a', _, rfl, ha', m', _, rfl, hm', rfl⟩ := hus
    rw [← lexeme_of_form hn', ← lexeme_of_form hm']
    exact .another n' a' m' ((kind_of_form hn').trans hn) ((kind_of_form ha').trans ha)
      ((lexeme_of_form ha').trans has) ((kind_of_form hm').trans hm)

theorem WrittenSpecifier.recast ⦃x : Specifier⦄ ⦃ts us : List Token⦄ (h : WrittenSpecifier x ts)
    (hus : Recast us ts) : WrittenSpecifier x us := by
  cases h with
  | named h => exact .named (h.recast hus)

theorem WrittenExported.recast ⦃x : Lexeme⦄ ⦃ts us : List Token⦄ (h : WrittenExported x ts)
    (hus : Recast us ts) : WrittenExported x us := by
  cases h with
  | plain h => exact .plain (h.recast hus)
  | another h => exact .another (h.recast hus)

/-- What is imported besides the default is seen from the forms of the tokens. -/
theorem WrittenFurther.recast {xs : List Specifier} (h : WrittenFurther xs ts)
    (hus : Recast us ts) : WrittenFurther xs us := by
  cases h with
  | named l r hl hr h =>
    simp only [recast_cons, recast_append, recast_nil] at hus
    obtain ⟨l', _, rfl, hl', vs, _, rfl, hvs, r', _, rfl, hr', rfl⟩ := hus
    exact .named l' r' ((kind_of_form hl').trans hl) ((kind_of_form hr').trans hr)
      (h.recast WrittenSpecifier.recast hvs)
  | module s a n hs ha has hn =>
    simp only [recast_cons, recast_nil] at hus
    obtain ⟨s', _, rfl, hs', a', _, rfl, ha', n', _, rfl, hn', rfl⟩ := hus
    rw [← lexeme_of_form hn']
    exact .module s' a' n' ((kind_of_form hs').trans hs) ((kind_of_form ha').trans ha)
      ((lexeme_of_form ha').trans has) ((kind_of_form hn').trans hn)

/-- So is everything that is imported. -/
theorem WrittenImport.recast {xs : List Specifier} (h : WrittenImport xs ts)
    (hus : Recast us ts) : WrittenImport xs us := by
  cases h with
  | nothing => rw [recast_nil.mp hus]; exact .nothing
  | further f hf h =>
    simp only [recast_append, recast_cons, recast_nil] at hus
    obtain ⟨vs, _, rfl, hvs, f', _, rfl, hf', rfl⟩ := hus
    exact .further f' ((kind_of_form hf').trans hf) (h.recast hvs)
  | default n f hn hf =>
    simp only [recast_cons, recast_nil] at hus
    obtain ⟨n', _, rfl, hn', f', _, rfl, hf', rfl⟩ := hus
    rw [← lexeme_of_form hn']
    exact .default n' f' ((kind_of_form hn').trans hn) ((kind_of_form hf').trans hf)
  | both n c f hn hc hf h =>
    simp only [recast_cons, recast_append, recast_nil] at hus
    obtain ⟨n', _, rfl, hn', c', _, rfl, hc', vs, _, rfl, hvs, f', _, rfl, hf', rfl⟩ := hus
    rw [← lexeme_of_form hn']
    exact .both n' c' f' ((kind_of_form hn').trans hn) ((kind_of_form hc').trans hc)
      ((kind_of_form hf').trans hf) (h.recast hvs)

theorem WrittenParameter.recast ⦃x : Lexeme⦄ ⦃ts us : List Token⦄ (h : WrittenParameter x ts)
    (hus : Recast us ts) : WrittenParameter x us := by
  cases h with
  | name t ht =>
    obtain ⟨u, rfl, hu⟩ := recast_singleton.mp hus
    rw [← lexeme_of_form hu]
    exact .name u ((kind_of_form hu).trans ht)

theorem WrittenParameters.recast {ps : List Lexeme} (h : WrittenParameters ps ts)
    (hus : Recast us ts) : WrittenParameters ps us := by
  cases h with
  | empty => rw [recast_nil.mp hus]; exact .empty
  | nonempty h => exact .nonempty (h.recast WrittenParameter.recast hus)

/-- No tokens are recast by no tokens, so where an expression is left out, it stays left out. -/
theorem WrittenOption.recast {v : Option Expr} (h : WrittenOption templates v ts)
    (hus : Recast us ts) : WrittenOption templates v us := by
  cases h with
  | absent => rw [recast_nil.mp hus]; exact .absent
  | present h => exact .present (h.recast hus)

/-- The declaration of a variable: its word, its name and, if it has one, its first value. -/
theorem WrittenVariable.recast {v : Variable} (h : WrittenVariable templates v ts)
    (hus : Recast us ts) : WrittenVariable templates v us := by
  cases h with
  | declared p w n hw hn h =>
    simp only [recast_cons] at hus
    obtain ⟨w', _, rfl, hw', n', vs, rfl, hn', hvs⟩ := hus
    rw [← lexeme_of_form hw', ← lexeme_of_form hn']
    -- What is left are the tokens of the first value, if there is one.
    refine .declared p w' n' (kind_of_form hw' ▸ hw) ((kind_of_form hn').trans hn) ?_
    cases h with
    | absent => rw [recast_nil.mp hvs]; exact .absent
    | present a ha h =>
      simp only [recast_cons] at hvs
      obtain ⟨a', ws, rfl, ha', hws⟩ := hvs
      exact .present a' ((kind_of_form ha').trans ha) (h.recast hws)

theorem WrittenInit.recast {i : ForInit} (h : WrittenInit templates i ts)
    (hus : Recast us ts) : WrittenInit templates i us := by
  cases h with
  | nothing => rw [recast_nil.mp hus]; exact .nothing
  | «variable» h => exact .variable (h.recast hus)
  | expr h => exact .expr (h.recast hus)

end Names

/-- **Tokens of the same forms write the same statements.** -/
theorem WrittenStmt.recast {clause : Clause} (h : WrittenStmt templates clause ts)
    {us : List Token} (hus : Recast us ts) : WrittenStmt templates clause us := by
  induction h generalizing us with
  -- Comments are tokens as well, and their text is part of the form.
  | lineComment p t w ht hw =>
    obtain ⟨u, rfl, hu⟩ := recast_singleton.mp hus
    exact .lineComment p u w ((kind_of_form hu).trans ht) ((lexeme_of_form hu).trans hw)
  | blockComment p t w ht hw =>
    obtain ⟨u, rfl, hu⟩ := recast_singleton.mp hus
    exact .blockComment p u w ((kind_of_form hu).trans ht) ((lexeme_of_form hu).trans hw)
  -- Statements that begin with a word and end with a semicolon.
  | importFrom p i m e w hi hm hw he h =>
    simp only [recast_cons, recast_append, recast_nil] at hus
    obtain ⟨i', _, rfl, hi', vs, _, rfl, hvs, m', _, rfl, hm', e', _, rfl, he', rfl⟩ := hus
    exact .importFrom p i' m' e' w ((kind_of_form hi').trans hi) ((kind_of_form hm').trans hm)
      ((lexeme_of_form hm').trans hw) ((kind_of_form he').trans he) (h.recast hvs)
  -- A function behind `export` is a statement of its own, and so the hypothesis is about all its
  -- tokens.
  | exportDefaultFunction p q x d hx hd _ ih =>
    simp only [recast_cons] at hus
    obtain ⟨x', _, rfl, hx', d', vs, rfl, hd', hvs⟩ := hus
    exact .exportDefaultFunction p q x' d' ((kind_of_form hx').trans hx)
      ((kind_of_form hd').trans hd) (ih hvs)
  | exportDefault p x d e hx hd he h =>
    simp only [recast_cons, recast_append, recast_nil] at hus
    obtain ⟨x', _, rfl, hx', d', _, rfl, hd', vs, _, rfl, hvs, e', _, rfl, he', rfl⟩ := hus
    exact .exportDefault p x' d' e' ((kind_of_form hx').trans hx) ((kind_of_form hd').trans hd)
      ((kind_of_form he').trans he) (h.recast hvs)
  | exportFunction p q x hx _ ih =>
    simp only [recast_cons] at hus
    obtain ⟨x', vs, rfl, hx', hvs⟩ := hus
    exact .exportFunction p q x' ((kind_of_form hx').trans hx) (ih hvs)
  | exportVariable p x e hx he h =>
    simp only [recast_cons, recast_append, recast_nil] at hus
    obtain ⟨x', _, rfl, hx', vs, _, rfl, hvs, e', _, rfl, he', rfl⟩ := hus
    exact .exportVariable p x' e' ((kind_of_form hx').trans hx) ((kind_of_form he').trans he)
      (h.recast hvs)
  -- The names of an export list are recast as a list.
  | exportNames p x l r e hx hl hr he h =>
    simp only [recast_cons, recast_append, recast_nil] at hus
    obtain ⟨x', _, rfl, hx', l', _, rfl, hl', vs, _, rfl, hvs, r', _, rfl, hr', e', _, rfl, he',
      rfl⟩ := hus
    exact .exportNames p x' l' r' e' ((kind_of_form hx').trans hx) ((kind_of_form hl').trans hl)
      ((kind_of_form hr').trans hr) ((kind_of_form he').trans he)
      (h.recast WrittenExported.recast hvs)
  | «variable» e he h =>
    simp only [recast_append, recast_cons, recast_nil] at hus
    obtain ⟨vs, _, rfl, hvs, e', _, rfl, he', rfl⟩ := hus
    exact .variable e' ((kind_of_form he').trans he) (h.recast hvs)
  | print p w e hw he h =>
    simp only [recast_cons, recast_append, recast_nil] at hus
    obtain ⟨w', _, rfl, hw', vs, _, rfl, hvs, e', _, rfl, he', rfl⟩ := hus
    exact .print p w' e' ((kind_of_form hw').trans hw) ((kind_of_form he').trans he) (h.recast hvs)
  | console p w l r e hw hl hr he h =>
    simp only [recast_cons, recast_append, recast_nil] at hus
    obtain ⟨w', _, rfl, hw', l', _, rfl, hl', vs, _, rfl, hvs, r', _, rfl, hr', e', _, rfl, he',
      rfl⟩ := hus
    exact .console p w' l' r' e' ((kind_of_form hw').trans hw) ((kind_of_form hl').trans hl)
      ((kind_of_form hr').trans hr) ((kind_of_form he').trans he) (h.recast hvs)
  -- The name of a function is the only lexeme that goes into the tree; all other tokens are known
  -- by their kinds.
  | function p f n l r o c hf hn hl hr ho hc hps _ ih =>
    simp only [recast_cons, recast_append, recast_nil] at hus
    obtain ⟨f', _, rfl, hf', n', _, rfl, hn', l', _, rfl, hl', vs, _, rfl, hvs, r', _, rfl, hr', o',
      _, rfl, ho', ws, _, rfl, hws, c', _, rfl, hc', rfl⟩ := hus
    rw [← lexeme_of_form hn']
    exact .function p f' n' l' r' o' c' ((kind_of_form hf').trans hf) ((kind_of_form hn').trans hn)
      ((kind_of_form hl').trans hl) ((kind_of_form hr').trans hr) ((kind_of_form ho').trans ho)
      ((kind_of_form hc').trans hc) (hps.recast hvs) (ih hws)
  | ret p w e hw he h =>
    simp only [recast_cons, recast_append, recast_nil] at hus
    obtain ⟨w', _, rfl, hw', vs, _, rfl, hvs, e', _, rfl, he', rfl⟩ := hus
    exact .ret p w' e' ((kind_of_form hw').trans hw) ((kind_of_form he').trans he) (h.recast hvs)
  -- Branches and loops: the tests are expressions, and the bodies are recast by the hypotheses.
  | ifThen p w l r hw hl hr htest _ ih =>
    simp only [recast_cons, recast_append] at hus
    obtain ⟨w', _, rfl, hw', l', _, rfl, hl', vs, _, rfl, hvs, r', ws, rfl, hr', hws⟩ := hus
    exact .ifThen p w' l' r' ((kind_of_form hw').trans hw) ((kind_of_form hl').trans hl)
      ((kind_of_form hr').trans hr) (htest.recast hvs) (ih hws)
  | ifElse p w l r x hw hl hr hx htest _ _ ihyes ihno =>
    simp only [recast_cons, recast_append] at hus
    obtain ⟨w', _, rfl, hw', l', _, rfl, hl', vs, _, rfl, hvs, r', _, rfl, hr', ws, _, rfl, hws, x',
      xs, rfl, hx', hxs⟩ := hus
    exact .ifElse p w' l' r' x' ((kind_of_form hw').trans hw) ((kind_of_form hl').trans hl)
      ((kind_of_form hr').trans hr) ((kind_of_form hx').trans hx) (htest.recast hvs) (ihyes hws)
      (ihno hxs)
  | forLoop p w l m e r hw hl hm he hr hinit htest hupdate _ ih =>
    simp only [recast_cons, recast_append] at hus
    obtain ⟨w', _, rfl, hw', l', _, rfl, hl', as, _, rfl, has, m', _, rfl, hm', bs, _, rfl, hbs, e',
      _, rfl, he', cs, _, rfl, hcs, r', ds, rfl, hr', hds⟩ := hus
    exact .forLoop p w' l' m' e' r' ((kind_of_form hw').trans hw) ((kind_of_form hl').trans hl)
      ((kind_of_form hm').trans hm) ((kind_of_form he').trans he) ((kind_of_form hr').trans hr)
      (hinit.recast has) (htest.recast hbs) (hupdate.recast hcs) (ih hds)
  | whileLoop p w l r hw hl hr htest _ ih =>
    simp only [recast_cons, recast_append] at hus
    obtain ⟨w', _, rfl, hw', l', _, rfl, hl', vs, _, rfl, hvs, r', ws, rfl, hr', hws⟩ := hus
    exact .whileLoop p w' l' r' ((kind_of_form hw').trans hw) ((kind_of_form hl').trans hl)
      ((kind_of_form hr').trans hr) (htest.recast hvs) (ih hws)
  -- A word and a semicolon.
  | breakLoop p w e hw he =>
    simp only [recast_cons, recast_nil] at hus
    obtain ⟨w', _, rfl, hw', e', _, rfl, he', rfl⟩ := hus
    exact .breakLoop p w' e' ((kind_of_form hw').trans hw) ((kind_of_form he').trans he)
  | continueLoop p w e hw he =>
    simp only [recast_cons, recast_nil] at hus
    obtain ⟨w', _, rfl, hw', e', _, rfl, he', rfl⟩ := hus
    exact .continueLoop p w' e' ((kind_of_form hw').trans hw) ((kind_of_form he').trans he)
  | expr p e he h =>
    simp only [recast_append, recast_cons, recast_nil] at hus
    obtain ⟨vs, _, rfl, hvs, e', _, rfl, he', rfl⟩ := hus
    exact .expr p e' ((kind_of_form he').trans he) (h.recast hvs)
  -- Lists of statements, and bodies.
  | nil => rw [recast_nil.mp hus]; exact .nil
  | cons _ _ ihs ihss =>
    simp only [recast_append] at hus
    obtain ⟨vs, ws, rfl, hvs, hws⟩ := hus
    exact .cons (ihs hvs) (ihss hws)
  | braces l r hl hr _ ih =>
    simp only [recast_cons, recast_append, recast_nil] at hus
    obtain ⟨l', _, rfl, hl', vs, _, rfl, hvs, r', _, rfl, hr', rfl⟩ := hus
    exact .braces l' r' ((kind_of_form hl').trans hl) ((kind_of_form hr').trans hr) (ih hvs)
  -- The body is not to begin with a brace, so its first token has to be brought out.
  | single ht _ ih =>
    have hstmt := ih hus
    obtain ⟨u, vs, rfl, hu, -⟩ := recast_cons.mp hus
    exact .single (kind_of_form hu ▸ ht) hstmt

end Advplc.Grammar

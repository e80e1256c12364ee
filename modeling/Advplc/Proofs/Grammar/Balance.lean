import Advplc.Proofs.Grammar.Places
import Advplc.Proofs.Token.Content

/-!
# Braces in the source of an expression

In an expression every brace that is opened is closed, braces are not closed before they are opened,
and there are neither comments nor regular expressions.  `Orderly` says so of the kinds of tokens,
with the number of braces that are open as it changes from token to token.

`Written.closure` is about all that is written with tokens: the expressions of the grammar are put
together from single tokens and pairs of braces.  Anything that has the form of a name may be taken
for one; in a source, what is a comment, a regular expression or a brace has another form.
-/

set_option autoImplicit false

namespace Advplc

/-! ## The number of open braces -/

/-- How many braces are open behind a token of the given kind, if `d` are open before it.  There is
no answer if it closes one more. -/
def nesting (d : Nat) : Kind → Option Nat
  | .mark .openBrace => some (d + 1)
  | .mark .closeBrace =>
    match d with
    | 0 => none
    | d + 1 => some d
  | _ => some d

/-- The kinds of tokens that enclose other things or hide what they hold. -/
def enclosing : List Kind :=
  [.lineComment, .blockComment, .regex, .mark .openBrace, .mark .closeBrace]

/-- Comments and regular expressions do not occur, and braces are opened and closed in pairs. -/
structure Orderly (ks : List Kind) : Prop where
  bound : ∀ k ∈ ks, k.isFree = false
  balanced : ∀ d, ks.foldlM nesting d = some d

namespace Orderly

variable {k : Kind} {ks ls : List Kind}

theorem nil : Orderly [] := ⟨List.forall_mem_nil _, fun _ ↦ rfl⟩

theorem append (hks : Orderly ks) (hls : Orderly ls) : Orderly (ks ++ ls) := by
  refine ⟨List.forall_mem_append.mpr ⟨hks.bound, hls.bound⟩, fun d ↦ ?_⟩
  rw [List.foldlM_append, hks.balanced]
  exact hls.balanced d

theorem one (hk : k ∉ enclosing) : Orderly [k] := by
  refine ⟨List.forall_mem_singleton.mpr ?_, fun d ↦ ?_⟩
  · fun_cases Kind.isFree k with
    | case1 | case2 | case3 => exact absurd (by decide) hk
    | case4 => rfl
  · rw [List.foldlM_cons]
    fun_cases nesting d k with
    | case1 | case2 | case3 => exact absurd (by decide) hk
    | case4 => rfl

theorem braces (hks : Orderly ks) : Orderly (.mark .openBrace :: (ks ++ [.mark .closeBrace])) := by
  refine ⟨?_, fun d ↦ ?_⟩
  · rw [List.forall_mem_cons, List.forall_mem_append, List.forall_mem_singleton]
    exact ⟨rfl, hks.bound, rfl⟩
  · show List.foldlM nesting (d + 1) (ks ++ [.mark .closeBrace]) = some d
    rw [List.foldlM_append, hks.balanced (d + 1)]
    rfl

end Orderly

/-! ## The forms of comments, regular expressions and braces -/

/-- A token begins with a code point with which tokens of its kind may begin. -/
theorem Scans.exists_starts {before : Option Kind} {t : Text} {fs : List (Kind × Lexeme)}
    (h : Scans before t fs) :
    ∀ f ∈ fs, ∃ c w, f.2 = .text (c :: w) ∧ Kind.starts (some f.1) c = true := by
  induction h with
  | done => simp
  | blank _ _ ih => exact ih
  | @token before c t k n fs h _ ih =>
    refine List.forall_mem_cons.mpr ⟨?_, ih⟩
    obtain ⟨n, rfl⟩ := Nat.exists_eq_succ_of_ne_zero (Nat.ne_of_gt (Rule.pos_of_first? h))
    exact ⟨c, t.take n, rfl, Rule.starts_of_first? h⟩

/-- In a source, tokens of kinds that no name begins like do not have the form of a name. -/
theorem Scans.isName_eq_false {before : Option Kind} {t : Text} {fs : List (Kind × Lexeme)}
    {ks : List Kind} (hks : ∀ k ∈ ks, ∀ c, Kind.starts (some k) c = true →
      nameStartRanges.has c.val = false) (h : Scans before t fs) :
    ∀ f ∈ fs, f.1 ∈ ks → ∀ w, f.2 = .text w → w.isName = false := by
  intro f hf hkind w hw
  obtain ⟨c, v, hlexeme, hstarts⟩ := h.exists_starts f hf
  rw [hlexeme] at hw
  cases hw
  rw [Text.isName, hks f.1 hkind c hstarts]
  rfl

/-- In a source, what encloses other things or hides them does not have the form of a name. -/
theorem Scans.isName_of_enclosing {before : Option Kind} {t : Text} {fs : List (Kind × Lexeme)}
    (h : Scans before t fs) :
    ∀ f ∈ fs, f.1 ∈ enclosing → ∀ w, f.2 = .text w → w.isName = false := by
  refine h.isName_eq_false fun k hk c hc ↦ ?_
  have hname : ∀ c ∈ ("/\x7b\x7d" : Text), nameStartRanges.has c.val = false := by decide +kernel
  refine hname c ?_
  simp only [enclosing, List.mem_cons, List.not_mem_nil, or_false] at hk
  obtain rfl | rfl | rfl | rfl | rfl := hk
  · rw [of_decide_eq_true hc]; decide
  · rw [of_decide_eq_true hc]; decide
  · rw [of_decide_eq_true hc]; decide
  · rw [← Option.some.inj (of_decide_eq_true hc)]; decide
  · rw [← Option.some.inj (of_decide_eq_true hc)]; decide

namespace Grammar

open Script

variable {templates : Text → List Text → List Expr → Prop} {phrase : Phrase} {ts : List Token}

/-! ## Single tokens and pairs of braces -/

/-- **What expressions are put together from.**  A property of token lists that passes to lists one
behind the other, and to a list in braces, holds of every writing of an expression if it holds of
the single tokens. -/
theorem Written.closure {Q : List Token → Prop} (hnil : Q [])
    (happend : ∀ ⦃ts us⦄, Q ts → Q us → Q (ts ++ us))
    (hone : ∀ ⦃t⦄, t.kind ∉ enclosing ∨ Token.NamesProperty t → Q [t])
    (hbraces : ∀ ⦃l r ts⦄, l.kind = .mark .openBrace → r.kind = .mark .closeBrace → Q ts →
      Q (l :: (ts ++ [r]))) (h : Written templates phrase ts) : Q ts := by
  have hkind : ∀ {t : Token} {k : Kind}, t.kind = k → k ∉ enclosing → Q [t] :=
    fun h hk ↦ hone (.inl (h ▸ hk))
  have hmem : ∀ {t : Token} {ks : List Kind}, t.kind ∈ ks → (∀ k ∈ ks, k ∉ enclosing) → Q [t] :=
    fun ht hks ↦ hone (.inl (hks _ ht))
  have hcons : ∀ {t : Token} {ts : List Token}, Q [t] → Q ts → Q (t :: ts) :=
    fun ht hts ↦ happend ht hts
  have hdivided : ∀ {t : Token} {ts us : List Token}, Q [t] → Q ts → Q us → Q (ts ++ t :: us) :=
    fun ht hts hus ↦ happend hts (hcons ht hus)
  have hlevels : ∀ ops ∈ binaryLevels, ∀ k ∈ ops, k ∉ enclosing := by decide
  have hkey : ∀ {t : Token} {key : Lexeme}, WritesKey t key → Q [t] := by
    intro t key ht
    cases ht with
    | string w ht hw => exact hkind ht (by decide)
    | number ht => exact hkind ht (by decide)
    | name ht => exact hone (.inr ht)
  induction h with
  | number p t ht => exact hkind ht (by decide)
  | string p t w ht hw => exact hkind ht (by decide)
  | template p t w chunks holes ht hw hholes => exact hkind ht (by decide)
  | trueWord p t ht hw | falseWord p t ht hw | nullWord p t ht hw | name p t ht hw
  | calleeName p t ht | shorthand p t ht => exact hkind ht (by decide)
  | thisWord p t ht => exact hkind ht (by decide)
  | noArguments | noElements | noProperties => exact hnil
  | object p l r hl hr _ ih => exact hbraces hl hr ih
  | array p l r hl hr _ ih =>
    exact hcons (hkind hl (by decide)) (happend ih (hkind hr (by decide)))
  | parentheses l r hl hr _ ih =>
    exact hcons (hkind hl (by decide)) (happend ih (hkind hr (by decide)))
  | new p n l r hn hl hr _ _ ihe ihes =>
    exact hcons (hkind hn (by decide))
      (hdivided (hkind hl (by decide)) ihe (happend ihes (hkind hr (by decide))))
  | newBare p n hn _ ih => exact hcons (hkind hn (by decide)) ih
  | member p q d n hd hn _ ih | calleeMember p q d n hd hn _ ih =>
    exact hdivided (hkind hd (by decide)) ih (hone (.inr hn))
  | index p l r hl hr _ _ ihe ihk =>
    exact hdivided (hkind hl (by decide)) ihe (happend ihk (hkind hr (by decide)))
  | call p l r hl hr _ _ ihe ihes =>
    exact hdivided (hkind hl (by decide)) ihe (happend ihes (hkind hr (by decide)))
  | updateAfter p op hop _ ih => exact happend ih (hmem hop (by decide))
  | updateBefore p op hop _ ih => exact hcons (hmem hop (by decide)) ih
  | unary p op hop _ ih => exact hcons (hmem hop (by decide)) ih
  | binary p op hsuffix hop _ _ ihl ihr =>
    exact hdivided (hmem hop (hlevels _ (hsuffix.subset List.mem_cons_self))) ihl ihr
  | conditional p q c hq hc _ _ _ iht ihy ihn =>
    exact hdivided (hkind hq (by decide)) iht (hdivided (hkind hc (by decide)) ihy ihn)
  | assign p op hop htarget _ _ ihl ihv => exact hdivided (hmem hop (by decide)) ihl ihv
  | moreItems c hc _ _ ih ihs | moreElements c hc _ _ ih ihs | moreProperties c hc _ _ ih ihs =>
    exact hdivided (hkind hc (by decide)) ih ihs
  | keyed k c hc hk _ ih => exact hcons (hkey hk) (hcons (hkind hc (by decide)) ih)
  | toAssignment _ ih | toConditional _ ih | toBinary _ _ ih | toUnary _ ih | toSuffixed _ ih
  | toIndexed _ ih | toChained _ ih | someArguments _ ih | lastItem _ ih | lastElement _ ih
  | lastProperty _ ih => exact ih

/-- In a writing of an expression braces stand in pairs, as long as neither braces nor what hides
them are taken for names. -/
theorem Written.orderly (h : Written templates phrase ts)
    (hnames : ∀ t ∈ ts, Token.NamesProperty t → t.kind ∉ enclosing) :
    Orderly (ts.map Token.kind) := by
  revert hnames
  refine h.closure (Q := fun ts ↦ (∀ t ∈ ts, Token.NamesProperty t → t.kind ∉ enclosing) →
    Orderly (ts.map Token.kind)) (fun _ ↦ .nil) ?append ?one ?braces
  case append =>
    intro ts us hts hus hnames
    rw [List.forall_mem_append] at hnames
    rw [List.map_append]
    exact (hts hnames.1).append (hus hnames.2)
  case one =>
    rintro t ht hnames
    obtain ht | ht := ht
    · exact .one ht
    · exact .one (hnames t List.mem_cons_self ht)
  case braces =>
    intro l r ts hl hr hts hnames
    rw [List.forall_mem_cons, List.forall_mem_append] at hnames
    rw [List.map_cons, List.map_append, List.map_singleton, hl, hr]
    exact (hts hnames.2.1).braces

/-! ## Sources -/

/-- **The braces in the source of an expression stand in pairs**, and there are neither comments
nor regular expressions in it. -/
theorem exists_orderly_of_parseExpr {source : Text} {p : Pos} {e : Expr}
    (h : parseExpr source p = .ok e) :
    ∃ fs, Scans none source.joinLineEnds fs ∧ Orderly (fs.map Prod.fst) := by
  obtain ⟨ts, rest, htokens, hexpr, hend⟩ := holeAt_eq_ok.mp h
  obtain ⟨used, rfl, hwritten⟩ := yields_expr (readsOnly_filled _) hexpr
  obtain rfl := eq_nil_of_tokenize htokens hend
  rw [List.append_nil] at htokens
  have hscans := (tokenize_eq_ok_iff p).mpr ⟨used, htokens, rfl⟩
  refine ⟨used.map Token.form, hscans, ?_⟩
  rw [List.map_map]
  refine hwritten.orderly fun t ht hname hkind ↦ ?_
  obtain hidentifier | ⟨w, hw, hisName⟩ := hname
  · rw [hidentifier] at hkind
    exact absurd hkind (by decide)
  · rw [hscans.isName_of_enclosing t.form (List.mem_map_of_mem ht) hkind w hw] at hisName
    cases hisName

end Grammar

end Advplc

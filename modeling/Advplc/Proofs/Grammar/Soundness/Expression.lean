import Advplc.Proofs.Grammar.Completeness.Expression
import Advplc.Proofs.Grammar.Placed

/-!
# Only writings of expressions are parsed

Whatever a rule for expressions reads, the tokens it has taken write the expression it returns.
Together with completeness this makes `Written` the language of the grammar: an expression is parsed
exactly from its writings, and what follows it decides nothing but where it ends.  It also stands
where they do, so the theorems are about `Placed`; what they say of `Written` follows at the end.

The rules are taken from the inside out, each against any inner parsers that are sound, and the
recursion is closed by induction on how often it was unrolled.
-/

set_option autoImplicit false

namespace Advplc.Grammar

open Script Parse

variable {α β : Type}

/-- When `p` succeeds, it has taken tokens that `written` relates to its value. -/
def Yields (env : Context) (p : Parse α) (written : α → List Token → Prop) : Prop :=
  ∀ ⦃ts : List Token⦄ ⦃a : α⦄ ⦃rest : List Token⦄, p env ts = .ok a rest →
    ∃ used, ts = used ++ rest ∧ written a used

/-- The templates that a context reads are those that `templates` describes. -/
def Context.ReadsOnly (templates : Text → List Text → List Expr → Prop) (env : Context) : Prop :=
  ∀ ⦃t : Token⦄ ⦃ts rest : List Token⦄ ⦃e : Expr⦄, templateLiteral t env ts = .ok e rest →
    rest = ts ∧ ∃ w p cs hs, t.lexeme = .text w ∧ e = .template p cs hs ∧ templates w cs hs

/-- The templates that a context reads at tokens are those that `templates` describes. -/
def Context.ReadsAt (templates : Token → List Text → List Expr → Prop) (env : Context) : Prop :=
  ∀ ⦃t : Token⦄ ⦃ts rest : List Token⦄ ⦃e : Expr⦄, templateLiteral t env ts = .ok e rest →
    rest = ts ∧ ∃ w cs hs, t.lexeme = .text w ∧ e = .template (some t.pos) cs hs ∧ templates t cs hs

variable {env : Context}

/-! ## Items with commas between them -/

section Lists

variable {item : Parse α} {written : α → List Token → Prop}

/-- The tokens of a list with commas between the items.  The induction is on how many more items
there may be. -/
theorem yields_separatedAt (hitem : Yields env item written) (n : Nat) :
    Yields env (separatedAt item n) (WrittenSeparated written) := by
  induction n with
  | zero =>
    intro ts as rest h
    simp only [separatedAt, bind_eq_ok, pure_eq_ok] at h
    obtain ⟨a, mid, ha, rfl, rfl⟩ := h
    obtain ⟨us, rfl, hus⟩ := hitem ha
    exact ⟨us, rfl, .last hus⟩
  | succ n ih =>
    intro ts as rest h
    simp only [separatedAt, atMark, bind_eq_ok, check_eq_ok] at h
    obtain ⟨a, mid, ha, b, _, ⟨rfl, rfl⟩, h⟩ := h
    obtain ⟨us, rfl, hus⟩ := hitem ha
    split at h
    · rename_i hcomma
      simp only [bind_eq_ok, next_eq_ok, pure_eq_ok] at h
      obtain ⟨c, mid, rfl, as, _, has, rfl, rfl⟩ := h
      obtain ⟨vs, rfl, hvs⟩ := ih has
      refine ⟨us ++ c :: vs, by simp, .more c ?_ hus hvs⟩
      simpa using hcomma
    · obtain ⟨rfl, rfl⟩ := pure_eq_ok.mp h
      exact ⟨us, rfl, .last hus⟩

theorem yields_separated (hitem : Yields env item written) :
    Yields env (separated item) (WrittenSeparated written) :=
  fun _ _ _ h ↦ yields_separatedAt hitem _ h

/-- An item of a list is only read where the list is not closed. -/
theorem yields_listedAt (close : Mark) (hitem : ∀ {ts : List Token} {a : α} {rest : List Token},
      nextKind ts ≠ .mark close → item env ts = .ok a rest →
      ∃ used, ts = used ++ rest ∧ written a used) (n : Nat) :
    Yields env (listedAt close item n) (WrittenListed written) := by
  induction n with
  | zero =>
    intro ts as rest h
    simp only [listedAt, atMark, bind_eq_ok, check_eq_ok] at h
    obtain ⟨b, _, ⟨rfl, rfl⟩, h⟩ := h
    split at h
    · obtain ⟨rfl, rfl⟩ := pure_eq_ok.mp h
      exact ⟨[], rfl, .nil⟩
    · rename_i hclose
      simp only [bind_eq_ok, pure_eq_ok] at h
      obtain ⟨a, _, ha, rfl, rfl⟩ := h
      obtain ⟨us, rfl, hus⟩ := hitem (by simpa using hclose) ha
      exact ⟨us, rfl, .last hus⟩
  | succ n ih =>
    intro ts as rest h
    simp only [listedAt, atMark, bind_eq_ok, check_eq_ok] at h
    obtain ⟨b, _, ⟨rfl, rfl⟩, h⟩ := h
    split at h
    · obtain ⟨rfl, rfl⟩ := pure_eq_ok.mp h
      exact ⟨[], rfl, .nil⟩
    · rename_i hclose
      simp only [bind_eq_ok, check_eq_ok] at h
      obtain ⟨a, mid, ha, b, _, ⟨rfl, rfl⟩, h⟩ := h
      obtain ⟨us, rfl, hus⟩ := hitem (by simpa using hclose) ha
      split at h
      · rename_i hcomma
        simp only [bind_eq_ok, next_eq_ok, pure_eq_ok] at h
        obtain ⟨c, mid, rfl, as, _, has, rfl, rfl⟩ := h
        obtain ⟨vs, rfl, hvs⟩ := ih has
        refine ⟨us ++ c :: vs, by simp, .more c ?_ hus hvs⟩
        simpa using hcomma
      · obtain ⟨rfl, rfl⟩ := pure_eq_ok.mp h
        exact ⟨us, rfl, .last hus⟩

theorem yields_listed (close : Mark) (hitem : Yields env item written) :
    Yields env (listed close item) (WrittenListed written) :=
  fun _ _ _ h ↦ yields_listedAt close (fun _ hok ↦ hitem hok) _ h

end Lists

/-! ## Expressions -/

section Expressions

variable {templates : Token → List Text → List Expr → Prop}

/-- The inner parsers only read writings, and place what they read where those stand. -/
structure Inner.Places (templates : Token → List Text → List Expr → Prop) (env : Context)
    (inner : Inner) : Prop where
  expr : Yields env inner.expr fun e ↦ Placed templates (.expr .assignment e)
  unary : Yields env inner.unary fun e ↦ Placed templates (.expr (.binary []) e)

variable {inner : Inner}

/-- The name of a property is one token. -/
theorem propertyName_eq_ok {ts rest : List Token} {x : Lexeme × Option Pos}
    (h : propertyName env ts = .ok x rest) :
    ∃ t, ts = t :: rest ∧ Token.NamesProperty t ∧ x = (t.lexeme, some t.pos) := by
  simp only [propertyName, bind_eq_ok, peekToken_eq_ok] at h
  obtain ⟨_, _, ⟨rfl, rfl⟩, h⟩ := h
  -- Both a stream at its end and a token that cannot name anything go the way of identifiers.
  have hidentifier : ∀ {ts : List Token}, (do
      let t ← expect .identifier
      return (t.lexeme, some t.pos) : Parse (Lexeme × Option Pos)) env ts = .ok x rest →
      ∃ t, ts = t :: rest ∧ Token.NamesProperty t ∧ x = (t.lexeme, some t.pos) := by
    intro ts h
    simp only [bind_eq_ok, expect_eq_ok, pure_eq_ok] at h
    obtain ⟨t, _, ⟨rfl, ht⟩, rfl, rfl⟩ := h
    exact ⟨t, rfl, .inl ht, rfl⟩
  cases ts with
  | nil => exact hidentifier h
  | cons t ts =>
    simp only [List.head?_cons] at h
    split at h
    · simp only [bind_eq_ok, textFor_eq_ok] at h
      obtain ⟨w, _, ⟨hw, rfl⟩, h⟩ := h
      split at h
      · rename_i hname
        simp only [bind_eq_ok, next_eq_ok, pure_eq_ok] at h
        obtain ⟨u, _, hu, rfl, rfl⟩ := h
        cases hu
        exact ⟨t, rfl, .inr ⟨w, hw, hname⟩, rfl⟩
      · exact hidentifier h
    · exact hidentifier h

/-- The lists that the parsers read are those of the grammar. -/
theorem placed_items {es : List Expr} {ts : List Token}
    (h : WrittenSeparated (fun e ↦ Placed templates (.expr .assignment e)) es ts) :
    Placed templates (.items es) ts := by
  induction h with
  | last he => exact .lastItem he
  | more c hc he _ ih => exact .moreItems c hc he ih

theorem placed_elements {es : List Expr} {ts : List Token}
    (h : WrittenListed (fun e ↦ Placed templates (.expr .assignment e)) es ts) :
    Placed templates (.elements es) ts := by
  induction h with
  | nil => exact .noElements
  | last he => exact .lastElement he
  | more c hc he _ ih => exact .moreElements c hc he ih

theorem placed_properties {ps : List (Lexeme × Expr)} {ts : List Token}
    (h : WrittenListed (fun x ↦ Placed templates (.property x.1 x.2)) ps ts) :
    Placed templates (.properties ps) ts := by
  induction h with
  | nil => exact .noProperties
  | last he => exact .lastProperty he
  | more c hc he _ ih => exact .moreProperties c hc he ih

/-- The arguments of a call are only looked for where they do not end at once. -/
theorem yields_argumentList (hinner : inner.Places templates env) :
    Yields env (argumentList inner) fun es ↦ Placed templates (.arguments es) := by
  intro ts es rest h
  simp only [argumentList, atMark, bind_eq_ok, check_eq_ok] at h
  obtain ⟨_, _, ⟨rfl, rfl⟩, h⟩ := h
  split at h
  · obtain ⟨rfl, rfl⟩ := pure_eq_ok.mp h
    exact ⟨[], rfl, .noArguments⟩
  · obtain ⟨us, rfl, hus⟩ := yields_separated hinner.expr h
    exact ⟨us, rfl, .someArguments (placed_items hus)⟩

theorem arguments_eq_ok (hinner : inner.Places templates env) {ts rest : List Token}
    {es : List Expr} (h : arguments inner env ts = .ok es rest) :
    ∃ l us r, ts = l :: (us ++ r :: rest) ∧ l.kind = .mark .openParen ∧
      r.kind = .mark .closeParen ∧ Placed templates (.arguments es) us := by
  simp only [arguments, mark, bind_eq_ok, expect_eq_ok, pure_eq_ok] at h
  obtain ⟨l, _, ⟨rfl, hl⟩, es, _, hes, r, _, ⟨rfl, hr⟩, rfl, rfl⟩ := h
  obtain ⟨us, rfl, hus⟩ := yields_argumentList hinner hes
  exact ⟨l, us, r, rfl, hl, hr, hus⟩

/-- Behind the callee of `new` there is no point, since every one was taken. -/
theorem calleeAt_eq_ok (n : Nat) {e e' : Expr} {us ts rest : List Token}
    (he : Placed templates (.callee e) us) (h : calleeAt n e env ts = .ok e' rest) :
    ∃ vs, ts = vs ++ rest ∧ Placed templates (.callee e') (us ++ vs) ∧
      (ts.length ≤ n → nextKind rest ≠ .mark .dot) := by
  induction n generalizing e us ts with
  | zero =>
    obtain ⟨rfl, rfl⟩ := pure_eq_ok.mp h
    refine ⟨[], rfl, by rwa [List.append_nil], fun hlength ↦ ?_⟩
    obtain rfl := List.length_eq_zero_iff.mp (Nat.le_zero.mp hlength)
    decide
  | succ n ih =>
    simp only [calleeAt, atMark, bind_eq_ok, check_eq_ok] at h
    obtain ⟨_, _, ⟨rfl, rfl⟩, h⟩ := h
    split at h
    · rename_i hdot
      simp only [bind_eq_ok, next_eq_ok] at h
      obtain ⟨d, _, rfl, x, _, hx, h⟩ := h
      obtain ⟨t, rfl, ht, rfl⟩ := propertyName_eq_ok hx
      obtain ⟨vs, rfl, hvs, hstop⟩ := ih (.calleeMember d t (by simpa using hdot) ht he
        (he.pos_eq rfl _)) h
      refine ⟨d :: t :: vs, rfl, by simpa using hvs, fun hlength ↦ hstop ?_⟩
      simp only [List.length_cons] at hlength
      omega
    · rename_i hdot
      obtain ⟨rfl, rfl⟩ := pure_eq_ok.mp h
      exact ⟨[], rfl, by rwa [List.append_nil], fun _ ↦ by simpa using hdot⟩

/-- What a primary expression may be: anything closed, or a `new` without arguments that is followed
by nothing it would have taken for its own. -/
def PlacedFirst (templates : Token → List Text → List Expr → Prop) (e : Expr)
    (used rest : List Token) : Prop :=
  Placed templates (.expr .chained e) used ∨
    Placed templates (.expr .indexed e) used ∧ nextKind rest ∉ Slot.indexed.goesOn

/-- An expression that begins with `new` has taken all the points and the parentheses that it
could. -/
theorem newExpr_eq_ok (hinner : inner.Places templates env) {ts rest : List Token} {e : Expr}
    (h : newExpr inner env ts = .ok e rest) :
    ∃ used, ts = used ++ rest ∧ PlacedFirst templates e used rest := by
  simp only [newExpr, keyword, bind_eq_ok, expect_eq_ok, pure_eq_ok] at h
  obtain ⟨n, _, ⟨rfl, hn⟩, t, _, ⟨rfl, ht⟩, c, mid, hcallee, es, _, hes, rfl, rfl⟩ := h
  obtain ⟨vs, rfl, hvs, hdot⟩ := calleeAt_eq_ok _ (.calleeName t ht) hcallee
  simp only [newArguments, atMark, bind_eq_ok, check_eq_ok] at hes
  obtain ⟨_, _, ⟨rfl, rfl⟩, hes⟩ := hes
  split at hes
  · obtain ⟨l, us, r, rfl, hl, hr, hus⟩ := arguments_eq_ok hinner hes
    refine ⟨n :: ([t] ++ vs ++ l :: (us ++ [r])), by simp, .inl ?_⟩
    exact .toChained (.new n l r hn hl hr hvs hus)
  · rename_i hopen
    obtain ⟨rfl, rfl⟩ := pure_eq_ok.mp hes
    refine ⟨n :: ([t] ++ vs), by simp, .inr ⟨.newBare n hn hvs, ?_⟩⟩
    have := hdot (Nat.le_refl _)
    simp_all [Slot.goesOn]

theorem stringValue_eq_ok {t : Token} {ts rest : List Token} {v : Text}
    (h : stringValue t env ts = .ok v rest) :
    ∃ w, t.lexeme = .text w ∧ v = Text.unescape (Text.trimEnds 1 w) ∧ ts = rest := by
  simp only [stringValue, bind_eq_ok, textFor_eq_ok, pure_eq_ok] at h
  obtain ⟨w, _, ⟨hw, rfl⟩, rfl, rfl⟩ := h
  exact ⟨w, hw, rfl, rfl⟩

/-- A key is one token; that it is a name other than a closing brace is left to the list. -/
theorem propertyKey_eq_ok {k : Kind} {ts rest : List Token} {key : Lexeme}
    (hk : nextKind ts = k) (hclose : k ≠ .mark .closeBrace)
    (h : propertyKey k env ts = .ok key rest) : ∃ t, ts = t :: rest ∧ WritesKey t key := by
  unfold propertyKey at h
  split at h
  · simp only [bind_eq_ok, next_eq_ok, pure_eq_ok] at h
    obtain ⟨t, _, rfl, v, _, hv, rfl, rfl⟩ := h
    obtain ⟨w, hw, rfl, rfl⟩ := stringValue_eq_ok hv
    exact ⟨t, rfl, .string w hk hw⟩
  · simp only [bind_eq_ok, next_eq_ok, pure_eq_ok] at h
    obtain ⟨t, _, rfl, rfl, rfl⟩ := h
    exact ⟨t, rfl, .number hk⟩
  · rename_i hstring hnumber
    simp only [bind_eq_ok, pure_eq_ok] at h
    obtain ⟨x, _, hx, rfl, rfl⟩ := h
    obtain ⟨t, rfl, ht, rfl⟩ := propertyName_eq_ok hx
    refine ⟨t, rfl, .name ht ?_⟩
    rw [nextKind_cons] at hk
    subst hk
    simp only [List.mem_cons, List.not_mem_nil, or_false, not_or]
    exact ⟨hstring, hnumber, hclose⟩

/-- Where an object is not closed, a property is read: a key with its value, or a name alone. -/
theorem property_eq_ok (hinner : inner.Places templates env) {ts rest : List Token}
    {x : Lexeme × Expr} (hclose : nextKind ts ≠ .mark .closeBrace)
    (h : property inner env ts = .ok x rest) :
    ∃ used, ts = used ++ rest ∧ Placed templates (.property x.1 x.2) used := by
  simp only [property, bind_eq_ok, peekToken_eq_ok] at h
  obtain ⟨_, _, ⟨rfl, rfl⟩, h⟩ := h
  cases ts with
  | nil =>
    simp only [List.head?_nil, bind_eq_ok] at h
    obtain ⟨x, _, hx, -⟩ := h
    obtain ⟨t, ht, -⟩ := propertyName_eq_ok hx
    cases ht
  | cons t ts =>
    simp only [List.head?_cons, bind_eq_ok, check_eq_ok] at h
    obtain ⟨key, _, hkey, _, _, ⟨rfl, rfl⟩, h⟩ := h
    obtain ⟨_, heq, hwrites⟩ := propertyKey_eq_ok (by rw [nextKind_cons]) hclose hkey
    cases heq
    split at h
    · rename_i hshort
      obtain ⟨rfl, rfl⟩ := pure_eq_ok.mp h
      refine ⟨[t], rfl, ?_⟩
      -- The short form is only taken for identifiers, so the other keys are refuted by their kinds.
      cases hwrites with
      | string w ht => rw [ht] at hshort; cases hshort.1
      | number ht => exact .shorthand t hshort.1
      | name => exact .shorthand t hshort.1
    · simp only [mark, bind_eq_ok, expect_eq_ok, pure_eq_ok] at h
      obtain ⟨c, _, ⟨rfl, hc⟩, e, _, he, rfl, rfl⟩ := h
      obtain ⟨us, rfl, hus⟩ := hinner.expr he
      exact ⟨t :: c :: us, rfl, .keyed t c hc hwrites hus⟩

/-- The words `true`, `false` and the two for nothing are identifiers to the lexer. -/
theorem placed_identifierExpr (t : Token) (ht : t.kind = .identifier) :
    Placed templates (.expr .primary (identifierExpr t)) [t] := by
  rw [identifierExpr]
  split
  · exact .trueWord t ht ‹_›
  split
  · exact .falseWord t ht ‹_›
  split
  · exact .nullWord t ht ‹_›
  · rename_i htrue hfalse hnull
    refine .name t ht ?_
    simp only [List.mem_cons, List.not_mem_nil, or_false, not_or]
    exact ⟨htrue, hfalse, not_or.mp hnull⟩

/-- One case for each kind that a primary expression can begin with. -/
theorem primary_eq_ok (henv : env.ReadsAt templates) (hinner : inner.Places templates env)
    {ts rest : List Token} {e : Expr} (h : primary inner env ts = .ok e rest) :
    ∃ used, ts = used ++ rest ∧ PlacedFirst templates e used rest := by
  simp only [primary, bind_eq_ok, peek_eq_ok] at h
  obtain ⟨k, _, ⟨hk, rfl⟩, h⟩ := h
  split at h
  · simp only [bind_eq_ok, next_eq_ok, pure_eq_ok] at h
    obtain ⟨t, _, rfl, rfl, rfl⟩ := h
    exact ⟨[t], rfl, .inl (.toChained (.number t hk.symm))⟩
  · simp only [bind_eq_ok, next_eq_ok, pure_eq_ok] at h
    obtain ⟨t, _, rfl, v, _, hv, rfl, rfl⟩ := h
    obtain ⟨w, hw, rfl, rfl⟩ := stringValue_eq_ok hv
    exact ⟨[t], rfl, .inl (.toChained (.string t w hk.symm hw))⟩
  · simp only [bind_eq_ok, next_eq_ok] at h
    obtain ⟨t, _, rfl, h⟩ := h
    obtain ⟨rfl, w, cs, hs, hw, rfl, hholes⟩ := henv h
    exact ⟨[t], rfl, .inl (.toChained (.template t w cs hs hk.symm hw hholes))⟩
  · simp only [bind_eq_ok, next_eq_ok, pure_eq_ok] at h
    obtain ⟨t, _, rfl, rfl, rfl⟩ := h
    exact ⟨[t], rfl, .inl (.toChained (placed_identifierExpr t hk.symm))⟩
  · simp only [bind_eq_ok, next_eq_ok, pure_eq_ok] at h
    obtain ⟨t, _, rfl, rfl, rfl⟩ := h
    exact ⟨[t], rfl, .inl (.toChained (.thisWord t hk.symm))⟩
  · exact newExpr_eq_ok hinner h
  · simp only [mark, bind_eq_ok, next_eq_ok, expect_eq_ok, pure_eq_ok] at h
    obtain ⟨l, _, rfl, e, _, he, r, _, ⟨rfl, hr⟩, rfl, rfl⟩ := h
    obtain ⟨us, rfl, hus⟩ := hinner.expr he
    exact ⟨l :: (us ++ [r]), by simp, .inl (.toChained (.parentheses l r hk.symm hr hus))⟩
  · simp only [objectLiteral, mark, bind_eq_ok, expect_eq_ok, pure_eq_ok] at h
    obtain ⟨l, _, ⟨rfl, hl⟩, ps, _, hps, r, _, ⟨rfl, hr⟩, rfl, rfl⟩ := h
    obtain ⟨us, rfl, hus⟩ := yields_listedAt .closeBrace (property_eq_ok hinner) _ hps
    refine ⟨l :: (us ++ [r]), by simp, .inl (.toChained ?_)⟩
    exact .object l r hl hr (placed_properties hus)
  · simp only [arrayLiteral, mark, bind_eq_ok, expect_eq_ok, pure_eq_ok] at h
    obtain ⟨l, _, ⟨rfl, hl⟩, es, _, hes, r, _, ⟨rfl, hr⟩, rfl, rfl⟩ := h
    obtain ⟨us, rfl, hus⟩ := yields_listed .closeBracket hinner.expr hes
    refine ⟨l :: (us ++ [r]), by simp, .inl (.toChained ?_)⟩
    exact .array l r hl hr (placed_elements hus)
  · exact absurd h fail_ne_ok

/-- The suffixes behind what `us` writes.  The induction is on how many more there may be, with the
expression read so far as what varies. -/
theorem suffixesAt_eq_ok (hinner : inner.Places templates env) (n : Nat) {e e' : Expr}
    {us ts rest : List Token} (he : PlacedFirst templates e us ts)
    (h : suffixesAt inner n e env ts = .ok e' rest) :
    ∃ vs, ts = vs ++ rest ∧ Placed templates (.expr .indexed e') (us ++ vs) := by
  have hindexed : ∀ {e : Expr} {us ts : List Token}, PlacedFirst templates e us ts →
      Placed templates (.expr .indexed e) us := by
    rintro e us ts (h | h)
    · exact .toIndexed h
    · exact h.1
  induction n generalizing e us ts with
  | zero =>
    obtain ⟨rfl, rfl⟩ := pure_eq_ok.mp h
    exact ⟨[], rfl, by simpa using hindexed he⟩
  | succ n ih =>
    simp only [suffixesAt, bind_eq_ok, peek_eq_ok] at h
    obtain ⟨k, _, ⟨hk, rfl⟩, h⟩ := h
    split at h
    · simp only [bind_eq_ok, next_eq_ok] at h
      obtain ⟨d, _, rfl, x, _, hx, h⟩ := h
      obtain ⟨t, rfl, ht, rfl⟩ := propertyName_eq_ok hx
      -- A point cannot follow a `new` without arguments, which would have taken it.
      have hchained := he.resolve_right fun hne ↦ hne.2 (by rw [← hk]; decide)
      obtain ⟨vs, rfl, hvs⟩ := ih (.inl (.member d t hk.symm ht hchained (hchained.pos_eq rfl _))) h
      exact ⟨d :: t :: vs, rfl, by simpa using hvs⟩
    · simp only [mark, bind_eq_ok, next_eq_ok, expect_eq_ok] at h
      obtain ⟨l, _, rfl, key, _, hkey, r, _, ⟨rfl, hr⟩, h⟩ := h
      obtain ⟨ws, rfl, hws⟩ := hinner.expr hkey
      obtain ⟨vs, rfl, hvs⟩ := ih (.inl (.index l r hk.symm hr (hindexed he) hws
        ((hindexed he).pos_eq rfl _))) h
      exact ⟨l :: (ws ++ r :: vs), by simp, by simpa using hvs⟩
    · simp only [bind_eq_ok] at h
      obtain ⟨es, _, hes, h⟩ := h
      obtain ⟨l, ws, r, rfl, hl, hr, hws⟩ := arguments_eq_ok hinner hes
      have hchained := he.resolve_right fun hne ↦ hne.2 (by rw [← hk]; decide)
      obtain ⟨vs, rfl, hvs⟩ := ih (.inl (.call l r hl hr hchained hws (hchained.pos_eq rfl _))) h
      exact ⟨l :: (ws ++ r :: vs), by simp, by simpa using hvs⟩
    · obtain ⟨rfl, rfl⟩ := pure_eq_ok.mp h
      exact ⟨[], rfl, by simpa using hindexed he⟩

theorem yields_suffixed (henv : env.ReadsAt templates) (hinner : inner.Places templates env) :
    Yields env (suffixed inner) fun e ↦ Placed templates (.expr .suffixed e) := by
  intro ts e rest h
  simp only [suffixed, bind_eq_ok, check_eq_ok] at h
  obtain ⟨first, _, hfirst, e', _, hsuffixes, _, _, ⟨rfl, rfl⟩, h⟩ := h
  obtain ⟨us, rfl, hus⟩ := primary_eq_ok henv hinner hfirst
  obtain ⟨vs, rfl, hvs⟩ := suffixesAt_eq_ok hinner _ hus hsuffixes
  split at h
  · rename_i hop
    simp only [bind_eq_ok, next_eq_ok, pure_eq_ok] at h
    obtain ⟨op, _, rfl, rfl, rfl⟩ := h
    refine ⟨us ++ vs ++ [op], by simp, .updateAfter op ?_ hvs (hvs.pos_eq rfl _)⟩
    exact List.contains_iff_mem.mp hop
  · obtain ⟨rfl, rfl⟩ := pure_eq_ok.mp h
    exact ⟨us ++ vs, by simp, .toSuffixed hvs⟩

theorem yields_unaryExpr (henv : env.ReadsAt templates) (hinner : inner.Places templates env) :
    Yields env (unaryExpr inner) fun e ↦ Placed templates (.expr (.binary []) e) := by
  intro ts e rest h
  simp only [unaryExpr, bind_eq_ok, peek_eq_ok] at h
  obtain ⟨k, _, ⟨rfl, rfl⟩, h⟩ := h
  split at h
  · rename_i hop
    simp only [bind_eq_ok, next_eq_ok, pure_eq_ok] at h
    obtain ⟨op, _, rfl, e, _, he, rfl, rfl⟩ := h
    obtain ⟨us, rfl, hus⟩ := hinner.unary he
    exact ⟨op :: us, rfl, .unary op hop hus⟩
  split at h
  · rename_i hop
    simp only [bind_eq_ok, next_eq_ok, pure_eq_ok] at h
    obtain ⟨op, _, rfl, e, _, he, rfl, rfl⟩ := h
    obtain ⟨us, rfl, hus⟩ := hinner.unary he
    exact ⟨op :: us, rfl, .updateBefore op hop hus⟩
  · obtain ⟨us, rfl, hus⟩ := yields_suffixed henv hinner h
    exact ⟨us, rfl, .toUnary hus⟩

/-- The chain of one level behind its first operand `us`.  What was read so far is always the left
operand, so chains group to the left. -/
theorem chainAt_eq_ok {ops : List Kind} {tighter : List (List Kind)} {operand : Parse Expr}
    (hlevels : ops :: tighter <:+ binaryLevels)
    (hoperand : Yields env operand fun e ↦ Placed templates (.expr (.binary tighter) e)) (n : Nat)
    {e e' : Expr} {us ts rest : List Token}
    (he : Placed templates (.expr (.binary (ops :: tighter)) e) us)
    (h : chainAt operand ops n e env ts = .ok e' rest) :
    ∃ vs, ts = vs ++ rest ∧ Placed templates (.expr (.binary (ops :: tighter)) e') (us ++ vs) := by
  induction n generalizing e us ts with
  | zero =>
    obtain ⟨rfl, rfl⟩ := pure_eq_ok.mp h
    exact ⟨[], rfl, by simpa using he⟩
  | succ n ih =>
    simp only [chainAt, bind_eq_ok, check_eq_ok] at h
    obtain ⟨_, _, ⟨rfl, rfl⟩, h⟩ := h
    split at h
    · rename_i hop
      simp only [bind_eq_ok, next_eq_ok] at h
      obtain ⟨op, _, rfl, r, _, hr, h⟩ := h
      obtain ⟨ws, rfl, hws⟩ := hoperand hr
      have hmem : op.kind ∈ ops := List.contains_iff_mem.mp hop
      obtain ⟨vs, rfl, hvs⟩ := ih (.binary op hlevels hmem he hws (he.pos_eq rfl _)) h
      exact ⟨op :: (ws ++ vs), by simp, by simpa using hvs⟩
    · obtain ⟨rfl, rfl⟩ := pure_eq_ok.mp h
      exact ⟨[], rfl, by simpa using he⟩

/-- By induction on the levels, of which the tightest is that of unary expressions. -/
theorem yields_binaryExpr (henv : env.ReadsAt templates) (hinner : inner.Places templates env)
    {levels : List (List Kind)} (hlevels : levels <:+ binaryLevels) :
    Yields env (binaryExpr inner levels) fun e ↦ Placed templates (.expr (.binary levels) e) := by
  induction levels with
  | nil => exact yields_unaryExpr henv hinner
  | cons ops tighter ih =>
    have hoperand := ih ((List.suffix_cons ops tighter).trans hlevels)
    intro ts e rest h
    simp only [binaryExpr, bind_eq_ok] at h
    obtain ⟨left, _, hleft, h⟩ := h
    obtain ⟨us, rfl, hus⟩ := hoperand hleft
    obtain ⟨vs, rfl, hvs⟩ := chainAt_eq_ok hlevels hoperand _ (.toBinary hlevels hus) h
    exact ⟨us ++ vs, by simp, hvs⟩

/-- A conditional expression is a choice, which cannot be assigned to, or a binary expression. -/
theorem conditionalExpr_eq_ok (henv : env.ReadsAt templates)
    (hinner : inner.Places templates env) {ts rest : List Token} {e : Expr}
    (h : conditionalExpr inner env ts = .ok e rest) : ∃ used, ts = used ++ rest ∧
      Placed templates (.expr .conditional e) used ∧
      (isTarget e = true → Placed templates (.expr (.binary binaryLevels) e) used) := by
  simp only [conditionalExpr, atMark, bind_eq_ok, check_eq_ok] at h
  obtain ⟨test, _, htest, _, _, ⟨rfl, rfl⟩, h⟩ := h
  obtain ⟨us, rfl, hus⟩ := yields_binaryExpr henv hinner List.suffix_rfl htest
  split at h
  · rename_i hquestion
    simp only [mark, bind_eq_ok, next_eq_ok, expect_eq_ok, pure_eq_ok] at h
    obtain ⟨q, _, rfl, yes, _, hyes, c, _, ⟨rfl, hc⟩, no, _, hno, rfl, rfl⟩ := h
    obtain ⟨vs, rfl, hvs⟩ := hinner.expr hyes
    obtain ⟨ws, rfl, hws⟩ := hinner.expr hno
    refine ⟨us ++ q :: (vs ++ c :: ws), by simp, ?_, fun ht ↦ by cases ht⟩
    exact .conditional q c (by simpa using hquestion) hc hus hvs hws (hus.pos_eq rfl _)
  · obtain ⟨rfl, rfl⟩ := pure_eq_ok.mp h
    exact ⟨us, rfl, .toConditional hus, fun _ ↦ hus⟩

/-- What stands on the left of an assignment is a target, so it is not a choice. -/
theorem yields_assignmentExpr (henv : env.ReadsAt templates)
    (hinner : inner.Places templates env) :
    Yields env (assignmentExpr inner) fun e ↦ Placed templates (.expr .assignment e) := by
  intro ts e rest h
  simp only [assignmentExpr, bind_eq_ok, check_eq_ok] at h
  obtain ⟨left, _, hleft, _, _, ⟨rfl, rfl⟩, h⟩ := h
  obtain ⟨us, rfl, hus, htarget⟩ := conditionalExpr_eq_ok henv hinner hleft
  split at h
  · rename_i hop
    simp only [bind_eq_ok, next_eq_ok] at h
    obtain ⟨op, _, rfl, h⟩ := h
    split at h
    · rename_i hassignable
      simp only [bind_eq_ok, pure_eq_ok] at h
      obtain ⟨value, _, hvalue, rfl, rfl⟩ := h
      obtain ⟨vs, rfl, hvs⟩ := hinner.expr hvalue
      have hleft := htarget hassignable
      refine ⟨us ++ op :: vs, by simp, .assign op ?_ hassignable hleft hvs (hleft.pos_eq rfl _)⟩
      exact List.contains_iff_mem.mp hop
    · exact absurd h throw_ne_ok
  · obtain ⟨rfl, rfl⟩ := pure_eq_ok.mp h
    exact ⟨us, rfl, .toAssignment hus⟩

/-! ### Closing the recursion -/

/-- The parsers unrolled `n` times.  Unrolled no more, they refuse everything. -/
theorem places_exprAt (henv : env.ReadsAt templates) (n : Nat) :
    Inner.Places templates env ⟨exprAt n, unaryAt n⟩ := by
  induction n with
  | zero => exact ⟨fun _ _ _ h ↦ absurd h fail_ne_ok, fun _ _ _ h ↦ absurd h fail_ne_ok⟩
  | succ n ih => exact ⟨yields_assignmentExpr henv ih, yields_unaryExpr henv ih⟩

/-- **Only writings of an expression are parsed to it**, and it stands where they do. -/
theorem places_expr (henv : env.ReadsAt templates) :
    Yields env expr fun e ↦ Placed templates (.expr .assignment e) :=
  fun _ _ _ h ↦ yields_assignmentExpr henv (places_exprAt henv _) h

theorem places_whole (henv : env.ReadsAt templates) : whole.Places templates env :=
  ⟨places_expr henv, fun _ _ _ h ↦ yields_unaryExpr henv (places_exprAt henv _) h⟩

end Expressions

/-! ## Without positions -/

section Writings

/-- What `templates` says of the text of a token. -/
def atTokens (templates : Text → List Text → List Expr → Prop) (t : Token) (cs : List Text)
    (hs : List Expr) : Prop :=
  ∃ w, t.lexeme = .text w ∧ templates w cs hs

variable {templates : Text → List Text → List Expr → Prop}

theorem templates_of_atTokens (t : Token) (w : Text) (cs : List Text) (hs : List Expr)
    (hw : t.lexeme = .text w) (h : atTokens templates t cs hs) : templates w cs hs := by
  obtain ⟨w', hw', h⟩ := h
  obtain rfl := Lexeme.text.inj (hw.symm.trans hw')
  exact h

/-- A context that reads only the described templates reads them where they stand. -/
theorem Context.ReadsOnly.readsAt (henv : env.ReadsOnly templates) :
    env.ReadsAt (atTokens templates) := by
  intro t ts rest e h
  obtain ⟨rfl, w, p, cs, hs, hw, rfl, hholes⟩ := henv h
  refine ⟨rfl, w, cs, hs, hw, ?_, w, hw, hholes⟩
  simp only [templateLiteral, bind_eq_ok, pure_eq_ok] at h
  obtain ⟨_, _, -, _, _, -, heq, -⟩ := h
  cases heq
  rfl

theorem yields_expr (henv : env.ReadsOnly templates) :
    Yields env expr fun e ↦ Written templates (.expr .assignment e) := by
  intro ts e rest h
  obtain ⟨used, hts, hused⟩ := places_expr henv.readsAt h
  exact ⟨used, hts, hused.written templates_of_atTokens⟩

theorem written_identifierExpr (t : Token) (ht : t.kind = .identifier) :
    Written templates (.expr .primary (identifierExpr t)) [t] := by
  have hplaced : Placed (fun _ _ _ ↦ False) (.expr .primary (identifierExpr t)) [t] :=
    placed_identifierExpr t ht
  exact hplaced.written fun _ _ _ _ _ h ↦ h.elim

/-- What a primary expression may be, positions apart. -/
def WrittenFirst (templates : Text → List Text → List Expr → Prop) (e : Expr)
    (used rest : List Token) : Prop :=
  Written templates (.expr .chained e) used ∨
    Written templates (.expr .indexed e) used ∧ nextKind rest ∉ Slot.indexed.goesOn

theorem written_primary (henv : env.ReadsOnly templates) {ts rest : List Token} {e : Expr}
    (h : primary whole env ts = .ok e rest) :
    ∃ used, ts = used ++ rest ∧ WrittenFirst templates e used rest := by
  obtain ⟨used, hts, hused⟩ := primary_eq_ok henv.readsAt (places_whole henv.readsAt) h
  refine ⟨used, hts, hused.imp (fun h ↦ h.written templates_of_atTokens) fun h ↦ ?_⟩
  exact ⟨h.1.written templates_of_atTokens, h.2⟩

/-- A conditional expression that can be assigned to is a binary expression. -/
theorem written_target (henv : env.ReadsOnly templates) {ts rest : List Token} {e : Expr}
    (h : conditionalExpr whole env ts = .ok e rest) (htarget : isTarget e = true) :
    ∃ used, ts = used ++ rest ∧ Written templates (.expr (.binary binaryLevels) e) used := by
  obtain ⟨used, hts, -, hused⟩ := conditionalExpr_eq_ok henv.readsAt (places_whole henv.readsAt) h
  exact ⟨used, hts, (hused htarget).written templates_of_atTokens⟩

theorem written_items {es : List Expr} {ts : List Token}
    (h : WrittenSeparated (fun e ↦ Written templates (.expr .assignment e)) es ts) :
    Written templates (.items es) ts := by
  induction h with
  | last he => exact .lastItem he
  | more c hc he _ ih => exact .moreItems c hc he ih

theorem written_elements {es : List Expr} {ts : List Token}
    (h : WrittenListed (fun e ↦ Written templates (.expr .assignment e)) es ts) :
    Written templates (.elements es) ts := by
  induction h with
  | nil => exact .noElements
  | last he => exact .lastElement he
  | more c hc he _ ih => exact .moreElements c hc he ih

theorem written_properties {ps : List (Lexeme × Expr)} {ts : List Token}
    (h : WrittenListed (fun x ↦ Written templates (.property x.1 x.2)) ps ts) :
    Written templates (.properties ps) ts := by
  induction h with
  | nil => exact .noProperties
  | last he => exact .lastProperty he
  | more c hc he _ ih => exact .moreProperties c hc he ih

end Writings

end Advplc.Grammar

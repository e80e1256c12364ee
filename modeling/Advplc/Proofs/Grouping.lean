import Advplc.Proofs.Grammar.Places
import Advplc.Proofs.Grammar.Regular
import Advplc.Proofs.Grammar.RoundTrip
import Advplc.Proofs.Layout
import Advplc.Proofs.Token.Delimited
import Advplc.Lowering.Expr

/-!
# Generated arithmetic keeps its grouping

Names, integers, arithmetic, comparisons, calls and indices are written alike in both languages, so
what is generated for such an expression can be read back as source text.  `parseExpr_print` says
that it is read back as the expression it was generated for, where the expression is tight
(`isTight`): what is called, indexed or updated does not itself begin or end with an operator.

Without that condition it fails (`index_of_negation`).  Binary expressions are always put in
parentheses, and operands of unary operators where they need it, but not what stands before a
bracket, an argument list or `++`.

The proof follows the way the expression was written.  `Legible` says what the tokens of a text are
and that this does not depend on its surroundings, and has one lemma for each way to put texts
together.
-/

set_option autoImplicit false

namespace Advplc.Grammar

open Script Lowering

/-! ## Texts and their tokens -/

/-- The text consists of the given tokens, behind any token and before whatever is delimited.  Of
what follows it is known which tokens it consists of behind the end of an operand, if `operand`
holds, and otherwise behind anything. -/
def Consists (operand : Bool) (t : Text) (ts : List Token) : Prop :=
  (.scalar '\r') ∉ t ∧ ∀ (before : Option Kind) (r : Text) (gs : List (Kind × Lexeme)),
    r.Delimited → (∀ k, (operand = true → Rule.regexAllowed k = false) → Scans k r gs) →
      Scans before (t ++ r) (ts.map Token.form ++ gs)

/-- The text of nothing has no tokens. -/
theorem consists_nothing : Consists false [] [] :=
  ⟨List.not_mem_nil, fun before _ _ _ hgs ↦ hgs before nofun⟩

/-- The text of an operand, which consists of the given tokens. -/
abbrev Legible (t : Text) (ts : List Token) : Prop := Consists true t ts

theorem return_not_mem_spelling (m : Mark) : (.scalar '\r') ∉ m.spelling := by cases m <;> decide

/-- The brackets that can stand behind an operand. -/
def brackets : List (Mark × Mark) := [(.openParen, .closeParen), (.openBracket, .closeBracket)]

theorem of_mem_brackets {l r : Mark} (h : (l, r) ∈ brackets) :
    (l ∈ Rule.solidMarks ∧ ∃ c ∈ delimiters, l.spelling.head? = some c) ∧
      (r ∈ Rule.solidMarks ∧ ∃ c ∈ delimiters, r.spelling.head? = some c) ∧
      Rule.regexAllowed (some (.mark r)) = false := by
  have hall : ∀ p ∈ brackets,
      (p.1 ∈ Rule.solidMarks ∧ ∃ c ∈ delimiters, p.1.spelling.head? = some c) ∧
        (p.2 ∈ Rule.solidMarks ∧ ∃ c ∈ delimiters, p.2.spelling.head? = some c) ∧
        Rule.regexAllowed (some (.mark p.2)) = false := by decide
  exact hall (l, r) h

theorem of_mem_updateOps {m : Mark} (h : .mark m ∈ updateOps) :
    m ∈ Rule.solidMarks ∧ (∃ c ∈ delimiters, m.spelling.head? = some c) ∧
      Rule.regexAllowed (some (.mark m)) = false := by
  obtain rfl | rfl : m = .increment ∨ m = .decrement := by simpa [updateOps] using h
  · decide
  · decide

namespace Legible

variable {t u : Text} {ts us : List Token}

/-- The text alone consists of the tokens. -/
theorem scans (h : Legible t ts) : Scans none t (ts.map Token.form) := by
  have := h.2 none [] [] .nil fun k _ ↦ .done k
  rwa [List.append_nil, List.append_nil] at this

theorem name {x : Token} {b : Option Kind} (hkind : x.kind = .identifier)
    (hlexeme : x.lexeme = .text t)
    (h : Rule.first? b t = some (some .identifier, t.length)) : Legible t [x] := by
  have hform : x.form = (.identifier, .text t) := by rw [Token.form, hkind, hlexeme]
  refine ⟨fun hreturn ↦ ?_, fun before r gs hr hgs ↦ ?_⟩
  · obtain ⟨c, v, rfl, -, hletters⟩ := Rule.continuesIdentifier_of_first? h
    cases hletters _ hreturn
  · rw [List.map_singleton, hform]
    exact .cons (Rule.first?_name h hr before) (hgs _ fun _ ↦ rfl)

theorem numeral {x : Token} {n : Nat} (hkind : x.kind = .number) (hlexeme : x.lexeme = .text t)
    (h : t.natural? = some n) : Legible t [x] := by
  have hform : x.form = (.number, .text t) := by rw [Token.form, hkind, hlexeme]
  refine ⟨fun hreturn ↦ ?_, fun before r gs hr hgs ↦ ?_⟩
  · cases (Text.isDigit_of_natural? h).2 _ hreturn
  · rw [List.map_singleton, hform]
    exact .cons (Rule.first?_numeral h hr before) (hgs _ fun _ ↦ rfl)

/-- What stands between brackets. -/
theorem scans_bracketed {l r : Mark} (hbrackets : (l, r) ∈ brackets) {operand : Bool}
    (hu : Consists operand u us) {before : Option Kind} {x : Text} {gs : List (Kind × Lexeme)}
    (hgs : ∀ k, Rule.regexAllowed k = false → Scans k x gs) :
    Scans before (l.spelling ++ (u ++ (r.spelling ++ x)))
      ((markToken l).form :: (us.map Token.form ++ ((markToken r).form :: gs))) := by
  obtain ⟨⟨hl, -⟩, ⟨hr, hhead⟩, hends⟩ := of_mem_brackets hbrackets
  refine .cons (Rule.first?_solid before hl _) ?_
  refine hu.2 _ _ _ (.of_head hhead x) fun k _ ↦ ?_
  exact .cons (Rule.first?_solid _ hr x) (hgs _ hends)

theorem parentheses (hu : Legible u us) :
    Legible ("(" ++ u ++ ")") (markToken .openParen :: (us ++ [markToken .closeParen])) := by
  refine ⟨by simp [hu.1, Text.ofString], fun before x gs hx hgs ↦ ?_⟩
  simp only [List.append_assoc, List.map_append, List.map_cons, List.cons_append]
  exact scans_bracketed (l := .openParen) (r := .closeParen) (by decide) hu fun k hk ↦
    hgs k fun _ ↦ hk

/-- Brackets behind an operand: those of an index, or of arguments. -/
theorem bracketed {l r : Mark} (hbrackets : (l, r) ∈ brackets) (ht : Legible t ts)
    {operand : Bool} (hu : Consists operand u us) :
    Legible (t ++ l.spelling ++ u ++ r.spelling) (ts ++ markToken l :: (us ++ [markToken r])) := by
  obtain ⟨⟨-, hhead⟩, -⟩ := of_mem_brackets hbrackets
  refine ⟨?_, fun before x gs hx hgs ↦ ?_⟩
  · simp [ht.1, hu.1, return_not_mem_spelling]
  simp only [List.append_assoc, List.map_append, List.map_cons, List.cons_append]
  refine ht.2 _ _ _ (.of_head hhead _) fun k _ ↦ ?_
  exact scans_bracketed hbrackets hu fun k hk ↦ hgs k fun _ ↦ hk

theorem comma (ht : Legible t ts) (hu : Legible u us) :
    Legible (t ++ ", " ++ u) (ts ++ markToken .comma :: us) := by
  refine ⟨by simp [ht.1, hu.1, Text.ofString], fun before x gs hx hgs ↦ ?_⟩
  simp only [List.append_assoc, List.map_append, List.map_cons, List.cons_append]
  refine ht.2 _ _ _ (.cons (by decide) _) fun k _ ↦ ?_
  refine .cons (Rule.first?_solid _ (m := .comma) (by decide) (.scalar ' ' :: (u ++ x))) ?_
  rw [scans_cons_blank (by decide)]
  exact hu.2 _ x gs hx hgs

theorem update {m : Mark} (hm : .mark m ∈ updateOps) (ht : Legible t ts) :
    Legible (m.spelling ++ t) (markToken m :: ts) := by
  refine ⟨by simp [ht.1, return_not_mem_spelling], fun before x gs hx hgs ↦ ?_⟩
  rw [List.append_assoc]
  exact .cons (Rule.first?_solid before (of_mem_updateOps hm).1 _) (ht.2 _ x gs hx hgs)

theorem updated {m : Mark} (hm : .mark m ∈ updateOps) (ht : Legible t ts) :
    Legible (t ++ m.spelling) (ts ++ [markToken m]) := by
  obtain ⟨hsolid, hhead, hends⟩ := of_mem_updateOps hm
  refine ⟨by simp [ht.1, return_not_mem_spelling], fun before x gs hx hgs ↦ ?_⟩
  rw [List.append_assoc, List.map_append, List.append_assoc]
  refine ht.2 _ _ _ (.of_head hhead x) fun k _ ↦ ?_
  exact .cons (Rule.first?_solid _ hsolid x) (hgs _ fun _ ↦ hends)

theorem sign {m : Mark} (hm : m = .plus ∨ m = .minus) {c : CodePoint} (hc : c ∉ ("+-=" : Text))
    (ht : Legible (c :: t) ts) : Legible (m.spelling ++ c :: t) (markToken m :: ts) := by
  refine ⟨?_, fun before x gs hx hgs ↦ ?_⟩
  · rw [List.mem_append, not_or]
    exact ⟨return_not_mem_spelling m, ht.1⟩
  rw [List.append_assoc]
  exact .cons (Rule.first?_sign before hm hc _) (ht.2 _ x gs hx hgs)

/-- Two operands and an operator between them, with blanks. -/
theorem operator {m : Mark} (hm : m ∈ Rule.operatorMarks) (ht : Legible t ts)
    (hu : Legible u us) :
    Legible (t ++ " " ++ m.spelling ++ " " ++ u) (ts ++ markToken m :: us) := by
  refine ⟨by simp [ht.1, hu.1, return_not_mem_spelling, Text.ofString], fun before x gs hx hgs ↦ ?_⟩
  simp only [List.append_assoc, List.map_append, List.map_cons, List.cons_append]
  refine ht.2 _ _ _ (.cons (by decide) _) fun k hk ↦ ?_
  refine (scans_cons_blank (by decide)).mpr ?_
  refine .cons (Rule.first?_operator _ hm (hk rfl) (u ++ x)) ?_
  exact (scans_cons_blank (by decide)).mpr (hu.2 _ x gs hx hgs)

end Legible

/-! ## The expressions in question -/

/-- The operators of arithmetic and comparison that are written alike in both languages. -/
def sharedOperators : List Lexeme := ["+", "-", "*", "/", "%", "<", ">", "<=", ">=", "==", "!="]

/-- Whether an expression is the name of a function that has another name in ADVPL. -/
def isRenamed : Expr → Bool
  | .name _ n => (globalFunctions.lookup n).isSome
  | _ => false

mutual

/-- Whether an expression is made of what is written alike in both languages: names, integers,
signs, updates, arithmetic, comparisons, indices and calls of functions that keep their names. -/
def isShared : Expr → Bool
  | .name _ _ => true
  | .number p n => (natural? (.number p n)).isSome
  | .unary _ op e => (op = "-" ∨ op = "+") && isShared e
  | .update _ _ _ e => isShared e
  | .binary _ op l r => op ∈ sharedOperators && isShared l && isShared r
  | .index _ o k => isShared o && isShared k
  | .call _ f as => !isRenamed f && isShared f && areShared as
  | _ => false

/-- Whether each of the expressions is. -/
def areShared : List Expr → Bool
  | [] => true
  | e :: es => isShared e && areShared es

end

mutual

/-- Whether nothing that is indexed, called or updated by an operator behind it is itself a unary
expression or an update. -/
def isTight : Expr → Bool
  | .unary _ _ e | .update _ _ .before e => isTight e
  | .update _ _ .after e => !startsWithOperator e && isTight e
  | .binary _ _ l r => isTight l && isTight r
  | .index _ o k => !startsWithOperator o && isTight o && isTight k
  | .call _ f as => !startsWithOperator f && isTight f && areTight as
  | _ => true

/-- Whether this holds for each of the expressions. -/
def areTight : List Expr → Bool
  | [] => true
  | e :: es => isTight e && areTight es

end

/-! ## The way back -/

/-- No template is needed to write these expressions. -/
abbrev Plain (phrase : Phrase) (ts : List Token) : Prop := Written (fun _ _ _ ↦ False) phrase ts

/-- What is generated for the expression can be read, and writes the expression: as an operand, and
if it does not begin or end with an operator, also before brackets. -/
def Regained (e : Expr) : Prop :=
  ∃ x us, lower e = .ok x ∧ Legible x.print us ∧ Plain (.expr (.binary []) e) us ∧
    (startsWithOperator e = false →
      Plain (.expr .chained e) us ∧ ∃ c t, x.print = c :: t ∧ c ∉ ("+-=" : Text))

/-- What is generated for the items of a list can be read, and writes them. -/
def ItemsRegained (es : List Expr) : Prop :=
  ∃ xs us, xs ≠ [] ∧ lowerAll es = .ok xs ∧
    Legible (Target.commaList (Target.Expr.printAll xs)) us ∧ Plain (.items es) us

/-- What is generated for arguments can be read, and writes them. -/
def ArgumentsRegained (es : List Expr) : Prop :=
  ∃ xs us operand, lowerAll es = .ok xs ∧
    Consists operand (Target.commaList (Target.Expr.printAll xs)) us ∧ Plain (.arguments es) us

namespace Regained

variable {e : Expr}

/-- An operand that may stand before brackets may stand anywhere. -/
theorem of_chained {x : Target.Expr} {us : List Token} (hlower : lower e = .ok x)
    (hlegible : Legible x.print us) (h : Plain (.expr .chained e) us)
    (hhead : ∃ c t, x.print = c :: t ∧ c ∉ ("+-=" : Text)) : Regained e :=
  ⟨x, us, hlower, hlegible, .toUnary (.toSuffixed (.toIndexed h)), fun _ ↦ ⟨h, hhead⟩⟩

theorem name {t : Token} (p : Option Pos) (ht : t.kind = .identifier)
    (hw : t.lexeme ∉ (["true", "false", "null", "undefined"] : List Lexeme)) (hnamed : t.Named) :
    Regained (.name p t.lexeme) := by
  obtain ⟨w, b, hlexeme, hfirst⟩ := hnamed ht
  obtain ⟨c, v, rfl, hc, -⟩ := Rule.continuesIdentifier_of_first? hfirst
  refine of_chained (x := .name (c :: v)) (by rw [lower, hlexeme]; rfl) (.name ht hlexeme hfirst)
    (.toChained (.name p t ht hw)) ⟨c, v, rfl, fun hsign ↦ ?_⟩
  have hall : ∀ d ∈ ("+-=" : Text), Rule.startsIdentifier d = false := by decide
  rw [hall c hsign] at hc
  cases hc

theorem number {t : Token} (p : Option Pos) (ht : t.kind = .number)
    (hnatural : (natural? (.number p t.lexeme)).isSome = true) : Regained (.number p t.lexeme) := by
  obtain ⟨n, hn⟩ := Option.isSome_iff_exists.mp hnatural
  cases hlexeme : t.lexeme with
  | number i => rw [hlexeme] at hn; cases hn
  | absent => rw [hlexeme] at hn; cases hn
  | text w =>
    rw [hlexeme] at hn
    have hw : w.natural? = some n := hn
    obtain ⟨hne, hdigits⟩ := Text.isDigit_of_natural? hw
    obtain ⟨c, v, rfl⟩ := List.exists_cons_of_ne_nil hne
    have hwritten : Plain (.expr .primary (.number p t.lexeme)) [t] := .number p t ht
    rw [hlexeme] at hwritten
    refine of_chained (x := .number (c :: v)) (by rw [lower]; rfl) (.numeral ht hlexeme hw)
      (.toChained hwritten) ⟨c, v, rfl, fun hsign ↦ ?_⟩
    have hall : ∀ d ∈ ("+-=" : Text), CodePoint.isDigit d = false := by decide
    have hc := hdigits c List.mem_cons_self
    rw [hall c hsign] at hc
    cases hc

/-- What is generated, in parentheses, may stand anywhere. -/
theorem grouped (h : Regained e) : ∃ x us, lower e = .ok x ∧ Legible ("(" ++ x.print ++ ")") us ∧
    Plain (.expr .primary e) us := by
  obtain ⟨x, us, hx, hlegible, hwritten, -⟩ := h
  exact ⟨x, _, hx, hlegible.parentheses,
    .parentheses _ _ rfl rfl (.ofBinary (.climb List.suffix_rfl hwritten))⟩

theorem index {o k : Expr} (p : Option Pos) (ho : Regained o) (hk : Regained k)
    (hplain : startsWithOperator o = false) : Regained (.index p o k) := by
  obtain ⟨x, us, hx, hlegible, -, hchained⟩ := ho
  obtain ⟨y, vs, hy, hkey, hwritten, -⟩ := hk
  obtain ⟨ho, c, t, hprint, hc⟩ := hchained hplain
  have hindex : Plain (.expr .chained (.index p o k))
      (us ++ markToken .openBracket :: (vs ++ [markToken .closeBracket])) :=
    .index p _ _ rfl rfl (.toIndexed ho) (.ofBinary (.climb List.suffix_rfl hwritten))
  refine of_chained (by rw [lower, hx, hy]; rfl) ?_ hindex ?_
  · rw [Target.Expr.print]
    exact hlegible.bracketed (l := .openBracket) (r := .closeBracket) (by decide) hkey
  · rw [Target.Expr.print, hprint]
    exact ⟨c, _, rfl, hc⟩

theorem lower_call {f : Expr} {as : List Expr} {p : Option Pos} {x : Target.Expr}
    {xs : List Target.Expr} (hf : lower f = .ok x) (has : lowerAll as = .ok xs)
    (hshared : isShared f = true) (hkeeps : isRenamed f = false) :
    lower (.call p f as) = .ok (.call x xs) := by
  cases f with
  | name q n =>
    rw [isRenamed, Option.isSome_eq_false_iff, Option.isNone_iff_eq_none] at hkeeps
    rw [lower] at hf
    cases hf
    rw [lower, has, hkeeps]
    rfl
  | number | unary | update | binary | index | call =>
    rw [lower, has, hf]
    · rfl
    all_goals nofun
  | _ => cases hshared

theorem call {f : Expr} {as : List Expr} (p : Option Pos) (hf : Regained f)
    (has : ArgumentsRegained as) (hplain : startsWithOperator f = false)
    (hshared : isShared f = true) (hkeeps : isRenamed f = false) : Regained (.call p f as) := by
  obtain ⟨x, us, hx, hlegible, -, hchained⟩ := hf
  obtain ⟨xs, vs, operand, hxs, harguments, hwritten⟩ := has
  obtain ⟨hf, c, t, hprint, hc⟩ := hchained hplain
  have hcall : Plain (.expr .chained (.call p f as))
      (us ++ markToken .openParen :: (vs ++ [markToken .closeParen])) :=
    .call p _ _ rfl rfl hf hwritten
  refine of_chained (lower_call hx hxs hshared hkeeps) ?_ hcall ?_
  · rw [Target.Expr.print, Target.callText]
    exact hlegible.bracketed (l := .openParen) (r := .closeParen) (by decide) harguments
  · rw [Target.Expr.print, Target.callText, hprint]
    exact ⟨c, _, rfl, hc⟩

theorem updateAfter {m : Mark} (p : Option Pos) (hm : .mark m ∈ updateOps) (he : Regained e)
    (hplain : startsWithOperator e = false) : Regained (.update p m.spelling .after e) := by
  obtain ⟨x, us, hx, hlegible, -, hchained⟩ := he
  refine ⟨.after m.spelling x, us ++ [markToken m], by rw [lower, hx]; rfl, ?_, ?_, nofun⟩
  · rw [Target.Expr.print]
    exact hlegible.updated hm
  · exact .toUnary (.updateAfter p (markToken m) hm (.toIndexed (hchained hplain).1))

theorem updateBefore {m : Mark} (p : Option Pos) (hm : .mark m ∈ updateOps) (he : Regained e) :
    Regained (.update p m.spelling .before e) := by
  obtain ⟨x, us, hx, hlegible, hwritten, -⟩ := he
  refine ⟨.before m.spelling x, markToken m :: us, by rw [lower, hx]; rfl, ?_, ?_, nofun⟩
  · rw [Target.Expr.print]
    exact hlegible.update hm
  · exact .updateBefore p (markToken m) hm hwritten

theorem unary {m : Mark} (p : Option Pos) (hm : m = .plus ∨ m = .minus) (he : Regained e) :
    Regained (.unary p m.spelling e) := by
  have hlookup : unaryOperators.lookup (m.spelling : Lexeme) = some m.spelling := by
    obtain rfl | rfl := hm <;> rfl
  have hop : (markToken m).kind ∈ unaryOps := by obtain rfl | rfl := hm <;> decide
  cases hstarts : startsWithOperator e with
  | false =>
    obtain ⟨x, us, hx, hlegible, hwritten, hchained⟩ := he
    obtain ⟨-, c, t, hprint, hc⟩ := hchained hstarts
    refine ⟨.before m.spelling x, markToken m :: us, ?_, ?_, .unary p (markToken m) hop hwritten,
      nofun⟩
    · rw [lower, hlookup, hx]
      simp only [unaryOperand, hstarts]
      rfl
    · rw [Target.Expr.print, hprint]
      exact .sign hm hc (hprint ▸ hlegible)
  | true =>
    obtain ⟨x, us, hx, hlegible, hwritten⟩ := he.grouped
    refine ⟨.before m.spelling (.group x), markToken m :: us, ?_, ?_,
      .unary p (markToken m) hop (.ofPrimary hwritten), nofun⟩
    · rw [lower, hlookup, hx]
      simp only [unaryOperand, hstarts]
      rfl
    · rw [Target.Expr.print, Target.Expr.print]
      exact .sign hm (c := '(') (by decide) hlegible

theorem binary {m : Mark} {l r : Expr} {ops : List Kind} {tighter : List (List Kind)}
    (p : Option Pos) (hlevels : ops :: tighter <:+ binaryLevels) (hop : .mark m ∈ ops)
    (hm : m ∈ Rule.operatorMarks) (hl : Regained l) (hr : Regained r) :
    Regained (.binary p m.spelling l r) := by
  obtain ⟨x, us, hx, hleft, hwrittenl, -⟩ := hl
  obtain ⟨y, vs, hy, hright, hwrittenr, -⟩ := hr
  have hlookup : ∀ m ∈ Rule.operatorMarks,
      binaryOperators.lookup (m.spelling : Lexeme) = some m.spelling := by decide
  have hbinary : Plain (.expr (.binary (ops :: tighter)) (.binary p m.spelling l r))
      (us ++ markToken m :: vs) :=
    .binary p (markToken m) hlevels hop (.climb hlevels hwrittenl)
      (.climb ((List.suffix_cons ops tighter).trans hlevels) hwrittenr)
  have hgroup : Plain (.expr .primary (.binary p m.spelling l r))
      (markToken .openParen :: (us ++ markToken m :: vs ++ [markToken .closeParen])) :=
    .parentheses _ _ rfl rfl (.ofBinary (.loosen hlevels hbinary))
  refine of_chained (x := .binary m.spelling x y) ?_ ?_ (.toChained hgroup) ?_
  · rw [lower, hlookup m hm, hx, hy]
    rfl
  · have := (Legible.operator hm hleft hright).parentheses
    simpa only [Target.Expr.print, List.append_assoc] using this
  · rw [Target.Expr.print]
    exact ⟨.scalar '(', _, rfl, by decide⟩

end Regained

/-! ### Lists -/

theorem ItemsRegained.last {e : Expr} (he : Regained e) : ItemsRegained [e] := by
  obtain ⟨x, us, hx, hlegible, hwritten, -⟩ := he
  refine ⟨[x], us, List.cons_ne_nil x [], by rw [lowerAll, hx]; rfl, ?_,
    .lastItem (.ofBinary (.climb List.suffix_rfl hwritten))⟩
  simpa [Target.commaList, Text.joinWith, Target.Expr.printAll] using hlegible

theorem commaList_cons (x : Target.Expr) {xs : List Target.Expr} (hxs : xs ≠ []) :
    Target.commaList (Target.Expr.printAll (x :: xs)) =
      x.print ++ ", " ++ Target.commaList (Target.Expr.printAll xs) := by
  obtain ⟨y, ys, rfl⟩ := List.exists_cons_of_ne_nil hxs
  simp [Target.commaList, Text.joinWith, Target.Expr.printAll, List.intercalate]

theorem ItemsRegained.more {e : Expr} {es : List Expr} (he : Regained e) (hes : ItemsRegained es) :
    ItemsRegained (e :: es) := by
  obtain ⟨x, us, hx, hlegible, hwritten, -⟩ := he
  obtain ⟨xs, vs, hne, hxs, hlegibles, hwrittens⟩ := hes
  refine ⟨x :: xs, us ++ markToken .comma :: vs, List.cons_ne_nil x xs,
    by rw [lowerAll, hx, hxs]; rfl, ?_,
    .moreItems _ rfl (.ofBinary (.climb List.suffix_rfl hwritten)) hwrittens⟩
  rw [commaList_cons x hne]
  exact hlegible.comma hlegibles

theorem ArgumentsRegained.none : ArgumentsRegained [] :=
  ⟨[], [], false, rfl, consists_nothing, .noArguments⟩

theorem ItemsRegained.arguments {es : List Expr} (h : ItemsRegained es) : ArgumentsRegained es := by
  obtain ⟨xs, us, -, hxs, hlegible, hwritten⟩ := h
  exact ⟨xs, us, true, hxs, hlegible, .someArguments hwritten⟩

/-! ### All expressions -/

/-- Whether the expressions of a phrase are written alike in both languages, and are tight. -/
def Phrase.isKept : Phrase → Bool
  | .expr _ e => isShared e && isTight e
  | .arguments es | .items es => areShared es && areTight es
  | _ => false

/-- What is generated for a phrase writes it. -/
def Phrase.Regained : Phrase → Prop
  | .expr _ e => Grammar.Regained e
  | .arguments es => ArgumentsRegained es
  | .items es => ItemsRegained es
  | _ => True

theorem mark_of_update {t : Token} (ht : t.kind ∈ updateOps) (hspelled : t.Spelled) :
    ∃ m, .mark m ∈ updateOps ∧ t.lexeme = .text m.spelling := by
  obtain hkind | hkind : t.kind = .mark .increment ∨ t.kind = .mark .decrement := by
    simpa [updateOps] using ht
  · exact ⟨.increment, by decide, hspelled _ hkind⟩
  · exact ⟨.decrement, by decide, hspelled _ hkind⟩

theorem sign_of_unary {op : Lexeme} (hop : op = "-" ∨ op = "+") :
    ∃ m : Mark, (m = .plus ∨ m = .minus) ∧ op = .text m.spelling := by
  obtain hop | hop := hop
  · exact ⟨.minus, .inr rfl, hop⟩
  · exact ⟨.plus, .inl rfl, hop⟩

theorem mark_of_operator {t : Token} {ops : List Kind} {tighter : List (List Kind)}
    (hlevels : ops :: tighter <:+ binaryLevels) (ht : t.kind ∈ ops) (hspelled : t.Spelled)
    (hop : t.lexeme ∈ sharedOperators) :
    ∃ m, t.kind = .mark m ∧ m ∈ Rule.operatorMarks ∧ t.lexeme = .text m.spelling := by
  have hmarks : ∀ ops ∈ binaryLevels, ∀ k ∈ ops, ∃ m ∈ Mark.all, k = .mark m := by decide
  have hshared : ∀ m ∈ Mark.all, .text m.spelling ∈ sharedOperators → m ∈ Rule.operatorMarks := by
    decide
  obtain ⟨m, hm, hkind⟩ := hmarks ops (hlevels.subset List.mem_cons_self) _ ht
  have hlexeme := hspelled m hkind
  exact ⟨m, hkind, hshared m hm (hlexeme ▸ hop), hlexeme⟩

/-- **What is generated for an expression writes that expression.** -/
theorem Written.regained {templates : Text → List Text → List Expr → Prop} {phrase : Phrase}
    {ts : List Token} (h : Written templates phrase ts) (hts : ∀ t ∈ ts, t.Spelled ∧ t.Named)
    (hkept : phrase.isKept = true) : phrase.Regained := by
  induction h with
  | number p t ht =>
    rw [Phrase.isKept, isShared, Bool.and_eq_true] at hkept
    exact .number p ht hkept.1
  | name p t ht hw => exact .name p ht hw (hts t List.mem_cons_self).2
  | parentheses l r hl hr _ ih => exact ih (fun t ht ↦ hts t (by simp [ht])) hkept
  | index p l r hl hr _ _ iho ihk =>
    simp only [Phrase.isKept, isShared, isTight, Bool.and_eq_true, Bool.not_eq_true']
      at hkept iho ihk
    obtain ⟨⟨ho, hk⟩, ⟨hplain, hto⟩, htk⟩ := hkept
    exact .index p (iho (fun t ht ↦ hts t (by simp [ht])) ⟨ho, hto⟩)
      (ihk (fun t ht ↦ hts t (by simp [ht])) ⟨hk, htk⟩) hplain
  | call p l r hl hr _ _ ihf ihas =>
    simp only [Phrase.isKept, isShared, isTight, Bool.and_eq_true, Bool.not_eq_true']
      at hkept ihf ihas
    obtain ⟨⟨⟨hkeeps, hf⟩, has⟩, ⟨hplain, htf⟩, htas⟩ := hkept
    exact .call p (ihf (fun t ht ↦ hts t (by simp [ht])) ⟨hf, htf⟩)
      (ihas (fun t ht ↦ hts t (by simp [ht])) ⟨has, htas⟩) hplain hf hkeeps
  | updateAfter p op hop _ ih =>
    simp only [Phrase.isKept, isShared, isTight, Bool.and_eq_true, Bool.not_eq_true'] at hkept ih
    obtain ⟨m, hm, hlexeme⟩ := mark_of_update hop (hts op (by simp)).1
    rw [hlexeme]
    exact .updateAfter p hm (ih (fun t ht ↦ hts t (by simp [ht])) ⟨hkept.1, hkept.2.2⟩) hkept.2.1
  | updateBefore p op hop _ ih =>
    rw [List.forall_mem_cons] at hts
    obtain ⟨m, hm, hlexeme⟩ := mark_of_update hop hts.1.1
    rw [hlexeme]
    exact .updateBefore p hm (ih hts.2 hkept)
  | unary p op hop _ ih =>
    rw [List.forall_mem_cons] at hts
    simp only [Phrase.isKept, isShared, isTight, Bool.and_eq_true, decide_eq_true_eq] at hkept ih
    obtain ⟨m, hm, hlexeme⟩ := sign_of_unary hkept.1.1
    rw [hlexeme]
    exact .unary p hm (ih hts.2 ⟨hkept.1.2, hkept.2⟩)
  | binary p op hlevels hop _ _ ihl ihr =>
    rw [List.forall_mem_append, List.forall_mem_cons] at hts
    simp only [Phrase.isKept, isShared, isTight, Bool.and_eq_true, decide_eq_true_eq]
      at hkept ihl ihr
    obtain ⟨⟨⟨hshared, hl⟩, hr⟩, htl, htr⟩ := hkept
    obtain ⟨m, hkind, hm, hlexeme⟩ := mark_of_operator hlevels hop hts.2.1.1 hshared
    rw [hkind] at hop
    rw [hlexeme]
    exact .binary p hlevels hop hm (ihl hts.1 ⟨hl, htl⟩) (ihr hts.2.2 ⟨hr, htr⟩)
  | noArguments => exact .none
  | someArguments _ ih => exact (ih hts hkept).arguments
  | lastItem _ ih =>
    simp only [Phrase.isKept, areShared, areTight, Bool.and_true] at hkept ih
    exact .last (ih hts hkept)
  | moreItems c hc _ _ ihe ihes =>
    rw [List.forall_mem_append, List.forall_mem_cons] at hts
    simp only [Phrase.isKept, areShared, areTight, Bool.and_eq_true] at hkept ihe ihes
    obtain ⟨⟨he, hes⟩, hte, htes⟩ := hkept
    exact .more (ihe hts.1 ⟨he, hte⟩) (ihes hts.2.2 ⟨hes, htes⟩)
  | toAssignment _ ih | toConditional _ ih | toBinary _ _ ih | toUnary _ ih | toSuffixed _ ih
  | toIndexed _ ih | toChained _ ih => exact ih hts hkept
  | _ => first | exact trivial | cases hkept

/-! ## The round trip -/

/-- **What is generated for an expression is read back as that expression**, for expressions that
are written alike in both languages and are tight. -/
theorem parseExpr_print {source : Text} {p : Pos} {e : Expr} (h : parseExpr source p = .ok e)
    (hshared : isShared e = true) (htight : isTight e = true) :
    ∃ x e', lower e = .ok x ∧ parseExpr x.print Pos.origin = .ok e' ∧ e.same e' = true := by
  obtain ⟨ts, rest, htokens, hexpr, hend⟩ := holeAt_eq_ok.mp h
  obtain ⟨used, rfl, hwritten⟩ := yields_expr (readsOnly_filled _) hexpr
  obtain rfl := eq_nil_of_tokenize htokens hend
  rw [List.append_nil] at htokens
  have hapart := (List.isChain_map Token.form).mpr hwritten.apart
  have hnamed := ((tokenize_eq_ok_iff p).mpr ⟨_, htokens, rfl⟩).named hapart
  have hnative : e.native = true := native_holeAt _ h
  obtain ⟨x, us, hx, hlegible, hplain, -⟩ := hwritten.regained
    (fun t ht ↦ ⟨spelled_of_tokenize htokens t ht, hnamed t ht⟩)
    (by rw [Phrase.isKept, hshared, htight]; rfl)
  have hscans := hlegible.scans
  rw [← joinLineEnds_of_not_mem hlegible.1, tokenize_eq_ok_iff Pos.origin] at hscans
  obtain ⟨vs, hvs, hforms⟩ := hscans
  have hwhole := (Written.ofBinary (.climb List.suffix_rfl hplain)).recast hforms
  have htaken : Takes ⟨endPosition vs Pos.origin, holeAt x.print.length⟩ .assignment e vs :=
    hwhole.taken fun _ _ _ hfalse ↦ hfalse.elim
  obtain ⟨-, e', hbare, htakes⟩ := htaken
  have hread := htakes [] (by decide)
  rw [List.append_nil] at hread
  refine ⟨x, e', hx, holeAt_eq_ok.mpr ⟨vs, [], hvs, hread, rfl⟩, ?_⟩
  exact (Expr.same_iff e e' hnative).mpr hbare.symm

/-- The expression `-f(a - b)[i]++` keeps its grouping; it has two pairs of parentheses more than
it needs. -/
theorem parseExpr_print_sample :
    ∃ e x e', parseExpr "-(f((a-b))[i]++)" Pos.origin = .ok e ∧ isShared e = true ∧
      isTight e = true ∧ lower e = .ok x ∧ x.print = "-(f((a - b))[i]++)" ∧
      parseExpr x.print Pos.origin = .ok e' ∧ e.same e' = true := by
  let ts : List Token :=
    [⟨.mark .minus, "-", ⟨1, 1⟩⟩, ⟨.mark .openParen, "(", ⟨1, 2⟩⟩, ⟨.identifier, "f", ⟨1, 3⟩⟩,
     ⟨.mark .openParen, "(", ⟨1, 4⟩⟩, ⟨.mark .openParen, "(", ⟨1, 5⟩⟩, ⟨.identifier, "a", ⟨1, 6⟩⟩,
     ⟨.mark .minus, "-", ⟨1, 7⟩⟩, ⟨.identifier, "b", ⟨1, 8⟩⟩, ⟨.mark .closeParen, ")", ⟨1, 9⟩⟩,
     ⟨.mark .closeParen, ")", ⟨1, 10⟩⟩, ⟨.mark .openBracket, "[", ⟨1, 11⟩⟩,
     ⟨.identifier, "i", ⟨1, 12⟩⟩, ⟨.mark .closeBracket, "]", ⟨1, 13⟩⟩,
     ⟨.mark .increment, "++", ⟨1, 14⟩⟩, ⟨.mark .closeParen, ")", ⟨1, 16⟩⟩]
  have hts : tokenize "-(f((a-b))[i]++)" Pos.origin = .ok ts :=
    tokenize_of_toOption (by decide +kernel)
  have hparse : parseExpr "-(f((a-b))[i]++)" Pos.origin = .ok _ :=
    holeAt_eq_ok.mpr ⟨ts, [], hts, rfl, rfl⟩
  obtain ⟨x, e', hx, hread, hsame⟩ := parseExpr_print hparse rfl rfl
  cases hx
  exact ⟨_, _, e', hparse, rfl, rfl, rfl, rfl, hread, hsame⟩

/-- **Grouping is lost before a bracket**: the code for `(-x)[0]` is `-x[0]`, which is read as the
negation of `x[0]`. -/
theorem index_of_negation :
    ∃ e x e', parseExpr "(-x)[0]" Pos.origin = .ok e ∧ isShared e = true ∧ lower e = .ok x ∧
      x.print = "-x[0]" ∧ parseExpr x.print Pos.origin = .ok e' ∧ e.same e' = false := by
  let ts : List Token :=
    [⟨.mark .openParen, "(", ⟨1, 1⟩⟩, ⟨.mark .minus, "-", ⟨1, 2⟩⟩, ⟨.identifier, "x", ⟨1, 3⟩⟩,
     ⟨.mark .closeParen, ")", ⟨1, 4⟩⟩, ⟨.mark .openBracket, "[", ⟨1, 5⟩⟩, ⟨.number, "0", ⟨1, 6⟩⟩,
     ⟨.mark .closeBracket, "]", ⟨1, 7⟩⟩]
  let us : List Token :=
    [⟨.mark .minus, "-", ⟨1, 1⟩⟩, ⟨.identifier, "x", ⟨1, 2⟩⟩, ⟨.mark .openBracket, "[", ⟨1, 3⟩⟩,
     ⟨.number, "0", ⟨1, 4⟩⟩, ⟨.mark .closeBracket, "]", ⟨1, 5⟩⟩]
  have hts : tokenize "(-x)[0]" Pos.origin = .ok ts := tokenize_of_toOption (by decide +kernel)
  have hus : tokenize "-x[0]" Pos.origin = .ok us := tokenize_of_toOption (by decide +kernel)
  have hparse : parseExpr "(-x)[0]" Pos.origin = .ok _ := holeAt_eq_ok.mpr ⟨ts, [], hts, rfl, rfl⟩
  have hread : parseExpr "-x[0]" Pos.origin = .ok _ := holeAt_eq_ok.mpr ⟨us, [], hus, rfl, rfl⟩
  exact ⟨_, _, _, hparse, rfl, rfl, rfl, hread, rfl⟩

end Advplc.Grammar

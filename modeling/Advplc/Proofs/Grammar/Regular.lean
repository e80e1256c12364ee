import Advplc.Proofs.Grammar.Places
import Advplc.Proofs.Script.Parts
import Advplc.Proofs.Token.Content

/-!
# What is parsed can be used

The operators of the grammar are marks, and the lexer writes a mark in one way only.  Every one of
these writings has a counterpart, and a template has a chunk more than it has holes.  So no
expression of a program that was parsed is unusable (`regular_of_tokenize`).

This is one case of what the induction over the grammar shows: a property that no node has by
itself, no expression has anywhere inside (`Written.spared`).  Inside the hole of a template the
same holds of the tokens of its source, which is why the induction is repeated for every depth at
which templates nest.
-/

set_option autoImplicit false

namespace Advplc

namespace Grammar

open Script

/-! ## Operators -/

/-- Whether a kind is a mark that stands in the table. -/
def Kind.isIn (table : List (Lexeme × Text)) : Kind → Bool
  | .mark m => (table.lookup (.text m.spelling)).isSome
  | _ => false

theorem isSome_lookup {table : List (Lexeme × Text)} {kinds : List Kind}
    (hall : kinds.all (Kind.isIn table) = true) {t : Token} (ht : t.kind ∈ kinds)
    (hspelled : t.Spelled) : (table.lookup t.lexeme).isSome = true := by
  have hin := List.all_eq_true.mp hall _ ht
  cases hk : t.kind with
  | mark m =>
    rw [hk] at hin
    rw [hspelled m hk]
    exact hin
  | _ =>
    rw [hk] at hin
    cases hin

theorem isSome_binary {ops : List Kind} {tighter : List (List Kind)}
    (hlevels : ops :: tighter <:+ binaryLevels) {t : Token} (ht : t.kind ∈ ops)
    (hspelled : t.Spelled) : (Lowering.binaryOperators.lookup t.lexeme).isSome = true := by
  have hall : binaryLevels.flatten.all (Kind.isIn Lowering.binaryOperators) = true := by decide
  refine isSome_lookup hall ?_ hspelled
  exact List.mem_flatten.mpr ⟨ops, hlevels.subset List.mem_cons_self, ht⟩

theorem isSome_unary {t : Token} (ht : t.kind ∈ unaryOps) (hspelled : t.Spelled) :
    (Lowering.unaryOperators.lookup t.lexeme).isSome = true :=
  isSome_lookup (by decide) ht hspelled

theorem isSome_assignment {t : Token} (ht : t.kind ∈ assignmentOps) (hspelled : t.Spelled) :
    (Lowering.assignmentOperators.lookup t.lexeme).isSome = true :=
  isSome_lookup (by decide) ht hspelled

/-! ## Properties of nodes -/

/-- Whether a node has no name, no numeral and no operator of its own. -/
def wordless : Expr → Bool
  | .string _ _ | .boolean _ _ | .null _ | .this _ | .conditional _ _ _ _ | .object _ _ | .array _ _
  | .index _ _ _ | .call _ _ _ | .new _ _ _ => true
  | _ => false

/-- No node that is read from tokens with the property `T` has the property `p`, whatever stands
inside it. -/
structure Spares (T : Token → Prop) (p : Expr → Bool) : Prop where
  number (q : Option Pos) {t : Token} (ht : T t) (hkind : t.kind = .number) :
    p (.number q t.lexeme) = false
  name (q : Option Pos) {t : Token} (ht : T t) (hkind : t.kind = .identifier) :
    p (.name q t.lexeme) = false
  member (q r : Option Pos) (e : Expr) {t : Token} (ht : T t) (hname : Token.NamesProperty t) :
    p (.member q e t.lexeme r) = false
  update (q : Option Pos) (side : Side) (e : Expr) {t : Token} (ht : T t)
    (hkind : t.kind ∈ updateOps) : p (.update q t.lexeme side e) = false
  unary (q : Option Pos) (e : Expr) {t : Token} (ht : T t) (hkind : t.kind ∈ unaryOps) :
    p (.unary q t.lexeme e) = false
  binary (q : Option Pos) (l r : Expr) {t : Token} (ht : T t) {ops : List Kind}
    {tighter : List (List Kind)} (hlevels : ops :: tighter <:+ binaryLevels)
    (hkind : t.kind ∈ ops) : p (.binary q t.lexeme l r) = false
  assign (q : Option Pos) (target value : Expr) {t : Token} (ht : T t)
    (hkind : t.kind ∈ assignmentOps) : p (.assign q t.lexeme target value) = false
  template (q : Option Pos) {cs : List Text} {hs : List Expr}
    (hcount : cs.length = hs.length + 1) : p (.template q cs hs) = false
  wordless {e : Expr} (he : wordless e = true) : p e = false

/-- Whether no expression of a phrase, nor one inside it, has a property. -/
def Phrase.Spared (p : Expr → Bool) : Phrase → Prop
  | .expr _ e | .callee e | .property _ e => e.has p = false
  | .arguments es | .items es | .elements es => Expr.someHas p es = false
  | .properties ps => Expr.someHas p (ps.map Prod.snd) = false

section Spared

variable {templates : Text → List Text → List Expr → Prop} {ts : List Token} {T : Token → Prop}
  {p : Expr → Bool}

/-- **What no node has that is read from certain tokens, nothing has that is written with them**,
where it is not in the holes of templates. -/
theorem Written.spared (hp : Spares T p)
    (htemplates : ∀ ⦃w cs hs⦄, templates w cs hs →
      cs.length = hs.length + 1 ∧ Expr.someHas p hs = false)
    {phrase : Phrase} (h : Written templates phrase ts) (hts : ∀ t ∈ ts, T t) :
    phrase.Spared p := by
  have hsingle {e : Expr} (he : e.has p = false) : Expr.someHas p [e] = false :=
    (Expr.someHas_single p e).trans he
  have hmore {e : Expr} {es : List Expr} (he : e.has p = false) (hes : Expr.someHas p es = false) :
      Expr.someHas p (e :: es) = false := by rw [Expr.someHas_cons, he, hes]; rfl
  induction h with
  | number q t ht =>
    exact (Bool.or_false _).trans (hp.number q (hts t List.mem_cons_self) ht)
  | name q t ht | calleeName q t ht | shorthand q t ht =>
    exact (Bool.or_false _).trans (hp.name q (hts t List.mem_cons_self) ht)
  | template q t w cs hs ht hw hholes =>
    obtain ⟨hcount, hnone⟩ := htemplates hholes
    rw [Phrase.Spared, Expr.has_template, hp.template q hcount, hnone]
    rfl
  | unary q op hop _ ih =>
    rw [List.forall_mem_cons] at hts
    rw [Phrase.Spared, Expr.has_unary, hp.unary q _ hts.1 hop, ih hts.2]
    rfl
  | binary q op hlevels hop _ _ ihl ihr =>
    rw [List.forall_mem_append, List.forall_mem_cons] at hts
    rw [Phrase.Spared, Expr.has_binary, hp.binary q _ _ hts.2.1 hlevels hop, ihl hts.1, ihr hts.2.2]
    rfl
  | assign q op hop _ _ _ iht ihv =>
    rw [List.forall_mem_append, List.forall_mem_cons] at hts
    rw [Phrase.Spared, Expr.has_assign, hp.assign q _ _ hts.2.1 hop, iht hts.1, ihv hts.2.2]
    rfl
  | conditional _ _ _ _ _ _ _ _ iht ihy ihn =>
    simp only [List.forall_mem_append, List.forall_mem_cons] at hts
    rw [Phrase.Spared, Expr.has_conditional, hp.wordless rfl, iht hts.1, ihy hts.2.2.1,
      ihn hts.2.2.2.2]
    rfl
  | object _ _ _ _ _ _ ih =>
    simp only [List.forall_mem_append, List.forall_mem_cons] at hts
    rw [Phrase.Spared, Expr.has_object, hp.wordless rfl, ih hts.2.1]
    rfl
  | array _ _ _ _ _ _ ih =>
    simp only [List.forall_mem_append, List.forall_mem_cons] at hts
    rw [Phrase.Spared, Expr.has_array, hp.wordless rfl, ih hts.2.1]
    rfl
  | new _ _ _ _ _ _ _ _ _ ihe ihes =>
    simp only [List.forall_mem_append, List.forall_mem_cons] at hts
    rw [Phrase.Spared, Expr.has_new, hp.wordless rfl, ihe hts.2.1, ihes hts.2.2.2.1]
    rfl
  | newBare _ _ _ _ ih =>
    rw [List.forall_mem_cons] at hts
    rw [Phrase.Spared, Expr.has_new, hp.wordless rfl, ih hts.2]
    rfl
  | member q r d n _ hn _ ih | calleeMember q r d n _ hn _ ih =>
    simp only [List.forall_mem_append, List.forall_mem_cons] at hts
    rw [Phrase.Spared, Expr.has_member, hp.member q r _ hts.2.2.1 hn, ih hts.1]
    rfl
  | index _ _ _ _ _ _ _ ihe ihk =>
    simp only [List.forall_mem_append, List.forall_mem_cons] at hts
    rw [Phrase.Spared, Expr.has_index, hp.wordless rfl, ihe hts.1, ihk hts.2.2.1]
    rfl
  | call _ _ _ _ _ _ _ ihe ihes =>
    simp only [List.forall_mem_append, List.forall_mem_cons] at hts
    rw [Phrase.Spared, Expr.has_call, hp.wordless rfl, ihe hts.1, ihes hts.2.2.1]
    rfl
  | updateAfter q op hop _ ih =>
    simp only [List.forall_mem_append, List.forall_mem_cons] at hts
    rw [Phrase.Spared, Expr.has_update, hp.update q _ _ hts.2.1 hop, ih hts.1]
    rfl
  | updateBefore q op hop _ ih =>
    rw [List.forall_mem_cons] at hts
    rw [Phrase.Spared, Expr.has_update, hp.update q _ _ hts.1 hop, ih hts.2]
    rfl
  | parentheses _ _ _ _ _ ih =>
    simp only [List.forall_mem_append, List.forall_mem_cons] at hts
    exact ih hts.2.1
  | keyed _ _ _ _ _ ih =>
    rw [List.forall_mem_cons, List.forall_mem_cons] at hts
    exact ih hts.2.2
  | lastItem _ ih | lastElement _ ih | lastProperty _ ih => exact hsingle (ih hts)
  | moreItems _ _ _ _ ihe ihes | moreElements _ _ _ _ ihe ihes | moreProperties _ _ _ _ ihe ihes =>
    rw [List.forall_mem_append, List.forall_mem_cons] at hts
    exact hmore (ihe hts.1) (ihes hts.2.2)
  | toAssignment _ ih | toConditional _ ih | toBinary _ _ ih | toUnary _ ih | toSuffixed _ ih
  | toIndexed _ ih | toChained _ ih | someArguments _ ih => exact ih hts
  | string | trueWord | falseWord | nullWord | thisWord =>
    exact (Bool.or_false _).trans (hp.wordless rfl)
  | noArguments | noElements | noProperties => rfl

end Spared

/-! ## What is written -/

section Written

/-- Whether each template has one chunk more than holes, and nothing unusable in its holes. -/
def RegularTemplates (templates : Text → List Text → List Expr → Prop) : Prop :=
  ∀ ⦃w cs hs⦄, templates w cs hs → cs.length = hs.length + 1 ∧ Expr.AllRegular hs

variable {templates : Text → List Text → List Expr → Prop} {ts : List Token}

/-- Whether no expression of a phrase, nor one inside it, is unusable. -/
def Phrase.Regular : Phrase → Prop
  | .expr _ e | .callee e | .property _ e => e.Regular
  | .arguments es | .items es | .elements es => Expr.AllRegular es
  | .properties ps => Expr.AllRegular (ps.map Prod.snd)

/-- Whether no expression of a clause is unusable. -/
def Clause.Regular : Clause → Prop
  | .stmt _ s => s.Regular
  | .stmts ss | .body _ ss => Stmt.AllRegular ss

/-- What is unusable is not read from the marks of the lexer. -/
theorem spares_unusable : Spares Token.Spelled Expr.unusable where
  number _ _ _ _ := rfl
  name _ _ _ _ := rfl
  member _ _ _ _ _ _ := rfl
  update _ _ _ _ _ _ := rfl
  unary _ _ _ ht hop := Option.isNone_eq_false_iff.mpr (isSome_unary hop ht)
  binary _ _ _ _ ht _ _ hlevels hop := Option.isNone_eq_false_iff.mpr (isSome_binary hlevels hop ht)
  assign _ _ _ _ ht hop := Option.isNone_eq_false_iff.mpr (isSome_assignment hop ht)
  template _ _ _ hcount := decide_eq_false_iff_not.mpr (not_not_intro hcount)
  wordless {e} he := by cases e <;> first | rfl | cases he

/-- **What is written with the marks of the lexer is not unusable**, where templates are not. -/
theorem Written.regular (htemplates : RegularTemplates templates)
    {phrase : Phrase} (h : Written templates phrase ts) (hspelled : ∀ t ∈ ts, t.Spelled) :
    phrase.Regular := by
  have hspared := h.spared spares_unusable htemplates hspelled
  rcases phrase with _ | _ | _ | _ | _ | _ | _ <;> exact hspared

theorem WrittenOption.regular (htemplates : RegularTemplates templates)
    {v : Option Expr} (h : WrittenOption templates v ts) (hspelled : ∀ t ∈ ts, t.Spelled) :
    Expr.AllRegular v.toList := by
  cases h with
  | absent => rfl
  | present he => exact Expr.allRegular_single.mpr (he.regular htemplates hspelled)

theorem WrittenVariable.regular (htemplates : RegularTemplates templates)
    {v : Variable} (h : WrittenVariable templates v ts) (hspelled : ∀ t ∈ ts, t.Spelled) :
    Expr.AllRegular v.value.toList := by
  cases h with
  | declared p w n hw hn hvalue =>
    cases hvalue with
    | absent => rfl
    | present a ha he =>
      simp only [List.forall_mem_cons] at hspelled
      exact Expr.allRegular_single.mpr (he.regular htemplates hspelled.2.2.2)

theorem WrittenInit.regular (htemplates : RegularTemplates templates)
    {i : ForInit} (h : WrittenInit templates i ts) (hspelled : ∀ t ∈ ts, t.Spelled) :
    Expr.AllRegular i.expr?.toList := by
  cases h with
  | nothing => rfl
  | «variable» h => exact h.regular htemplates hspelled
  | expr h => exact Expr.allRegular_single.mpr (h.regular htemplates hspelled)

theorem WrittenStmt.regular (htemplates : RegularTemplates templates)
    {clause : Clause} (h : WrittenStmt templates clause ts) (hspelled : ∀ t ∈ ts, t.Spelled) :
    clause.Regular := by
  induction h with
  | exportDefaultFunction _ _ _ _ _ _ _ ih =>
    rw [List.forall_mem_cons, List.forall_mem_cons] at hspelled
    exact ih hspelled.2.2
  | exportDefault _ _ _ _ _ _ _ h =>
    simp only [List.forall_mem_append, List.forall_mem_cons] at hspelled
    exact Stmt.regular_exportValue.mpr (h.regular htemplates hspelled.2.2.1)
  | exportFunction _ _ _ _ _ ih =>
    rw [List.forall_mem_cons] at hspelled
    exact ih hspelled.2
  | exportVariable _ _ _ _ _ h =>
    rw [List.forall_mem_cons, List.forall_mem_append] at hspelled
    exact Stmt.regular_within.mpr (h.regular htemplates hspelled.2.1)
  | «variable» _ _ h =>
    rw [List.forall_mem_append] at hspelled
    exact Stmt.regular_within.mpr (h.regular htemplates hspelled.1)
  | print _ _ _ _ _ h =>
    rw [List.forall_mem_cons, List.forall_mem_append] at hspelled
    exact Stmt.regular_within.mpr (h.regular htemplates hspelled.2.1)
  | console _ _ _ _ _ _ _ _ _ h =>
    simp only [List.forall_mem_append, List.forall_mem_cons] at hspelled
    exact Stmt.regular_within.mpr (h.regular htemplates hspelled.2.2.1)
  | function _ _ _ _ _ _ _ _ _ _ _ _ _ _ _ ih =>
    simp only [List.forall_mem_append, List.forall_mem_cons] at hspelled
    exact ih hspelled.2.2.2.2.2.2.1
  | ret _ _ _ _ _ h =>
    rw [List.forall_mem_cons, List.forall_mem_append] at hspelled
    exact Stmt.regular_within.mpr (h.regular htemplates hspelled.2.1)
  | ifThen _ _ _ _ _ _ _ htest _ ih =>
    simp only [List.forall_mem_append, List.forall_mem_cons] at hspelled
    exact Stmt.regular_ifThen.mpr ⟨htest.regular htemplates hspelled.2.2.1, ih hspelled.2.2.2.2⟩
  | ifElse _ _ _ _ _ _ _ _ _ htest _ _ ihyes ihno =>
    simp only [List.forall_mem_append, List.forall_mem_cons] at hspelled
    exact Stmt.regular_ifElse.mpr ⟨htest.regular htemplates hspelled.2.2.1,
      ihyes hspelled.2.2.2.2.1, ihno hspelled.2.2.2.2.2.2⟩
  | forLoop _ _ _ _ _ _ _ _ _ _ _ hinit htest hupdate _ ih =>
    simp only [List.forall_mem_append, List.forall_mem_cons] at hspelled
    obtain ⟨-, -, hi, -, ht, -, hu, -, hb⟩ := hspelled
    exact Stmt.regular_forLoop.mpr ⟨hinit.regular htemplates hi, htest.regular htemplates ht,
      hupdate.regular htemplates hu, ih hb⟩
  | whileLoop _ _ _ _ _ _ _ htest _ ih =>
    simp only [List.forall_mem_append, List.forall_mem_cons] at hspelled
    exact Stmt.regular_whileLoop.mpr ⟨htest.regular htemplates hspelled.2.2.1,
      ih hspelled.2.2.2.2⟩
  | expr _ _ _ h =>
    rw [List.forall_mem_append] at hspelled
    exact Stmt.regular_expr.mpr (h.regular htemplates hspelled.1)
  | cons _ _ ihs ihss =>
    rw [List.forall_mem_append] at hspelled
    exact Stmt.allRegular_cons.mpr ⟨ihs hspelled.1, ihss hspelled.2⟩
  | braces _ _ _ _ _ ih =>
    rw [List.forall_mem_cons, List.forall_mem_append] at hspelled
    exact ih hspelled.2.1
  | single _ _ ih => exact Stmt.allRegular_cons.mpr ⟨ih hspelled, rfl⟩
  | _ => rfl

end Written

/-! ## What is parsed -/

section Holes

variable {read : Text → Pos → Except Fault Expr} {o : Outline} {cs : List Text} {hs : List Expr}
  {p : Expr → Bool} {T : Token → Prop}

theorem Filled.spared (hread : ∀ ⦃source q e⦄, read source q = .ok e → e.has p = false)
    (h : Filled read o cs hs) : cs.length = hs.length + 1 ∧ Expr.someHas p hs = false := by
  induction h with
  | last chunk => exact ⟨rfl, rfl⟩
  | hole chunk he _ ih =>
    exact ⟨congrArg (· + 1) ih.1, by rw [Expr.someHas_cons, hread he, ih.2]; rfl⟩

/-- **What no node has that is read from tokens of the lexer, no expression in a hole has.** -/
theorem spared_holeAt (hp : Spares T p)
    (hlexer : ∀ ⦃source q ts⦄, tokenize source q = .ok ts → ∀ t ∈ ts, T t) (n : Nat) :
    ∀ ⦃source q e⦄, holeAt n source q = .ok e → e.has p = false := by
  induction n with
  | zero =>
    intro source q e h
    cases h
  | succ n ih =>
    intro source q e h
    obtain ⟨ts, rest, htokens, hexpr, -⟩ := holeAt_eq_ok.mp h
    obtain ⟨used, rfl, hused⟩ := yields_expr (readsOnly_filled _) hexpr
    have hts := (List.forall_mem_append.mp (hlexer htokens)).1
    exact hused.spared hp (fun _ _ _ ⟨_, hfilled⟩ ↦ hfilled.spared ih) hts

theorem Filled.regular (hread : ∀ ⦃source q e⦄, read source q = .ok e → e.Regular)
    (h : Filled read o cs hs) : cs.length = hs.length + 1 ∧ Expr.AllRegular hs :=
  h.spared hread

/-- Holes are read to expressions that are not unusable. -/
theorem regular_holeAt (n : Nat) : ∀ ⦃source q e⦄, holeAt n source q = .ok e → e.Regular :=
  spared_holeAt spares_unusable (fun _ _ _ ↦ spelled_of_tokenize) n

end Holes

/-- **No expression of a source that is parsed is unusable.** -/
theorem regular_of_tokenize {source : Text} {p : Pos} {ts : List Token}
    (hts : tokenize source p = .ok ts) {prog : Program} (h : parse ts = .ok prog) :
    Stmt.AllRegular prog.body := by
  have hholes : RegularTemplates (filledTemplates readHole) :=
    fun _ _ _ ⟨_, hfilled⟩ ↦ hfilled.regular fun _ _ _ he ↦ regular_holeAt _ he
  exact (written_of_tokenize hts h).regular hholes (spelled_of_tokenize hts)

end Grammar

end Advplc

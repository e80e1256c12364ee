import Advplc.Proofs.Grammar.Regular
import Advplc.Proofs.Script.Tidy
import Advplc.Proofs.Token.Lines

/-!
# What is parsed is tidy

The names, numerals, operators and line comments of a program are taken from tokens that stay on
their lines, so in a program that was parsed they have no line feed in them (`tidy_of_tokenize`).
Strings and templates may go over several lines, but their texts are not among the words that have
to be tidy; what stands in the holes of a template is.

A hole is a source of its own, with tokens of its own, so the tokens of a program say nothing about
it.  As with the operators, the induction over the grammar is repeated for every depth at which
templates nest (`tidy_holeAt`).
-/

set_option autoImplicit false

namespace Advplc

/-- A name holds no line feed. -/
theorem Text.broken_of_isName {w : Text} (h : w.isName = true) : w.broken = false :=
  Text.broken_eq_false_iff.mpr (notMem_of_isName (by decide +kernel) (by decide +kernel) h)

namespace Grammar

open Script

/-! ## Tokens -/

section Tokens

variable {t : Token}

theorem broken_of_identifier (h : t.Tidy) (ht : t.kind = .identifier) :
    t.lexeme.spelled.broken = false := h (by rw [ht]; rfl)

theorem broken_of_number (h : t.Tidy) (ht : t.kind = .number) :
    t.lexeme.spelled.broken = false := h (by rw [ht]; rfl)

theorem broken_of_updateOps (h : t.Tidy) (ht : t.kind ∈ updateOps) :
    t.lexeme.spelled.broken = false := by
  refine h ?_
  obtain ht | ht := List.mem_pair.mp ht <;> rw [ht] <;> rfl

/-- The name of a property is an identifier, or spelled like a name. -/
theorem broken_of_namesProperty (h : t.Tidy) (ht : Token.NamesProperty t) :
    t.lexeme.spelled.broken = false := by
  obtain hidentifier | ⟨w, hw, hname⟩ := ht
  · exact broken_of_identifier h hidentifier
  · rw [hw]
    exact Text.broken_of_isName hname

end Tokens

/-! ## What is written -/

section Written

/-- Whether no template has more holes than chunks, and the words in its holes stay on their
lines. -/
def TidyTemplates (templates : Text → List Text → List Expr → Prop) : Prop :=
  ∀ ⦃w cs hs⦄, templates w cs hs → hs.length ≤ cs.length ∧ Expr.AllTidy hs

variable {templates : Text → List Text → List Expr → Prop} {ts : List Token}

/-- Whether the words of a phrase stay on their lines. -/
def Phrase.Tidy : Phrase → Prop
  | .expr _ e | .callee e | .property _ e => e.Tidy
  | .arguments es | .items es | .elements es => Expr.AllTidy es
  | .properties ps => Expr.AllTidyValues ps

/-- Whether the words of a clause stay on their lines. -/
def Clause.Tidy : Clause → Prop
  | .stmt _ s => s.Tidy
  | .stmts ss | .body _ ss => Stmt.AllTidy ss

/-- **What is written with tokens on their lines is tidy**, where templates are. -/
theorem Written.tidy (htemplates : TidyTemplates templates)
    {phrase : Phrase} (h : Written templates phrase ts) (htidy : ∀ t ∈ ts, t.Tidy) :
    phrase.Tidy := by
  induction h with
  -- Words that go into the tree.
  | number p t ht => exact broken_of_number (htidy t List.mem_cons_self) ht
  | name p t ht | calleeName p t ht | shorthand p t ht =>
    exact broken_of_identifier (htidy t List.mem_cons_self) ht
  | template p t w cs hs ht hw hholes => exact htemplates hholes
  -- Operators are looked up before they are written, and so they need not be tidy themselves.
  | unary p op hop _ ih =>
    rw [List.forall_mem_cons] at htidy
    exact ih htidy.2
  | binary p op hlevels hop _ _ ihl ihr =>
    rw [List.forall_mem_append, List.forall_mem_cons] at htidy
    exact ⟨ihl htidy.1, ihr htidy.2.2⟩
  | assign p op hop _ _ _ iht ihv =>
    rw [List.forall_mem_append, List.forall_mem_cons] at htidy
    exact ⟨iht htidy.1, ihv htidy.2.2⟩
  | conditional _ _ _ _ _ _ _ _ iht ihy ihn =>
    simp only [List.forall_mem_append, List.forall_mem_cons] at htidy
    exact ⟨iht htidy.1, ihy htidy.2.2.1, ihn htidy.2.2.2.2⟩
  -- What stands between marks, and behind words.
  | object _ _ _ _ _ _ ih | array _ _ _ _ _ _ ih =>
    simp only [List.forall_mem_append, List.forall_mem_cons] at htidy
    exact ih htidy.2.1
  | new _ _ _ _ _ _ _ _ _ ihe ihes =>
    simp only [List.forall_mem_append, List.forall_mem_cons] at htidy
    exact ⟨ihe htidy.2.1, ihes htidy.2.2.2.1⟩
  | newBare _ _ _ _ ih =>
    rw [List.forall_mem_cons] at htidy
    exact ⟨ih htidy.2, trivial⟩
  | member p q d n _ hn _ ih | calleeMember p q d n _ hn _ ih =>
    simp only [List.forall_mem_append, List.forall_mem_cons] at htidy
    exact ⟨ih htidy.1, broken_of_namesProperty htidy.2.2.1 hn⟩
  | index _ _ _ _ _ _ _ ihe ihk =>
    simp only [List.forall_mem_append, List.forall_mem_cons] at htidy
    exact ⟨ihe htidy.1, ihk htidy.2.2.1⟩
  | call _ _ _ _ _ _ _ ihe ihes =>
    simp only [List.forall_mem_append, List.forall_mem_cons] at htidy
    exact ⟨ihe htidy.1, ihes htidy.2.2.1⟩
  -- The operator of an update is written as it is.
  | updateAfter p op hop _ ih =>
    simp only [List.forall_mem_append, List.forall_mem_cons] at htidy
    exact ⟨broken_of_updateOps htidy.2.1 hop, ih htidy.1⟩
  | updateBefore p op hop _ ih =>
    rw [List.forall_mem_cons] at htidy
    exact ⟨broken_of_updateOps htidy.1 hop, ih htidy.2⟩
  | parentheses _ _ _ _ _ ih =>
    simp only [List.forall_mem_append, List.forall_mem_cons] at htidy
    exact ih htidy.2.1
  | keyed _ _ _ _ _ ih =>
    rw [List.forall_mem_cons, List.forall_mem_cons] at htidy
    exact ih htidy.2.2
  | lastItem _ ih | lastElement _ ih | lastProperty _ ih => exact ⟨ih htidy, trivial⟩
  -- Lists: the first item, and the others behind a comma.
  | moreItems _ _ _ _ ihe ihes | moreElements _ _ _ _ ihe ihes | moreProperties _ _ _ _ ihe ihes =>
    rw [List.forall_mem_append, List.forall_mem_cons] at htidy
    exact ⟨ihe htidy.1, ihes htidy.2.2⟩
  | toAssignment _ ih | toConditional _ ih | toBinary _ _ ih | toUnary _ ih | toSuffixed _ ih
  | toIndexed _ ih | toChained _ ih | someArguments _ ih => exact ih htidy
  | _ => trivial

theorem WrittenOption.tidy (htemplates : TidyTemplates templates) {v : Option Expr}
    (h : WrittenOption templates v ts) (htidy : ∀ t ∈ ts, t.Tidy) : Expr.AllTidy v.toList := by
  rcases h with _ | he
  · trivial
  · exact ⟨he.tidy htemplates htidy, trivial⟩

/-- The declaration of a variable: its name, and its first value if there is one. -/
theorem WrittenVariable.tidy (htemplates : TidyTemplates templates) {v : Variable}
    (h : WrittenVariable templates v ts) (htidy : ∀ t ∈ ts, t.Tidy) : v.Tidy := by
  rcases h with ⟨p, w, n, hw, hn, hvalue⟩
  simp only [List.forall_mem_cons] at htidy
  refine ⟨broken_of_identifier htidy.2.1 hn, ?_⟩
  rcases hvalue with _ | ⟨a, ha, he⟩
  · trivial
  · rw [List.forall_mem_cons] at htidy
    exact ⟨he.tidy htemplates htidy.2.2.2, trivial⟩

theorem WrittenInit.tidy (htemplates : TidyTemplates templates) {i : ForInit}
    (h : WrittenInit templates i ts) (htidy : ∀ t ∈ ts, t.Tidy) : i.Tidy := by
  rcases h with _ | h | h
  · trivial
  · exact h.tidy htemplates htidy
  · exact h.tidy htemplates htidy

/-- Both names are identifiers. -/
theorem WrittenRenamed.broken {x : Lexeme × Option Lexeme} (h : WrittenRenamed x ts)
    (htidy : ∀ t ∈ ts, t.Tidy) :
    x.1.spelled.broken = false ∧ ∀ n ∈ x.2, n.spelled.broken = false := by
  rcases h with ⟨n, hn⟩ | ⟨n, a, m, hn, ha, has, hm⟩
  · exact ⟨broken_of_identifier (htidy n List.mem_cons_self) hn, by simp⟩
  · simp only [List.forall_mem_cons] at htidy
    refine ⟨broken_of_identifier htidy.1 hn, ?_⟩
    rintro _ ⟨⟩
    exact broken_of_identifier htidy.2.2.1 hm

/-- The text of a name that is exported under another is made of both. -/
theorem WrittenExported.broken {n : Lexeme} (h : WrittenExported n ts)
    (htidy : ∀ t ∈ ts, t.Tidy) : n.spelled.broken = false := by
  rcases h with h | @⟨n, a, _, h⟩
  · exact (h.broken htidy).1
  · obtain ⟨hname, hanother⟩ := h.broken htidy
    show (n.spelled ++ " as " ++ a.spelled).broken = false
    simp [hname, hanother a rfl]

/-- All names of a list are tidy if each is. -/
theorem WrittenListed.broken {item : Lexeme → List Token → Prop} {ns : List Lexeme}
    (hitem : ∀ {n us}, item n us → (∀ t ∈ us, t.Tidy) → n.spelled.broken = false)
    (h : WrittenListed item ns ts) (htidy : ∀ t ∈ ts, t.Tidy) :
    ∀ n ∈ ns, n.spelled.broken = false := by
  induction h with
  | nil => simp
  | last ha => simpa using hitem ha htidy
  | more c hc ha _ ih =>
    rw [List.forall_mem_append, List.forall_mem_cons] at htidy
    exact List.forall_mem_cons.mpr ⟨hitem ha htidy.1, ih htidy.2.2⟩

theorem WrittenSeparated.listed {α : Type} {item : α → List Token → Prop} {as : List α}
    (h : WrittenSeparated item as ts) : WrittenListed item as ts := by
  induction h with
  | last ha => exact .last ha
  | more c hc ha _ ih => exact .more c hc ha ih

/-- The parameters of a function are names. -/
theorem WrittenParameters.broken {ps : List Lexeme} (h : WrittenParameters ps ts)
    (htidy : ∀ t ∈ ts, t.Tidy) : ∀ p ∈ ps, p.spelled.broken = false := by
  rcases h with _ | h
  · simp
  · refine h.listed.broken ?_ htidy
    rintro _ _ ⟨t, ht⟩ htidy
    exact broken_of_identifier (htidy t List.mem_cons_self) ht

/-- **Statements that are written with tokens on their lines are tidy.** -/
theorem WrittenStmt.tidy (htemplates : TidyTemplates templates)
    {clause : Clause} (h : WrittenStmt templates clause ts) (htidy : ∀ t ∈ ts, t.Tidy) :
    clause.Tidy := by
  induction h with
  -- A comment up to the end of its line stays on it.
  | lineComment p t w ht hw =>
    have hone := htidy t List.mem_cons_self (by rw [ht]; rfl)
    rw [hw] at hone
    exact Text.broken_of_subset (List.drop_subset 2 w) hone
  | exportDefaultFunction _ _ _ _ _ _ _ ih =>
    rw [List.forall_mem_cons, List.forall_mem_cons] at htidy
    exact ih htidy.2.2
  | exportDefault _ _ _ _ _ _ _ h =>
    simp only [List.forall_mem_append, List.forall_mem_cons] at htidy
    exact h.tidy htemplates htidy.2.2.1
  | exportFunction _ _ _ _ _ ih =>
    rw [List.forall_mem_cons] at htidy
    exact ih htidy.2
  | exportVariable _ _ _ _ _ h =>
    rw [List.forall_mem_cons, List.forall_mem_append] at htidy
    exact h.tidy htemplates htidy.2.1
  | exportNames _ _ _ _ _ _ _ _ _ h =>
    rw [List.forall_mem_cons, List.forall_mem_cons, List.forall_mem_append] at htidy
    exact h.broken WrittenExported.broken htidy.2.2.1
  | «variable» _ _ h | expr _ _ _ h =>
    rw [List.forall_mem_append] at htidy
    exact h.tidy htemplates htidy.1
  | print _ _ _ _ _ h | ret _ _ _ _ _ h =>
    rw [List.forall_mem_cons, List.forall_mem_append] at htidy
    exact h.tidy htemplates htidy.2.1
  | console _ _ _ _ _ _ _ _ _ h =>
    simp only [List.forall_mem_append, List.forall_mem_cons] at htidy
    exact h.tidy htemplates htidy.2.2.1
  -- Statements with statements inside.
  | function _ _ n _ _ _ _ _ hn _ _ _ _ hps _ ih =>
    simp only [List.forall_mem_append, List.forall_mem_cons] at htidy
    obtain ⟨-, hname, -, hparameters, -, -, hbody, -⟩ := htidy
    exact ⟨broken_of_identifier hname hn, hps.broken hparameters, ih hbody⟩
  | ifThen _ _ _ _ _ _ _ htest _ ih | whileLoop _ _ _ _ _ _ _ htest _ ih =>
    simp only [List.forall_mem_append, List.forall_mem_cons] at htidy
    exact ⟨htest.tidy htemplates htidy.2.2.1, ih htidy.2.2.2.2⟩
  | ifElse _ _ _ _ _ _ _ _ _ htest _ _ ihyes ihno =>
    simp only [List.forall_mem_append, List.forall_mem_cons] at htidy
    exact ⟨htest.tidy htemplates htidy.2.2.1, ihyes htidy.2.2.2.2.1, ihno htidy.2.2.2.2.2.2⟩
  | forLoop _ _ _ _ _ _ _ _ _ _ _ hinit htest hupdate _ ih =>
    simp only [List.forall_mem_append, List.forall_mem_cons] at htidy
    obtain ⟨-, -, hi, -, ht, -, hu, -, hb⟩ := htidy
    exact ⟨hinit.tidy htemplates hi, htest.tidy htemplates ht, hupdate.tidy htemplates hu, ih hb⟩
  | cons _ _ ihs ihss =>
    rw [List.forall_mem_append] at htidy
    exact ⟨ihs htidy.1, ihss htidy.2⟩
  | braces _ _ _ _ _ ih =>
    rw [List.forall_mem_cons, List.forall_mem_append] at htidy
    exact ih htidy.2.1
  | single _ _ ih => exact ⟨ih htidy, trivial⟩
  | _ => trivial

end Written

/-! ## What is parsed -/

/-- The holes of a template are tidy if all that is read in holes is, and there is a chunk before
each. -/
theorem Filled.tidy {read : Text → Pos → Except Fault Expr} {o : Outline} {cs : List Text}
    {hs : List Expr} (hread : ∀ ⦃source p e⦄, read source p = .ok e → e.Tidy)
    (h : Filled read o cs hs) : hs.length ≤ cs.length ∧ Expr.AllTidy hs := by
  induction h with
  | last chunk => exact ⟨Nat.zero_le _, trivial⟩
  | hole chunk he _ ih => exact ⟨Nat.succ_le_succ ih.1, hread he, ih.2⟩

/-- Holes are read to expressions whose words stay on their lines. -/
theorem tidy_holeAt (n : Nat) : ∀ ⦃source p e⦄, holeAt n source p = .ok e → e.Tidy := by
  induction n with
  | zero =>
    intro source p e h
    cases h
  | succ n ih =>
    intro source p e h
    obtain ⟨ts, rest, htokens, hexpr, -⟩ := holeAt_eq_ok.mp h
    -- The hole has tokens of its own, and the templates among them nest one level less.
    obtain ⟨used, rfl, hused⟩ := yields_expr (readsOnly_filled _) hexpr
    have htidy := (List.forall_mem_append.mp (tidy_of_tokenize htokens)).1
    exact hused.tidy (fun _ _ _ ⟨_, hfilled⟩ ↦ hfilled.tidy ih) htidy

/-- **The words of a source that is parsed stay on their lines.** -/
theorem tidy_of_parse {source : Text} {p : Pos} {ts : List Token}
    (hts : tokenize source p = .ok ts) {prog : Program} (h : parse ts = .ok prog) :
    Stmt.AllTidy prog.body := by
  have hholes : TidyTemplates (filledTemplates readHole) :=
    fun _ _ _ ⟨_, hfilled⟩ ↦ hfilled.tidy fun _ _ _ he ↦ tidy_holeAt _ he
  exact (written_of_tokenize hts h).tidy hholes (tidy_of_tokenize hts)

end Grammar

end Advplc

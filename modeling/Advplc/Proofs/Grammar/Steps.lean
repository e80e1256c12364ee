import Advplc.Grammar.Program

/-!
# What the elementary parsers answer

One equation for each elementary parser, for running a rule forward on tokens that are known
(`…_apply`, `…_cons`, `bind_of_ok`), and one equivalence for taking apart the success of a rule
whose tokens are not (`…_eq_ok`).  With them no proof about the grammar has to look inside the monad
or at an elementary parser again.

The equivalences say which tokens were taken, so a run of a rule that succeeded can be unfolded by
`simp only` with them, and what comes out is a list of tokens and a condition on each.
-/

set_option autoImplicit false

namespace Advplc.Grammar

open Script

variable {α β : Type}

/-- The kind of the next token. -/
def nextKind (ts : List Token) : Kind := (ts.head?.map Token.kind).getD .endOfInput

@[simp] theorem nextKind_nil : nextKind [] = .endOfInput := rfl

@[simp] theorem nextKind_cons (t : Token) (ts : List Token) : nextKind (t :: ts) = t.kind := rfl

namespace Parse

/-! ## Sequences -/

theorem bind_apply (p : Parse α) (f : α → Parse β) (env : Context) (ts : List Token) :
    (p >>= f) env ts = match p env ts with
      | .ok a rest => f a env rest
      | .error e rest => .error e rest := rfl

/-- Running a rule forward: what comes next sees the rest of the stream. -/
theorem bind_of_ok {p : Parse α} {env : Context} {ts rest : List Token} {a : α}
    (h : p env ts = .ok a rest) (f : α → Parse β) : (p >>= f) env ts = f a env rest := by
  rw [bind_apply, h]

theorem bind_of_error {p : Parse α} {env : Context} {ts rest : List Token} {e : Fault}
    (h : p env ts = .error e rest) (f : α → Parse β) : (p >>= f) env ts = .error e rest := by
  rw [bind_apply, h]

/-- Grouping does not matter, so rules may be stated in parts. -/
theorem bind_assoc {γ : Type} (p : Parse α) (f : α → Parse β) (g : β → Parse γ) :
    p >>= (fun a ↦ f a >>= g) = p >>= f >>= g := by
  funext env ts
  rw [bind_apply, bind_apply, bind_apply]
  cases p env ts with
  | ok a rest => rfl
  | error e rest => rfl

/-- What takes nothing leaves the stream as it is. -/
theorem pure_eq_ok {a b : α} {env : Context} {ts rest : List Token} :
    (pure a : Parse α) env ts = .ok b rest ↔ b = a ∧ ts = rest := by
  constructor
  · intro h
    cases h
    exact ⟨rfl, rfl⟩
  · rintro ⟨rfl, rfl⟩
    rfl

/-- A sequence succeeds when both of its parts do. -/
theorem bind_eq_ok {p : Parse α} {f : α → Parse β} {env : Context} {ts rest : List Token} {b : β} :
    (p >>= f) env ts = .ok b rest ↔ ∃ a mid, p env ts = .ok a mid ∧ f a env mid = .ok b rest := by
  rw [bind_apply]
  cases p env ts with
  | ok a mid =>
    constructor
    · exact fun h ↦ ⟨a, mid, rfl, h⟩
    · rintro ⟨a', mid', heq, h⟩
      cases heq
      exact h
  | error e mid =>
    constructor
    · exact fun h ↦ by cases h
    · rintro ⟨a', mid', heq, -⟩
      cases heq

/-! ## Looking at the stream -/

theorem peekToken_apply (env : Context) (ts : List Token) :
    peekToken env ts = .ok ts.head? ts := rfl

/-- At the end of the stream there is a kind to be seen as well. -/
theorem peek_apply (env : Context) (ts : List Token) : peek env ts = .ok (nextKind ts) ts := rfl

theorem check_apply (ks : List Kind) (env : Context) (ts : List Token) :
    check ks env ts = .ok (ks.contains (nextKind ts)) ts := rfl

/-- A rule that looks for one of several kinds goes on when it finds one. -/
theorem check_bind_of_mem {ks : List Kind} {ts : List Token} (h : nextKind ts ∈ ks) (env : Context)
    (f : Bool → Parse α) : (check ks >>= f) env ts = f true env ts := by
  rw [bind_of_ok (check_apply ks env ts), List.contains_iff_mem.mpr h]

/-- A rule that looks for one of several kinds goes on when it finds none. -/
theorem check_bind_of_not_mem {ks : List Kind} {ts : List Token} (h : nextKind ts ∉ ks)
    (env : Context) (f : Bool → Parse α) : (check ks >>= f) env ts = f false env ts := by
  have hcontains : ks.contains (nextKind ts) = false := by
    rw [Bool.eq_false_iff]
    exact fun hc ↦ h (List.contains_iff_mem.mp hc)
  rw [bind_of_ok (check_apply ks env ts), hcontains]

/-- Looking takes nothing, and says which of the two it was. -/
theorem check_eq_ok {ks : List Kind} {env : Context} {ts rest : List Token} {b : Bool} :
    check ks env ts = .ok b rest ↔ b = ks.contains (nextKind ts) ∧ ts = rest :=
  @pure_eq_ok _ _ _ env _ _

theorem peek_eq_ok {env : Context} {ts rest : List Token} {k : Kind} :
    peek env ts = .ok k rest ↔ k = nextKind ts ∧ ts = rest := @pure_eq_ok _ _ _ env _ _

theorem peekToken_eq_ok {env : Context} {ts rest : List Token} {t : Option Token} :
    peekToken env ts = .ok t rest ↔ t = ts.head? ∧ ts = rest := @pure_eq_ok _ _ _ env _ _

/-! ## Reading tokens -/

theorem next_cons (t : Token) (env : Context) (ts : List Token) :
    next env (t :: ts) = .ok t ts := rfl

/-- Whatever token comes next is taken. -/
theorem next_eq_ok {env : Context} {ts rest : List Token} {t : Token} :
    next env ts = .ok t rest ↔ ts = t :: rest := by
  constructor
  · intro h
    cases ts with
    | nil => cases h
    | cons u us => cases h; rfl
  · rintro rfl
    rfl

theorem expect_cons {k : Kind} {t : Token} (h : t.kind = k) (env : Context) (ts : List Token) :
    expect k env (t :: ts) = .ok t ts := by
  rw [expect, if_pos h]

/-- A token is taken if it is of the kind that is expected. -/
theorem expect_eq_ok {k : Kind} {env : Context} {ts rest : List Token} {t : Token} :
    expect k env ts = .ok t rest ↔ ts = t :: rest ∧ t.kind = k := by
  constructor
  · intro h
    cases ts with
    | nil => cases h
    | cons u us =>
      rw [expect] at h
      split at h
      · cases h
        exact ⟨rfl, ‹_›⟩
      · cases h
  · rintro ⟨rfl, hk⟩
    exact expect_cons hk env rest

theorem word_cons {w : Text} {t : Token} (h : t.kind = .identifier) (hw : t.lexeme = .text w)
    (env : Context) (ts : List Token) : word w env (t :: ts) = .ok t ts := by
  have hat : atWord w env (t :: ts) = .ok true (t :: ts) := by
    simp only [atWord, List.head?_cons, Option.any_some, h, hw, and_self, decide_true]
  rw [word, bind_of_ok hat]
  rfl

theorem atWord_eq_ok {w : Text} {env : Context} {ts rest : List Token} {b : Bool} :
    atWord w env ts = .ok b rest ↔
      b = (ts.head?.any fun t ↦ t.kind = .identifier ∧ t.lexeme = .text w) ∧ ts = rest :=
  @pure_eq_ok _ _ _ env _ _

/-- A word that is not reserved is known by its text. -/
theorem word_eq_ok {w : Text} {env : Context} {ts rest : List Token} {t : Token} :
    word w env ts = .ok t rest ↔ ts = t :: rest ∧ t.kind = .identifier ∧ t.lexeme = .text w := by
  constructor
  · intro h
    rw [word, bind_eq_ok] at h
    obtain ⟨b, mid, hat, h⟩ := h
    obtain ⟨rfl, rfl⟩ := atWord_eq_ok.mp hat
    split at h
    · -- The word has been seen, so the token that is taken is the one that was looked at.
      rename_i hb
      obtain rfl := next_eq_ok.mp h
      simpa using hb
    · cases h
  · rintro ⟨rfl, hk, hw⟩
    exact word_cons hk hw env rest

/-- A text is used where there is one, and the stream has no part in that. -/
theorem textFor_eq_ok {use : Use} {l : Lexeme} {env : Context} {ts rest : List Token} {w : Text} :
    textFor use l env ts = .ok w rest ↔ l = .text w ∧ ts = rest := by
  constructor
  · intro h
    cases l with
    | text t =>
      obtain ⟨rfl, rfl⟩ := pure_eq_ok.mp h
      exact ⟨rfl, rfl⟩
    | number n => cases h
    | absent => cases h
  · rintro ⟨rfl, rfl⟩
    rfl

theorem fail_ne_ok {w : Wanted} {label : Text} {env : Context} {ts rest : List Token} {a : α} :
    fail w label env ts ≠ .ok a rest := fun h ↦ by cases h

theorem throw_ne_ok {f : Fault} {env : Context} {ts rest : List Token} {a : α} :
    throw f env ts ≠ .ok a rest := fun h ↦ by cases h

end Parse

/-- A comment is read from its token. -/
theorem commentStmt_cons {t : Token} {w : Text} (hw : t.lexeme = .text w) (env : Context)
    (rest : List Token) :
    commentStmt env (t :: rest) = .ok (if t.kind = .lineComment then
      .lineComment (some t.pos) (w.drop 2) else .blockComment (some t.pos) (Text.trimEnds 2 w))
      rest := by
  rw [commentStmt, Parse.bind_of_ok (Parse.next_cons t env rest),
    Parse.bind_of_ok (Parse.textFor_eq_ok.mpr ⟨hw, rfl⟩)]
  split <;> rfl

end Advplc.Grammar

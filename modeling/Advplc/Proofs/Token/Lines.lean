import Advplc.Proofs.Target.Lines
import Advplc.Proofs.Token.Content

/-!
# Tokens on one line

A token stays on one line unless it is a template or a block comment.  A line comment ends where
the line does, a string and a regular expression must be closed on it, and no other token has room
for a line feed.
-/

set_option autoImplicit false

namespace Advplc

/-- Whether a token of this kind may go on in another line. -/
def Kind.spansLines : Kind → Bool
  | .template | .blockComment => true
  | _ => false

/-- Whether a token stays on its line, as all but templates and block comments do. -/
def Token.Tidy (t : Token) : Prop := t.kind.spansLines = false → t.lexeme.spelled.broken = false

namespace Rule

theorem avoids_lineComment : Avoids '\n' lineComment := by
  intro t
  fun_cases lineComment t with
  | case1 rest =>
    have hrun : Avoids '\n' (run (· ≠ '\n')) := avoids_run (by decide)
    rw [Nat.add_comm, List.take_succ_cons, List.take_succ_cons]
    simpa using hrun rest
  | case2 => exact List.not_mem_nil

section OneLine

variable {x : Option Nat} {c d : CodePoint} {t : Text} {n : Nat}

/-- One code point more on the same line. -/
theorem feed_notMem_cons (hc : c ≠ '\n') (hx : ∀ m, x = some m → (.scalar '\n') ∉ t.take m)
    (hn : x.map (· + 1) = some n) : (.scalar '\n') ∉ (c :: t).take n := by
  obtain ⟨m, hm, rfl⟩ := Option.map_eq_some_iff.mp hn
  rw [List.take_succ_cons, List.mem_cons, not_or]
  exact ⟨hc.symm, hx m hm⟩

/-- A backslash and the code point behind it. -/
theorem feed_notMem_escape (hc : c ≠ '\n') (hx : ∀ m, x = some m → (.scalar '\n') ∉ t.take m)
    (hn : x.map (· + 2) = some n) : (.scalar '\n') ∉ (.scalar '\\' :: c :: t).take n := by
  obtain ⟨m, hm, rfl⟩ := Option.map_eq_some_iff.mp hn
  refine feed_notMem_cons (x := some (m + 1)) (by decide) ?_ rfl
  rintro _ ⟨⟩
  exact feed_notMem_cons hc hx (congrArg _ hm)

/-- A literal on one line is closed before the line ends. -/
theorem feed_notMem_of_literalEnd {quote : CodePoint} (hquote : quote ≠ '\n')
    (h : literalEnd quote false t = some n) : (.scalar '\n') ∉ t.take n := by
  fun_induction literalEnd quote false t generalizing n with
  | case1 | case2 | case5 => cases h
  | case3 c rest hc ih => exact feed_notMem_escape hc (fun _ ↦ ih) h
  | case4 rest =>
    cases h
    simpa using hquote.symm
  | case6 c rest hescape hne hc ih =>
    refine feed_notMem_cons ?_ (fun _ ↦ ih) h
    rintro rfl
    exact hc (.inr ⟨rfl, rfl⟩)

theorem avoids_quotedLiteral {quote : CodePoint} (hquote : quote ≠ '\n') :
    Avoids '\n' (quotedLiteral quote false) := by
  intro t
  rcases t with _ | ⟨c, t⟩
  · exact List.not_mem_nil
  rw [quotedLiteral_cons]
  split
  · rcases hend : literalEnd quote false t with _ | n
    · exact List.not_mem_nil
    · subst c
      exact feed_notMem_cons hquote (fun _ ↦ feed_notMem_of_literalEnd hquote)
        (congrArg (Option.map _) hend)
  · exact List.not_mem_nil

/-- A regular expression is closed before the line ends. -/
theorem feed_notMem_of_regexEnd {inClass : Bool} (h : regexEnd inClass t = some n) :
    (.scalar '\n') ∉ t.take n := by
  fun_induction regexEnd inClass t generalizing n with
  | case1 | case2 | case4 | case7 => cases h
  | case8 =>
    cases h
    simp
  | case3 _ c _ hc ih => exact feed_notMem_escape hc (fun _ ↦ ih) h
  | case9 rest _ _ _ ih₁ ih₂ =>
    refine feed_notMem_cons (by decide) (fun m hm ↦ ?_) h
    rcases hclass : regexEnd true rest with _ | k
    · rw [hclass] at hm
      exact ih₂ hm
    · rw [hclass] at hm
      exact ih₁ (hclass.trans hm)
  | case5 _ _ _ ih | case6 _ _ _ _ _ ih | case10 _ _ _ _ _ _ ih =>
    exact feed_notMem_cons (by simp_all) (fun _ ↦ ih) h

theorem avoids_regex : Avoids '\n' regex := by
  have hflag : isFlag '\n' = false := by decide
  intro t
  rcases t with _ | ⟨c, t⟩
  · exact List.not_mem_nil
  by_cases hc : c = '/'
  · subst hc
    rw [regex_slash]
    split
    · exact List.not_mem_nil
    · rcases hend : regexEnd false t with _ | n
      · exact List.not_mem_nil
      · rw [Option.elim_some, Nat.add_assoc, Nat.add_comm, List.take_succ_cons, List.mem_cons,
          List.take_add, List.mem_append, not_or, not_or]
        exact ⟨by decide, feed_notMem_of_regexEnd hend, avoids_run hflag _⟩
  · rw [regex_of_ne hc]
    exact List.not_mem_nil

end OneLine

/-- What a rule matches for a token on one line is on one line. -/
theorem feed_notMem_of_kind {k : Kind} {t : Text} : ∀ rule ∈ all, rule.kind = some k →
    k.spansLines = false → (.scalar '\n') ∉ t.take (rule.length t) := by
  have hfeed : Outside '\n' := outside_of_strange _ List.mem_cons_self
  refine forall_mem_all ?blank ?line ?block ?keyword ?console ?regular ?name ?numeral ?double
    ?single ?template ?mark
  case blank => exact fun h ↦ by cases h
  case line => exact fun _ _ ↦ avoids_lineComment t
  case keyword =>
    have hspelling : ∀ word : Keyword, (.scalar '\n') ∉ word.spelling := by
      intro word
      cases word <;> decide
    exact fun word _ _ ↦ avoids_word (hspelling word) t
  case console => exact fun _ _ ↦ avoids_word (by decide) t
  case regular => exact fun _ _ ↦ avoids_regex t
  case name => exact fun _ _ ↦ avoids_identifier hfeed t
  case numeral => exact fun _ _ ↦ avoids_number hfeed t
  case double => exact fun _ _ ↦ avoids_quotedLiteral (by decide) t
  case single => exact fun _ _ ↦ avoids_quotedLiteral (by decide) t
  case mark =>
    have hspelling : ∀ m : Mark, (.scalar '\n') ∉ m.spelling := by
      intro m
      cases m <;> decide
    exact fun m _ _ ↦ avoids_literal (hspelling m) t
  case block | template =>
    intro hkind hspans
    cases hkind
    cases hspans

end Rule

/-- **A token stays on its line**, unless it is a template or a block comment. -/
theorem tidy_of_tokenize {source : Text} {p : Pos} {ts : List Token}
    (h : tokenize source p = .ok ts) : ∀ t ∈ ts, t.Tidy := by
  intro t ht hkind
  obtain ⟨before, u, n, hfirst, hlexeme, -⟩ := Scan.exists_first? (mem_scan_of_tokenize h ht)
  obtain ⟨rule, hrule, hk, rfl, -⟩ := Rule.exists_of_first? hfirst
  rw [hlexeme]
  exact Text.broken_eq_false_iff.mpr (Rule.feed_notMem_of_kind rule hrule hk hkind)

end Advplc

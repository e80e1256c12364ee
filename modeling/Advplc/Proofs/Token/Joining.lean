import Advplc.Proofs.Token.Layout

/-!
# One source behind another

If a line feed is put between two sources, then the tokens of the whole are those of the first
source followed by those of the second (`Scans.joined`).  There are four ways in which this could
fail.

* A token of the first source could reach into the second.  Only a comment or a template that is not
  closed does, and it is excluded: a template that is not closed cannot be scanned, and `/*` without
  an end is a slash before a star, which no program contains.
* A slash at the beginning of the second source could be read as a division.  It cannot, if the
  first source does not end with an operand.
* The line feed could be part of a token.  It never is, outside of comments and templates.
* A carriage return at the end of the first source is dropped before the line feed.  If it is the
  end of a comment, the comment gets shorter by it; otherwise it was blank anyway.
-/

set_option autoImplicit false

namespace Advplc

/-! ## Behind which token a text stands -/

section Before

variable {before before' : Option Kind} {t : Text} {fs : List (Kind × Lexeme)}

/-- The token before a text matters only for whether a regular expression may begin. -/
theorem Rule.first?_congr (h : Rule.regexAllowed before = Rule.regexAllowed before') (t : Text) :
    Rule.first? before t = Rule.first? before' t := by
  have hallowed : ∀ rule ∈ Rule.all, rule.allowed before = rule.allowed before' := by
    refine Rule.forall_mem_all ?_ ?_ ?_ ?_ ?_ h ?_ ?_ ?_ ?_ ?_ ?_ <;> intros <;> rfl
  rw [Rule.first?, Rule.first?]
  rw [← List.head?_filterMap, ← List.head?_filterMap]
  refine congrArg List.head? (List.filterMap_congr fun rule hrule ↦ ?_)
  rw [Rule.attempt, Rule.attempt, hallowed rule hrule]

theorem Scans.behind (hscans : Scans before t fs)
    (h : Rule.regexAllowed before = Rule.regexAllowed before') : Scans before' t fs := by
  induction hscans with
  | done => exact .done _
  | blank hfirst _ ih => exact .blank (Rule.first?_congr h _ ▸ hfirst) (ih h)
  | token hfirst hrest => exact .token (Rule.first?_congr h _ ▸ hfirst) hrest

end Before

/-! ## A blank behind a text -/

namespace Rule

/-- The rule does not match anything of `x` where `x` stands behind a text. -/
def Stops (x : Text) (f : Text → Nat) : Prop := ∀ u : Text, f (u ++ x) ≤ u.length

/-- The blanks within a line that sources are put together with. -/
def gaps : List CodePoint := [.scalar ' ', .scalar '\r']

section Stopping

variable {c : CodePoint} {y : Text}

theorem stops_run {p : CodePoint → Bool} (hp : p c = false) : Stops (c :: y) (run p) := by
  intro u
  induction u with
  | nil => rw [List.nil_append, run_cons, hp]; exact Nat.le_refl 0
  | cons d u ih =>
    rw [List.cons_append, run_cons, List.length_cons]
    split
    · exact Nat.succ_le_succ ih
    · exact Nat.zero_le _

/-- A text that stands before another one, and does not hold its first code point, ends before
it. -/
theorem length_le_of_prefix {w u : Text} (hw : c ∉ w) (h : w <+: u ++ c :: y) :
    w.length ≤ u.length := by
  refine Nat.le_of_not_lt fun hlt ↦ hw ?_
  have hnext : u ++ [c] <+: u ++ c :: y := ⟨y, by simp⟩
  have hlong : (u ++ [c]).length ≤ w.length := by rw [List.length_append]; exact hlt
  exact (List.prefix_of_prefix_length_le hnext h hlong).subset List.mem_concat_self

theorem stops_literal {w : Text} (hw : c ∉ w) : Stops (c :: y) (literal w) := by
  intro u
  rw [literal]
  split
  · exact length_le_of_prefix hw (List.isPrefixOf_iff_prefix.mp ‹_›)
  · exact Nat.zero_le _

theorem stops_word {w : Text} (hw : c ∉ w) : Stops (c :: y) (word w) := by
  intro u
  refine Nat.le_trans ?_ (stops_literal (y := y) hw u)
  rw [word, literal]
  split
  · rw [if_pos (And.left ‹_›)]
  · exact Nat.zero_le _

theorem stops_identifier (hc : c ∈ gaps) : Stops (c :: y) identifier := by
  have hgoes : ∀ c ∈ gaps, startsIdentifier c = false ∧ continuesIdentifier c = false := by decide
  intro u
  cases u with
  | nil =>
    rw [List.nil_append, identifier, (hgoes c hc).1]
    exact Nat.le_refl 0
  | cons d u =>
    have := stops_run (y := y) (hgoes c hc).2 u
    rw [List.cons_append, identifier, List.length_cons]
    split <;> omega

theorem isDigit_of_gap (hc : c ∈ gaps) : c.isDigit = false := by
  have hall : ∀ c ∈ gaps, c.isDigit = false := by decide
  exact hall c hc

theorem stops_fraction (hc : c ∈ gaps) : Stops (c :: y) fraction := by
  intro u
  cases u with
  | nil =>
    rw [List.nil_append, fraction_of_ne (by rintro rfl; revert hc; decide)]
    exact Nat.le_refl 0
  | cons d u =>
    have := stops_run (y := y) (isDigit_of_gap hc) u
    by_cases hd : d = '.'
    · rw [hd, List.cons_append, fraction_point, List.length_cons]
      split <;> omega
    · rw [List.cons_append, fraction_of_ne hd]
      exact Nat.zero_le _

theorem signedDigits_cons (c : CodePoint) (t : Text) : signedDigits (c :: t) =
    if c = '+' ∨ c = '-' then
      if run CodePoint.isDigit t = 0 then 0 else 1 + run CodePoint.isDigit t
    else run CodePoint.isDigit (c :: t) := by
  by_cases hsign : c = '+' ∨ c = '-'
  · simp [signedDigits, hsign]
  · simp [signedDigits, hsign, eq_comm]

theorem stops_signedDigits (hc : c ∈ gaps) : Stops (c :: y) signedDigits := by
  intro u
  cases u with
  | nil =>
    have hsign : ¬ (c = '+' ∨ c = '-') := by
      rintro (rfl | rfl) <;> exact absurd hc (by decide)
    rw [List.nil_append, signedDigits_cons, if_neg hsign]
    exact stops_run (isDigit_of_gap hc) []
  | cons d u =>
    have hall := stops_run (y := y) (isDigit_of_gap hc) (d :: u)
    have hrest := stops_run (y := y) (isDigit_of_gap hc) u
    rw [List.cons_append, signedDigits_cons]
    split
    · rw [List.length_cons]
      split <;> omega
    · exact hall

theorem stops_exponent (hc : c ∈ gaps) : Stops (c :: y) exponent := by
  intro u
  cases u with
  | nil =>
    have hletter : ¬ (c = 'e' ∨ c = 'E') := by
      rintro (rfl | rfl) <;> exact absurd hc (by decide)
    rw [List.nil_append, exponent_cons, if_neg fun h ↦ hletter h.1]
    exact Nat.le_refl 0
  | cons d u =>
    have := stops_signedDigits (y := y) hc u
    rw [List.cons_append, exponent_cons, List.length_cons]
    split <;> omega

theorem stops_number (hc : c ∈ gaps) : Stops (c :: y) number := by
  intro u
  have hwhole := stops_run (y := y) (isDigit_of_gap hc) u
  simp only [number]
  generalize run CodePoint.isDigit (u ++ c :: y) = whole at hwhole ⊢
  have hpart := stops_fraction (y := y) hc (u.drop whole)
  rw [List.length_drop, ← List.drop_append_of_le_length hwhole] at hpart
  generalize fraction (List.drop whole (u ++ c :: y)) = part at hpart ⊢
  have hpower := stops_exponent (y := y) hc (u.drop (whole + part))
  rw [List.length_drop, ← List.drop_append_of_le_length (by omega)] at hpower
  split <;> omega

end Stopping

/-- What ends with a code point that does not occur in `x` does not match anything of `x`. -/
theorem le_of_getLast? {u x : Text} {n : Nat} {c : CodePoint} (hc : c ∉ x)
    (h : (List.take n (u ++ x)).getLast? = some c) (hn : n ≤ (u ++ x).length) : n ≤ u.length := by
  refine Nat.le_of_not_lt fun hlt ↦ hc ?_
  obtain ⟨m, rfl⟩ := Nat.exists_eq_add_of_le (Nat.le_of_lt hlt)
  rw [List.take_length_add_append] at h
  have hm : x.take m ≠ [] := by
    rw [List.length_append] at hn
    exact List.ne_nil_of_length_pos (by rw [List.length_take]; omega)
  rw [List.getLast?_append_of_ne_nil _ hm] at h
  exact List.mem_of_mem_take (List.mem_of_getLast? h)

theorem getLast?_take_cons {t : Text} {n : Nat} {c d : CodePoint}
    (h : (t.take n).getLast? = some c) : ((d :: t).take (n + 1)).getLast? = some c := by
  rw [List.take_succ_cons, List.getLast?_cons, h]
  rfl

theorem getLast?_literalEnd {quote : CodePoint} {severalLines : Bool} {t : Text} {n : Nat}
    (h : literalEnd quote severalLines t = some n) : (t.take n).getLast? = some quote := by
  fun_induction literalEnd quote severalLines t generalizing n with
  | case1 | case2 | case5 => cases h
  | case4 => cases h; rfl
  | case3 _ _ _ ih =>
    obtain ⟨l, hl, rfl⟩ := Option.map_eq_some_iff.mp h
    exact getLast?_take_cons (getLast?_take_cons (ih hl))
  | case6 _ _ _ _ _ ih =>
    obtain ⟨l, hl, rfl⟩ := Option.map_eq_some_iff.mp h
    exact getLast?_take_cons (ih hl)

theorem getLast?_regexEnd {inClass : Bool} {t : Text} {n : Nat} (h : regexEnd inClass t = some n) :
    (t.take n).getLast? = some (.scalar '/') := by
  fun_induction regexEnd inClass t generalizing n with
  | case1 | case2 | case4 | case7 => cases h
  | case8 => cases h; rfl
  | case9 rest _ _ _ ih₁ ih₂ =>
    obtain ⟨l, hl, rfl⟩ := Option.map_eq_some_iff.mp h
    refine getLast?_take_cons ?_
    cases hclass : regexEnd true rest with
    | none => exact ih₂ (by rw [hclass] at hl; exact hl)
    | some m => exact ih₁ (by rw [hclass] at hl; rw [hclass, ← hl]; rfl)
  | case3 _ _ _ _ ih =>
    obtain ⟨l, hl, rfl⟩ := Option.map_eq_some_iff.mp h
    exact getLast?_take_cons (getLast?_take_cons (ih hl))
  | case5 _ _ _ ih | case6 _ _ _ _ _ ih | case10 _ _ _ _ _ _ ih =>
    obtain ⟨l, hl, rfl⟩ := Option.map_eq_some_iff.mp h
    exact getLast?_take_cons (ih hl)

section Stopping

variable {c : CodePoint} {y : Text}

/-- A comment is not closed by a text without a star that does not begin with a slash. -/
theorem stops_commentEnd (hstar : (.scalar '*') ∉ c :: y) (hc : c ≠ '/') {u : Text} {n : Nat}
    (h : commentEnd (u ++ c :: y) = some n) : n ≤ u.length := by
  have hnone : ∀ t : Text, (.scalar '*') ∉ t → commentEnd t = none := by
    intro t ht
    induction t with
    | nil => rfl
    | cons d t ih =>
      rw [List.mem_cons, not_or] at ht
      rw [commentEnd_cons, if_neg fun hd ↦ ht.1 hd.1.symm, ih ht.2]
      rfl
  induction u generalizing n with
  | nil => rw [List.nil_append, hnone _ hstar] at h; cases h
  | cons d u ih =>
    rw [List.cons_append, commentEnd_cons] at h
    rw [List.length_cons]
    split at h
    · rename_i hclose
      cases h
      cases u with
      | nil => exact absurd (Option.some.inj hclose.2) hc
      | cons e u => exact Nat.succ_le_succ (Nat.succ_le_succ (Nat.zero_le _))
    · obtain ⟨m, hm, rfl⟩ := Option.map_eq_some_iff.mp h
      exact Nat.succ_le_succ (ih hm)

theorem stops_blockComment (hc : c ∈ gaps) (hstar : (.scalar '*') ∉ y) :
    Stops (c :: y) blockComment := by
  have hmark : ∀ c ∈ gaps, c ∉ ("/*" : Text) := by decide
  have hne : c ≠ '/' := fun h ↦ hmark c hc (h ▸ by decide)
  have hstars : (.scalar '*') ∉ c :: y :=
    List.not_mem_cons_of_ne_of_not_mem (fun h ↦ hmark c hc (h ▸ by decide)) hstar
  intro u
  rw [blockComment_eq]
  split
  · have hlong : 2 ≤ u.length :=
      length_le_of_prefix (w := "/*") (hmark c hc) (List.isPrefixOf_iff_prefix.mp ‹_›)
    rw [List.drop_append_of_le_length hlong]
    cases hend : commentEnd (u.drop 2 ++ c :: y) with
    | none => exact Nat.zero_le _
    | some n =>
      have := stops_commentEnd hstars hne hend
      rw [List.length_drop] at this
      simp only [Option.map_some, Option.getD_some]
      omega
  · exact Nat.zero_le _

theorem stops_quotedLiteral {quote : CodePoint} {severalLines : Bool} (hquote : quote ∉ c :: y) :
    Stops (c :: y) (quotedLiteral quote severalLines) := by
  intro u
  cases u with
  | nil =>
    rw [List.nil_append, quotedLiteral_cons,
      if_neg fun h : c = quote ↦ hquote (h ▸ List.mem_cons_self)]
    exact Nat.le_refl 0
  | cons d u =>
    rw [List.cons_append, quotedLiteral_cons]
    cases hend : literalEnd quote severalLines (u ++ c :: y) with
    | none => split <;> exact Nat.zero_le _
    | some n =>
      have := le_of_getLast? hquote (getLast?_literalEnd hend) (literalEnd_le hend)
      simp only [Option.map_some, Option.getD_some, List.length_cons]
      split <;> omega

theorem stops_regex (hc : c ∈ gaps) (hslash : (.scalar '/') ∉ y) : Stops (c :: y) regex := by
  have hmark : ∀ c ∈ gaps, c ≠ '/' ∧ isFlag c = false := by decide
  intro u
  cases u with
  | nil => rw [List.nil_append, regex_of_ne (hmark c hc).1]; exact Nat.le_refl 0
  | cons d u =>
    by_cases hd : d = '/'
    · rw [hd, List.cons_append, regex_slash, List.length_cons]
      split
      · exact Nat.zero_le _
      · cases hend : regexEnd false (u ++ c :: y) with
        | none => exact Nat.zero_le _
        | some n =>
          have hslashes : (.scalar '/') ∉ c :: y :=
            List.not_mem_cons_of_ne_of_not_mem (hmark c hc).1.symm hslash
          have hn := le_of_getLast? hslashes (getLast?_regexEnd hend) (regexEnd_le hend)
          have hflags := stops_run (y := y) (hmark c hc).2 (u.drop n)
          rw [List.length_drop, ← List.drop_append_of_le_length hn] at hflags
          rw [Option.elim_some]
          omega
    · rw [List.cons_append, regex_of_ne hd]
      exact Nat.zero_le _

/-- **Only a comment goes on behind a blank** and a text that closes nothing.  A regular expression
does if there is a slash in that text. -/
theorem stops_of_kind (hc : c ∈ gaps) (hy : ∀ d ∈ ("*\"'`" : Text), d ∉ y) : ∀ rule ∈ all,
    rule.kind ≠ none → rule.kind ≠ some .lineComment →
    (rule.kind = some .regex → (.scalar '/') ∉ y) → Stops (c :: y) rule.length := by
  have hquote : ∀ q ∈ ("\"'`" : Text), q ∉ c :: y := by
    have hgap : ∀ q ∈ ("\"'`" : Text), ∀ c ∈ gaps, q ≠ c := by decide
    intro q hq
    exact List.not_mem_cons_of_ne_of_not_mem (hgap q hq c hc) (hy q (List.mem_cons_of_mem _ hq))
  refine forall_mem_all ?blank ?line ?block ?keyword ?console ?regular ?name ?numeral ?_ ?_ ?_ ?mark
  case blank => exact fun h ↦ absurd rfl h
  case line => exact fun _ h ↦ absurd rfl h
  case block => exact fun _ _ _ ↦ stops_blockComment hc (hy _ (by decide))
  case keyword =>
    have hgap : ∀ k : Keyword, ∀ c ∈ gaps, c ∉ k.spelling := by intro k; cases k <;> decide
    exact fun k _ _ _ ↦ stops_word (hgap k c hc)
  case console =>
    have hgap : ∀ c ∈ gaps, c ∉ ("console.log" : Text) := by decide
    exact fun _ _ _ ↦ stops_word (hgap c hc)
  case mark =>
    have hgap : ∀ m : Mark, ∀ c ∈ gaps, c ∉ m.spelling := by intro m; cases m <;> decide
    exact fun m _ _ _ ↦ stops_literal (hgap m c hc)
  case regular => exact fun _ _ h ↦ stops_regex hc (h rfl)
  case name => exact fun _ _ _ ↦ stops_identifier hc
  case numeral => exact fun _ _ _ ↦ stops_number hc
  all_goals exact fun _ _ _ ↦ stops_quotedLiteral (hquote _ (by decide))

end Stopping

end Rule

/-! ## Tokens where sources meet -/

/-- What a line feed takes away in front of it: nothing, or a carriage return. -/
def Droppable (x : Text) : Prop := x = [] ∨ x = [.scalar '\r']

section Meeting

variable {before : Option Kind} {k : Kind} {u x r : Text} {n : Nat}

theorem Droppable.atWordEnd (hx : Droppable x) : Text.atWordEnd x = true := by
  obtain rfl | rfl := hx <;> rfl

/-- A slash before a star is a mark of its own where no comment is closed. -/
theorem Rule.slash_of_unclosed {v : Text} (hunclosed : Rule.blockComment ("/*" ++ v) = 0)
    (h : Rule.first? before ("/*" ++ v) = some (some k, n)) : k = .mark .slash ∧ n = 1 := by
  have hmatch : ∀ rule ∈ Rule.all, 0 < rule.length ("/*" ++ v) →
      Kind.starts rule.kind '/' = true →
      rule.kind = some (.mark .slash) ∧ rule.length ("/*" ++ v) = 1 := by
    refine Rule.forall_mem_all ?_ ?line ?block ?keyword ?_ ?regular ?_ ?_ ?_ ?_ ?_ ?mark
    case line | regular => exact fun hpos ↦ absurd hpos (Nat.lt_irrefl 0)
    case block => exact fun hpos ↦ absurd hunclosed (Nat.ne_of_gt hpos)
    case keyword =>
      intro w _ hstarts
      exact absurd (Rule.startsIdentifier_of_keyword (of_decide_eq_true hstarts)) (by decide)
    case mark =>
      intro m hpos hstarts
      have hspelling := Rule.isPrefixOf_of_literal hpos
      cases m with
      | slash => exact ⟨rfl, rfl⟩
      | divideEqual => cases hspelling
      | _ => cases hstarts
    all_goals exact fun _ hstarts ↦ absurd hstarts (by decide)
  obtain ⟨rule, hrule, hkind, rfl, hpos⟩ := Rule.exists_of_first? h
  obtain ⟨hslash, hlength⟩ := hmatch rule hrule hpos (Rule.starts_of_pos rule hrule hpos)
  exact ⟨Option.some.inj (hkind.symm.trans hslash), hlength⟩

/-- What begins with a backtick and is scanned is scanned as a template. -/
theorem Rule.template_of_first? {v : Text}
    (h : Rule.first? before (.scalar '`' :: v) = some (some k, n)) :
    Rule.quotedLiteral '`' true (.scalar '`' :: v) ≠ 0 := by
  obtain ⟨rule, hrule, -, rfl, hpos⟩ := Rule.exists_of_first? h
  have hlen := Rule.length_le (t := .scalar '`' :: v) rule hrule
  have htext := List.take_append_drop (rule.length (.scalar '`' :: v)) (.scalar '`' :: v)
  rw [← htext]
  refine Rule.template_of_match ?_ rule hrule ?_
  · rw [List.head?_take, if_neg (Nat.ne_of_gt hpos)]
    rfl
  · rw [htext, List.length_take_of_le hlen]

/-- Before a line feed every rule finds what it found at the end of the text, if the text does not
begin with a comment that is not closed. -/
theorem Rule.bounded_joined (hx : Droppable x)
    (h : Rule.first? before (u ++ x) = some (some k, n)) (hn : n ≤ u.length)
    (hopen : ("/*" : Text).isPrefixOf u = true → Rule.blockComment (u ++ x) ≠ 0) :
    ∀ q ∈ Rule.all, (q.kind = some k ∨ q.length (u ++ x) = 0) → Rule.Bounded q.length u x := by
  have hword : ∀ w : Text, u = w → Text.atWordEnd x = true := fun _ _ ↦ hx.atWordEnd
  refine Rule.forall_mem_all ?blank ?line ?block ?keyword ?console ?regular ?name ?numeral ?double
    ?single ?template ?mark
  case blank =>
    intro hblank
    have hblank : Rule.run CodePoint.isBlank (u ++ x) = 0 := hblank.resolve_left nofun
    refine Rule.bounded_run_of_zero hblank ?_
    rintro rfl
    exact absurd (Rule.pos_of_first? h) (Nat.not_lt.mpr hn)
  case line => exact fun _ ↦ Rule.bounded_lineComment u x
  case block => exact fun _ ↦ Rule.bounded_blockComment hopen
  case keyword => exact fun k _ ↦ Rule.bounded_word (by cases k <;> decide) (hword _)
  case console => exact fun _ ↦ Rule.bounded_word (by decide) (hword _)
  case regular => exact fun _ ↦ Rule.bounded_regex u x
  case name => exact fun _ ↦ Rule.bounded_identifier u x
  case numeral => exact fun _ ↦ Rule.bounded_number u x
  case double =>
    exact fun _ ↦ Rule.bounded_quotedLiteral (by decide) (by decide) u fun h ↦ by cases h
  case single =>
    exact fun _ ↦ Rule.bounded_quotedLiteral (by decide) (by decide) u fun h ↦ by cases h
  case template =>
    refine fun _ ↦ Rule.bounded_quotedLiteral (by decide) (by decide) u fun _ hu ↦ ?_
    obtain ⟨v, rfl⟩ := List.head?_eq_some_iff.mp hu
    exact Rule.template_of_first? h
  case mark => exact fun m _ ↦ Rule.bounded_literal (by cases m <;> decide) u x

/-- Two slashes begin a comment that takes the rest of the line. -/
theorem Rule.first?_slashes (before : Option Kind) (v : Text) :
    Rule.first? before (.scalar '/' :: .scalar '/' :: v) =
      some (some .lineComment, 2 + Rule.run (· ≠ '\n') v) := by
  have hblank : Rule.attempt before (.scalar '/' :: .scalar '/' :: v)
      ⟨none, Rule.run CodePoint.isBlank, fun _ ↦ true⟩ = none :=
    Rule.attempt_eq_none.mpr fun _ ↦ rfl
  have hline : Rule.attempt before (.scalar '/' :: .scalar '/' :: v)
      ⟨some .lineComment, Rule.lineComment, fun _ ↦ true⟩ =
        some (some .lineComment, 2 + Rule.run (· ≠ '\n') v) :=
    Rule.attempt_eq_some.mpr ⟨rfl, by omega, rfl, rfl⟩
  simp only [Rule.first?, Rule.all, List.cons_append, List.findSome?_cons, hblank, hline]

theorem Rule.run_concat {p : CodePoint → Bool} {v : Text} {c d : CodePoint}
    (h : Rule.run p (v ++ [c]) = v.length + 1) (hd : p d = false) (r : Text) :
    Rule.run p (v ++ d :: r) = v.length := by
  induction v with
  | nil => rw [List.nil_append, Rule.run_cons, hd]; rfl
  | cons b v ih =>
    rw [List.cons_append, Rule.run_cons, List.length_cons] at h
    split at h
    · rename_i hb
      rw [List.cons_append, Rule.run_cons, if_pos hb, ih (by omega), List.length_cons]
    · cases h

/-- A comment that ends with a carriage return ends before it if a line feed follows. -/
theorem Rule.first?_lineComment
    (h : Rule.first? before (u ++ [.scalar '\r']) = some (some k, u.length + 1)) (r : Text) :
    k = .lineComment ∧
      Rule.first? before (u ++ .scalar '\n' :: r) = some (some .lineComment, u.length) := by
  obtain ⟨rule, hrule, hkind, hlen, hpos⟩ := Rule.exists_of_first? h
  have hcomment : rule.kind = some .lineComment := by
    by_contra hne
    have hgap : .scalar '\r' ∈ Rule.gaps := by decide
    have := Rule.stops_of_kind hgap (fun _ _ ↦ List.not_mem_nil) rule hrule (by rw [hkind]; nofun)
      hne (fun _ ↦ List.not_mem_nil) u
    omega
  refine ⟨Option.some.inj (hkind.symm.trans hcomment), ?_⟩
  have hline : rule.length = Rule.lineComment :=
    Rule.length_of_matcher? rule hrule (congrArg Rule.matcher? hcomment)
  rw [hline, Rule.lineComment_eq] at hlen
  split at hlen
  · rename_i hslashes
    obtain hu | hu := List.prefix_concat_iff.mp (List.isPrefixOf_iff_prefix.mp hslashes)
    · exact absurd (hu ▸ List.mem_concat_self : (.scalar '\r') ∈ ("//" : Text)) (by decide)
    · obtain ⟨v, rfl⟩ := hu
      have hrun : Rule.run (· ≠ '\n') (v ++ [.scalar '\r']) = v.length + 1 := by
        have hlength : (("//" : Text) ++ v).length = v.length + 2 := rfl
        rw [hlength] at hlen
        have hdrop : List.drop 2 (("//" : Text) ++ v ++ [.scalar '\r']) = v ++ [.scalar '\r'] := rfl
        rw [hdrop] at hlen
        omega
      have hfirst := Rule.first?_slashes before (v ++ .scalar '\n' :: r)
      rw [Rule.run_concat hrun (by decide) r, Nat.add_comm] at hfirst
      exact hfirst
  · cases hlen

/-- A mark that begins with a star does not stand behind a slash. -/
def Unopened (f g : Kind × Lexeme) : Prop :=
  f.1 = .mark .slash → g.1 ≠ .mark .star ∧ g.1 ≠ .mark .timesEqual

/-- The same forms, but for a carriage return at the end of a comment at the end. -/
inductive Shortened : List (Kind × Lexeme) → List (Kind × Lexeme) → Prop where
  | same (fs : List (Kind × Lexeme)) : Shortened fs fs
  | comment (fs : List (Kind × Lexeme)) (w : Text) :
      Shortened (fs ++ [(.lineComment, .text (w ++ [.scalar '\r']))])
        (fs ++ [(.lineComment, .text w)])

theorem Shortened.cons {fs fs' : List (Kind × Lexeme)} (f : Kind × Lexeme) (h : Shortened fs fs') :
    Shortened (f :: fs) (f :: fs') := by
  cases h with
  | same => exact .same _
  | comment fs w => exact .comment (f :: fs) w

theorem scans_nil {fs : List (Kind × Lexeme)} (h : Scans before [] fs) : fs = [] := by
  cases h
  rfl

/-- A text that does not begin with a blank begins with a token. -/
theorem Scans.exists_token {t : Text} {fs : List (Kind × Lexeme)} {c : CodePoint}
    (h : Scans before (c :: t) fs) (hc : c.isBlank = false) :
    ∃ k w rest gs, c :: t = w ++ rest ∧ Rule.first? before (c :: t) = some (some k, w.length) ∧
      Scans (some k) rest gs ∧ fs = (k, .text w) :: gs := by
  cases h with
  | blank hfirst _ =>
    have hblank : c.isBlank = true := Rule.starts_of_first? hfirst
    rw [hblank] at hc
    cases hc
  | @token _ _ _ k n gs hfirst hrest =>
    have hn : ((c :: t).take n).length = n := List.length_take_of_le (Rule.le_of_first? hfirst)
    exact ⟨k, _, _, gs, (List.take_append_drop n _).symm, by rw [hn, hfirst], hrest, rfl⟩

/-- What begins with a star is scanned as a mark that begins with one. -/
theorem Scans.exists_star {fs : List (Kind × Lexeme)} {v : Text}
    (h : Scans before (.scalar '*' :: v) fs) :
    ∃ f gs, fs = f :: gs ∧ (f.1 = .mark .star ∨ f.1 = .mark .timesEqual) := by
  obtain ⟨k, w, rest, gs, -, hfirst, -, rfl⟩ := h.exists_token (by decide)
  refine ⟨_, gs, rfl, ?_⟩
  have hstarts := Rule.starts_of_first? hfirst
  cases k with
  | mark m =>
    cases m with
    | star => exact .inl rfl
    | timesEqual => exact .inr rfl
    | _ => cases hstarts
  | keyword w =>
    exact absurd (Rule.startsIdentifier_of_keyword (of_decide_eq_true hstarts)) (by decide)
  | endOfInput | other => cases hstarts
  | _ => exact absurd hstarts (by decide)

/-- A slash that is not before a star in the list of tokens is not before one in the text. -/
theorem Scans.not_star {fs : List (Kind × Lexeme)} {l : Lexeme} {v : Text}
    (hrest : Scans before (.scalar '*' :: v) fs) :
    ¬ ((.mark .slash, l) :: fs).IsChain Unopened := by
  intro hslash
  obtain ⟨f, gs, rfl, hf⟩ := hrest.exists_star
  have hstar := (List.isChain_cons_cons.mp hslash).1 rfl
  exact hf.elim hstar.1 hstar.2

/-- In a source that is scanned without a slash before a star, `/*` begins a comment. -/
theorem Scans.closed {fs : List (Kind × Lexeme)} {w v rest : Text}
    (hfirst : Rule.first? before ("/*" ++ v) = some (some k, w.length))
    (htext : "/*" ++ v = w ++ rest) (hrest : Scans (some k) rest fs)
    (hslash : ((k, .text w) :: fs).IsChain Unopened) : Rule.blockComment ("/*" ++ v) ≠ 0 := by
  intro hunclosed
  obtain ⟨rfl, hw⟩ := Rule.slash_of_unclosed hunclosed hfirst
  obtain ⟨c, rfl⟩ := List.length_eq_one_iff.mp hw
  obtain ⟨-, rfl⟩ := List.cons.inj (htext : .scalar '/' :: .scalar '*' :: v = c :: rest)
  exact hrest.not_star hslash

/-- The kind of the last token, which is the one before if there is none. -/
def lastKind (before : Option Kind) (fs : List (Kind × Lexeme)) : Option Kind :=
  (fs.getLast?.map Prod.fst).or before

theorem lastKind_cons (before : Option Kind) (f : Kind × Lexeme) (fs : List (Kind × Lexeme)) :
    lastKind before (f :: fs) = lastKind (some f.1) fs := by
  rw [lastKind, lastKind, List.getLast?_cons]
  cases fs.getLast? <;> rfl

/-- A part at the beginning either lies within the text or takes the carriage return as well. -/
theorem Droppable.split {w rest : Text} (hx : Droppable x) (h : u ++ x = w ++ rest) :
    (∃ v, u = w ++ v ∧ rest = v ++ x) ∨ w = u ++ [.scalar '\r'] ∧ rest = [] := by
  obtain ⟨a, rfl, ha⟩ | ⟨v, hu, hrest⟩ := List.append_eq_append_iff.mp h
  · cases a with
    | nil => exact .inl ⟨[], by simp, ha.symm⟩
    | cons a as =>
      obtain rfl | rfl := hx
      · cases ha
      · obtain ⟨rfl, has⟩ := List.cons.inj ha
        obtain ⟨rfl, rfl⟩ := List.append_eq_nil_iff.mp has.symm
        exact .inr ⟨rfl, rfl⟩
  · exact .inl ⟨v, hu, hrest⟩

/-- A token within the first source stays what it is. -/
theorem Scans.cons_joined {fs gs : List (Kind × Lexeme)} {w v : Text} (hx : Droppable x)
    (hfirst : Rule.first? before (w ++ v ++ x) = some (some k, w.length))
    (hrest : Scans (some k) (v ++ x) fs) (hslash : ((k, .text w) :: fs).IsChain Unopened)
    (hscans : Scans (some k) (v ++ .scalar '\n' :: r) gs) :
    Scans before (w ++ v ++ .scalar '\n' :: r) ((k, .text w) :: gs) := by
  have hopen : ("/*" : Text).isPrefixOf (w ++ v) = true → Rule.blockComment (w ++ v ++ x) ≠ 0 := by
    intro hprefix
    obtain ⟨v', hv'⟩ := List.isPrefixOf_iff_prefix.mp hprefix
    have htext : "/*" ++ (v' ++ x) = w ++ (v ++ x) := by
      rw [← List.append_assoc, hv', List.append_assoc]
    rw [List.append_assoc, ← htext] at hfirst ⊢
    exact Scans.closed hfirst htext hrest hslash
  have hn : w.length ≤ (w ++ v).length := by simp
  have hagain := Rule.first?_of_bounded (.feed r) hfirst hn
    (Rule.bounded_joined hx hfirst hn hopen)
  rw [List.append_assoc] at hagain ⊢
  exact .cons hagain hscans

/-- **The tokens of two sources with a line feed between them** are the tokens of the first, up to a
carriage return at its end, and those of the second. -/
theorem Scans.joined {fs gs : List (Kind × Lexeme)} (hr : Scans none r gs) (hx : Droppable x)
    (h : Scans before (u ++ x) fs) (hslash : fs.IsChain Unopened)
    (hlast : Rule.regexAllowed (lastKind before fs) = true) :
    ∃ fs', Shortened fs fs' ∧ Scans before (u ++ .scalar '\n' :: r) (fs' ++ gs) := by
  induction hlength : u.length using Nat.strong_induction_on generalizing u before fs with
  | _ n ih =>
    subst hlength
    cases u with
    | nil =>
      obtain rfl : fs = [] := by
        obtain rfl | rfl := hx
        · exact scans_nil h
        · exact scans_nil ((scans_cons_blank (by decide)).mp h)
      exact ⟨[], .same [], (scans_cons_blank (by decide)).mpr (hr.behind hlast.symm)⟩
    | cons c u =>
      cases hc : c.isBlank with
      | true =>
        obtain ⟨fs', hshort, hscans⟩ :=
          ih u.length (Nat.lt_succ_self _) ((scans_cons_blank hc).mp h) hslash hlast rfl
        exact ⟨fs', hshort, (scans_cons_blank hc).mpr hscans⟩
      | false =>
        rw [List.cons_append] at h
        obtain ⟨k, w, rest, fs, htext, hfirst, hrest, rfl⟩ := h.exists_token hc
        have hpos := Rule.pos_of_first? hfirst
        rw [lastKind_cons] at hlast
        rw [← List.cons_append] at htext hfirst
        obtain ⟨v, hu, rfl⟩ | ⟨rfl, rfl⟩ := hx.split htext
        · rw [hu] at hfirst ih ⊢
          have hshorter : v.length < (w ++ v).length := by simp [hpos]
          obtain ⟨fs', hshort, hscans⟩ := ih v.length hshorter hrest hslash.tail hlast rfl
          exact ⟨(k, .text w) :: fs', hshort.cons _, .cons_joined hx hfirst hrest hslash hscans⟩
        · obtain rfl := scans_nil hrest
          obtain rfl : x = [.scalar '\r'] := by simpa using htext
          rw [List.length_append, List.length_singleton] at hfirst
          obtain ⟨rfl, hagain⟩ := Rule.first?_lineComment hfirst r
          refine ⟨[(.lineComment, .text (c :: u))], .comment [] (c :: u), .cons hagain ?_⟩
          exact (scans_cons_blank (by decide)).mpr (hr.behind rfl)

end Meeting

end Advplc

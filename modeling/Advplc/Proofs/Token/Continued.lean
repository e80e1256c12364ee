import Advplc.Proofs.Token.Content
import Advplc.Proofs.Token.Coverage

/-!
# A line that goes on

The tokens of a text are the tokens that it has at the beginning of a longer text, if what is put
behind it begins with a blank and closes nothing.  Only a slash is different: where a regular
expression may begin, a slash in the text and a slash behind it are read as its two ends, unless a
line feed stands between them.

`SlashesFollow` says of a list of tokens that this does not happen on the last line.  For the text
` / b / c` behind a source the condition is exact: under it the tokens stay what they are
(`Scans.continued`), and otherwise there is a regular expression among them
(`slashesFollow_of_scans`).
-/

set_option autoImplicit false

namespace Advplc

/-! ## The rules of the lexer -/

namespace Rule

open Text (LineEnd)

section Rules

variable {before : Option Kind} {u : Text} {k : Kind} {n : Nat} {c : CodePoint} {y : Text}

/-- A literal that is closed is closed whatever stands behind it. -/
theorem literalEnd_append_of_some {quote : CodePoint} {severalLines : Bool} (hesc : quote ≠ '\\')
    {t : Text} {n : Nat} (h : literalEnd quote severalLines t = some n) (x : Text) :
    literalEnd quote severalLines (t ++ x) = some n := by
  rcases t with _ | ⟨c, t⟩
  · cases h
  by_cases hc : c = '\\'
  · subst hc
    rcases t with _ | ⟨d, t⟩
    · rw [literalEnd_backslash hesc] at h
      cases h
    rw [literalEnd_escape] at h
    rw [List.cons_append, List.cons_append, literalEnd_escape]
    split at h
    · cases h
    · obtain ⟨m, hm, rfl⟩ := Option.map_eq_some_iff.mp h
      rw [if_neg ‹_›, literalEnd_append_of_some hesc hm x]
      rfl
  · rw [literalEnd_cons hc] at h
    rw [List.cons_append, literalEnd_cons hc]
    split at h
    · rw [if_pos ‹_›, h]
    split at h
    · cases h
    · obtain ⟨m, hm, rfl⟩ := Option.map_eq_some_iff.mp h
      rw [if_neg ‹_›, if_neg ‹_›, literalEnd_append_of_some hesc hm x]
      rfl

/-- A block comment is found in a longer text if and only if it was there. -/
theorem blockComment_append (hc : c ∈ gaps) (hstar : (.scalar '*') ∉ y) (u : Text) :
    blockComment (u ++ c :: y) = blockComment u := by
  by_cases hzero : blockComment (u ++ c :: y) = 0
  · rw [hzero]
    simp only [blockComment_eq] at hzero ⊢
    split
    · obtain ⟨v, rfl⟩ := List.isPrefixOf_iff_prefix.mp ‹_›
      rw [List.append_assoc, if_pos (List.isPrefixOf_iff_prefix.mpr ⟨_, rfl⟩)] at hzero
      cases hend : commentEnd v with
      | none => exact (congrArg (fun o ↦ (Option.map (· + 2) o).getD 0) hend).symm
      | some n =>
        have hlonger : commentEnd (v ++ c :: y) = some n :=
          commentEnd_append (x := []) (by rw [List.append_nil, hend]) (commentEnd_le hend)
        exact absurd ((congrArg (fun o ↦ (Option.map (· + 2) o).getD 0) hlonger).symm.trans hzero)
          (by simp)
    · rfl
  · have := bounded_blockComment (fun _ ↦ hzero) .nothing (stops_blockComment hc hstar u)
    rw [← this, List.append_nil]

/-- A regular expression is looked for on one line only. -/
theorem regex_append_of_feed (hfeed : (.scalar '\n') ∈ u) (x : Text) :
    regex (u ++ x) = regex u := by
  obtain ⟨a, b, rfl⟩ := List.append_of_mem hfeed
  have hwithin : regex (a ++ []) ≤ a.length := by
    rw [List.append_nil]
    exact regex_le a
  rw [List.append_assoc, List.cons_append, bounded_regex a [] (.feed (b ++ x)) hwithin,
    bounded_regex a [] (.feed b) hwithin]

/-- A comment to the end of the line does not begin in the longer text alone. -/
theorem lineComment_append (hc : c ∈ gaps) (hno : ("//" : Text).isPrefixOf u = false) :
    lineComment (u ++ c :: y) = lineComment u := by
  have hgap : ∀ c ∈ gaps, c ∉ ("//" : Text) := by decide
  have hnot : ("//" : Text).isPrefixOf (u ++ c :: y) = false := by
    refine Bool.eq_false_iff.mpr fun h ↦ ?_
    have hlong := length_le_of_prefix (hgap c hc) (List.isPrefixOf_iff_prefix.mp h)
    rw [isPrefixOf_append hlong, hno] at h
    cases h
  rw [lineComment_eq, lineComment_eq, hnot, hno]
  rfl

/-- A token does not begin with a blank, and only a comment begins with two slashes. -/
theorem head_of_token (h : first? before u = some (some k, n)) (hk : k ≠ .lineComment) :
    (∃ d t, u = d :: t ∧ d.isBlank = false) ∧ ("//" : Text).isPrefixOf u = false := by
  constructor
  · cases u with
    | nil => exact absurd (le_of_first? h) (Nat.not_le.mpr (pos_of_first? h))
    | cons d t =>
      refine ⟨d, t, rfl, Bool.eq_false_iff.mpr fun hd ↦ ?_⟩
      rw [first?_of_isBlank hd] at h
      cases h
  · refine Bool.eq_false_iff.mpr fun hslashes ↦ ?_
    obtain ⟨v, rfl⟩ := List.isPrefixOf_iff_prefix.mp hslashes
    have hcomment := (first?_slashes before v).symm.trans h
    cases hcomment
    exact hk rfl

/-- **Every rule but one matches the same** if a blank is put behind what begins with a token, and
behind that blank something that closes nothing.  It is left open what becomes of regular
expressions. -/
theorem length_append (hc : c ∈ gaps) (hy : ∀ d ∈ ("*\"'`" : Text), d ∉ y)
    (h : first? before u = some (some k, n)) (hk : k ≠ .lineComment) :
    ∀ rule ∈ all, rule.kind ≠ some .regex → rule.length (u ++ c :: y) = rule.length u := by
  obtain ⟨⟨d, t, rfl, hd⟩, hslashes⟩ := head_of_token h hk
  have hend : Text.atWordEnd (c :: y) = true := by
    have hall : ∀ c ∈ gaps, c.isWord = false := by decide +kernel
    rw [Text.atWordEnd, hall c hc]
    rfl
  -- What is bounded by a line end and does not go on behind the blank finds its end before it.
  have hwithin : ∀ rule ∈ all, rule.kind ∉ [none, some .lineComment, some .regex] →
      Bounded rule.length (d :: t) (c :: y) →
        rule.length (d :: t ++ c :: y) = rule.length (d :: t) := by
    intro rule hrule htoken hbounded
    simp only [List.mem_cons, List.not_mem_nil, or_false, not_or] at htoken
    have hstops := stops_of_kind hc hy rule hrule htoken.1 htoken.2.1 fun h ↦ absurd h htoken.2.2
    rw [← hbounded .nothing (hstops _), List.append_nil]
  intro rule hrule
  revert hrule
  refine fun hrule ↦ forall_mem_all (P := fun rule ↦ rule ∈ all → rule.kind ≠ some .regex →
    rule.length (d :: t ++ c :: y) = rule.length (d :: t)) ?blank ?line ?block ?keyword ?console
    ?regular ?name ?numeral ?double ?single ?template ?mark rule hrule hrule
  case blank =>
    intro _ _
    show run _ (d :: (t ++ c :: y)) = run _ (d :: t)
    rw [run_cons, run_cons, hd]
    rfl
  case line => exact fun _ _ ↦ lineComment_append hc hslashes
  case block => exact fun _ _ ↦ blockComment_append hc (hy _ (by decide)) _
  case regular => exact fun _ hne ↦ absurd rfl hne
  case keyword =>
    exact fun k hrule _ ↦
      hwithin _ hrule (by simp) (bounded_word (by cases k <;> decide) fun _ ↦ hend)
  case console =>
    exact fun hrule _ ↦ hwithin _ hrule (by simp) (bounded_word (by decide) fun _ ↦ hend)
  case name => exact fun hrule _ ↦ hwithin _ hrule (by simp) (bounded_identifier _ _)
  case numeral => exact fun hrule _ ↦ hwithin _ hrule (by simp) (bounded_number _ _)
  case double | single =>
    exact fun hrule _ ↦
      hwithin _ hrule (by simp)
        (bounded_quotedLiteral (by decide) (by decide) _ fun h ↦ absurd h Bool.false_ne_true)
  case template =>
    refine fun hrule _ ↦ hwithin _ hrule (by simp)
      (bounded_quotedLiteral (by decide) (by decide) _ fun _ hu ↦ ?_)
    obtain rfl : d = '`' := Option.some.inj hu
    have hmatch := template_of_first? h
    rw [List.cons_append]
    rw [quotedLiteral_cons, if_pos rfl] at hmatch ⊢
    cases hclosed : literalEnd '`' true t with
    | none => rw [hclosed] at hmatch; exact absurd rfl hmatch
    | some m => rw [literalEnd_append_of_some (by decide) hclosed]; exact Nat.succ_ne_zero m
  case mark =>
    exact fun m hrule _ ↦ hwithin _ hrule (by simp) (bounded_literal (by cases m <;> decide) _ _)

theorem attempt_of_not_allowed {rule : Rule} (h : rule.allowed before = false) (t : Text) :
    attempt before t rule = none := by
  rw [attempt, h]
  exact if_neg fun hallowed ↦ Bool.false_ne_true hallowed.1

/-- **A token stays what it is in a longer text**, if a blank comes next and nothing is closed
behind it.  The exception is a slash that may begin a regular expression on the last line. -/
theorem first?_append (hc : c ∈ gaps) (hy : ∀ d ∈ ("*\"'`" : Text), d ∉ y)
    (h : first? before u = some (some k, n)) (hk : k ≠ .lineComment)
    (hregex : regexAllowed before = true → regex (u ++ c :: y) = regex u) :
    first? before (u ++ c :: y) = some (some k, n) := by
  have hregular : ∀ rule ∈ all, rule.kind = some .regex → rule.allowed before = true →
      rule.length (u ++ c :: y) = rule.length u := by
    refine forall_mem_all ?_ ?_ ?_ (fun _ ↦ ?_) ?_ (fun _ ↦ hregex) ?_ ?_ ?_ ?_ ?_ (fun _ ↦ ?_)
    all_goals
      intro hkind
      cases hkind
  rw [← h, first?, first?, ← List.head?_filterMap, ← List.head?_filterMap]
  refine congrArg List.head? (List.filterMap_congr fun rule hrule ↦ ?_)
  cases hallowed : rule.allowed before with
  | false => rw [attempt_of_not_allowed hallowed, attempt_of_not_allowed hallowed]
  | true =>
    have hlength : rule.length (u ++ c :: y) = rule.length u := by
      by_cases hkind : rule.kind = some .regex
      · exact hregular rule hrule hkind hallowed
      · exact length_append hc hy h hk rule hrule hkind
    rw [attempt, attempt, hlength]

/-! ## Slashes -/

/-- The marks that begin with a slash. -/
def slashes : List Kind := [.mark .slash, .mark .divideEqual]

/-- What begins with a slash is a slash, alone or before an equals sign, if it is neither a comment
nor a regular expression. -/
theorem mem_slashes {t : Text} (h : first? before (.scalar '/' :: t) = some (some k, n))
    (hfree : k.isFree = false) : k ∈ slashes := by
  have hstarts := starts_of_first? h
  cases k with
  | mark m =>
    cases m with
    | slash | divideEqual => decide
    | _ => cases hstarts
  | keyword w =>
    exact absurd (startsIdentifier_of_keyword (of_decide_eq_true hstarts)) (by decide)
  | lineComment | blockComment | regex => cases hfree
  | endOfInput | other => cases hstarts
  | _ => exact absurd hstarts (by decide)

/-- A token that is neither a comment nor a regular expression stays what it is in a longer text, if
it is not a slash that may begin a regular expression on the last line. -/
theorem first?_append_of_slashes (hc : c ∈ gaps) (hy : ∀ d ∈ ("*\"'`" : Text), d ∉ y)
    (h : first? before u = some (some k, n)) (hfree : k.isFree = false)
    (hslash : k ∈ slashes → regexAllowed before = true → (.scalar '\n') ∈ u) :
    first? before (u ++ c :: y) = some (some k, n) := by
  have hk : k ≠ .lineComment := by rintro rfl; cases hfree
  refine first?_append hc hy h hk fun hallowed ↦ ?_
  obtain ⟨⟨d, t, rfl, -⟩, -⟩ := head_of_token h hk
  by_cases hd : d = '/'
  · subst hd
    exact regex_append_of_feed (hslash (mem_slashes h hfree) hallowed) _
  · rw [List.cons_append, regex_of_ne hd, regex_of_ne hd]

/-- A slash behind a text on one line ends a regular expression. -/
theorem regexEnd_ne_none {v : Text} (hv : (.scalar '\n') ∉ v) (y : Text) :
    regexEnd false (v ++ .scalar ' ' :: .scalar '/' :: y) ≠ none := by
  rcases v with _ | ⟨c, v⟩
  · rw [List.nil_append]
    simp [regexEnd]
  rw [List.mem_cons, not_or] at hv
  by_cases hesc : c = '\\'
  · subst hesc
    rcases v with _ | ⟨d, v⟩
    · rw [List.singleton_append, regexEnd_escape, if_neg (by decide)]
      simp [regexEnd]
    · rw [List.mem_cons, not_or] at hv
      rw [List.cons_append, List.cons_append, regexEnd_escape, if_neg (Ne.symm hv.2.1)]
      exact fun h ↦ regexEnd_ne_none hv.2.2 y (Option.map_eq_none_iff.mp h)
  · have hrest := regexEnd_ne_none hv.2 y
    rw [List.cons_append, regexEnd_open (Ne.symm hv.1) hesc]
    split
    · exact Option.some_ne_none _
    split
    · -- An opening bracket stands for itself where no class is closed.
      cases regexEnd true (v ++ .scalar ' ' :: .scalar '/' :: y) with
      | none => exact fun h ↦ hrest (Option.map_eq_none_iff.mp h)
      | some n => exact Option.some_ne_none _
    · exact fun h ↦ hrest (Option.map_eq_none_iff.mp h)

/-- A slash begins a regular expression where that is allowed and where there is an end to it. -/
theorem first?_regex {t : Text} (hallowed : regexAllowed before = true)
    (hhead : ¬ (t.head? = some (.scalar '*') ∨ t.head? = some (.scalar '/')))
    (hend : regexEnd false t ≠ none) :
    ∃ n, first? before (.scalar '/' :: t) = some (some .regex, n) := by
  obtain ⟨n, hn⟩ := Option.ne_none_iff_exists'.mp hend
  have hregex : attempt before (.scalar '/' :: t) ⟨some .regex, regex, regexAllowed⟩ =
      some (some .regex, 1 + n + run isFlag (t.drop n)) := by
    refine attempt_eq_some.mpr ⟨hallowed, by omega, rfl, ?_⟩
    show regex (.scalar '/' :: t) = _
    rw [regex_slash, if_neg hhead, hn]
    rfl
  -- The rules that are tried before match words, blanks and comments.
  let earlier : List Rule := all.takeWhile fun rule ↦ rule.kind ≠ some .regex
  have hkinds : ∀ rule ∈ earlier, Kind.starts rule.kind '/' = true →
      rule.kind = some .lineComment ∨ rule.kind = some .blockComment := by decide
  have hcomments : ∀ rule ∈ all, rule.kind = some .lineComment ∨ rule.kind = some .blockComment →
      rule.length (.scalar '/' :: t) = 0 := by
    rintro rule hrule (hkind | hkind)
    · rw [length_of_matcher? rule hrule (congrArg matcher? hkind), lineComment_eq]
      refine if_neg fun h ↦ hhead (.inr ?_)
      obtain ⟨v, hv⟩ := List.isPrefixOf_iff_prefix.mp h
      rw [← (List.cons.inj hv).2]
      rfl
    · rw [length_of_matcher? rule hrule (congrArg matcher? hkind), blockComment_eq]
      refine if_neg fun h ↦ hhead (.inl ?_)
      obtain ⟨v, hv⟩ := List.isPrefixOf_iff_prefix.mp h
      rw [← (List.cons.inj hv).2]
      rfl
  refine ⟨_, List.findSome?_eq_some_iff.mpr ⟨earlier, _, _, rfl, hregex, fun rule hrule ↦ ?_⟩⟩
  have hmem : rule ∈ all := (List.takeWhile_subset _) hrule
  refine attempt_eq_none.mpr fun _ ↦ Nat.eq_zero_of_not_pos fun hpos ↦ ?_
  exact Nat.ne_of_gt hpos (hcomments rule hmem (hkinds rule hrule (starts_of_pos rule hmem hpos)))

end Rules

end Rule

/-! ## Scanning on -/

/-- Two divisions that are put behind a source. -/
def quotient : Text := " / b / c"

/-- The forms of the tokens of `quotient`. -/
def quotientForms : List (Kind × Lexeme) :=
  [(.mark .slash, "/"), (.identifier, "b"), (.mark .slash, "/"), (.identifier, "c")]

/-- Every slash on the given line stands behind a token that may end an operand. -/
def SlashesFollow (line : Int) : Option Kind → List Token → Prop
  | _, [] => True
  | before, t :: ts =>
    (t.kind ∈ Rule.slashes → t.pos.line = line → Rule.regexAllowed before = false) ∧
      SlashesFollow line (some t.kind) ts

instance (line : Int) : ∀ before ts, Decidable (SlashesFollow line before ts)
  | _, [] => .isTrue trivial
  | _, t :: ts =>
    have := instDecidableSlashesFollow line (some t.kind) ts
    inferInstanceAs (Decidable ((_ → _ → _) ∧ _))

section Scanning

variable {before : Option Kind} {p : Pos} {u t : Text} {fs gs : List (Kind × Lexeme)}

/-- A position stays on its line through a text if and only if there is no line feed in the text. -/
theorem Pos.line_advance (p : Pos) (u : Text) :
    (p.advance u).line = p.line ↔ (.scalar '\n') ∉ u := by
  rw [Pos.advance_eq_behind, Pos.behind, ← List.count_eq_zero]
  simp only
  omega

/-- Blanks at the beginning of a text are skipped. -/
theorem scans_blanks {gap : Text} (hgap : ∀ c ∈ gap, c.isBlank = true) :
    Scans before (gap ++ t) fs ↔ Scans before t fs := by
  induction gap with
  | nil => exact Iff.rfl
  | cons c gap ih =>
    rw [List.forall_mem_cons] at hgap
    rw [List.cons_append, scans_cons_blank hgap.1, ih hgap.2]

/-- Two divisions are scanned as such behind an operand. -/
theorem scans_quotient (h : Rule.regexAllowed before = false) :
    Scans before quotient quotientForms := by
  have hscans : Scans (some .identifier) quotient quotientForms :=
    (scans_iff Pos.origin).mpr (by decide +kernel)
  exact hscans.behind h.symm

/-- A slash on the last line, which may begin a regular expression, stands before a line feed if it
does not stand on the last line. -/
theorem SlashesFollow.feed {k : Kind} {l : Lexeme} {line : Int} {ts : List Token}
    (h : SlashesFollow line before (⟨k, l, p⟩ :: ts)) (hline : line = (p.advance u).line)
    (hslash : k ∈ Rule.slashes) (hallowed : Rule.regexAllowed before = true) :
    (.scalar '\n') ∈ u := by
  by_contra hfeed
  have hsame := (Pos.line_advance p u).mpr hfeed
  rw [h.1 hslash (hline.trans hsame).symm] at hallowed
  cases hallowed

/-- A token stays what it is before two divisions, if it is not a slash that may begin a regular
expression on the last line. -/
theorem Rule.first?_quotient {k : Kind} {n : Nat} (h : Rule.first? before u = some (some k, n))
    (hfree : k.isFree = false)
    (hfeed : k ∈ Rule.slashes → Rule.regexAllowed before = true → (.scalar '\n') ∈ u) :
    Rule.first? before (u ++ quotient) = some (some k, n) :=
  Rule.first?_append_of_slashes (c := .scalar ' ') (y := "/ b / c") (by decide) (by decide) h hfree
    hfeed

/-- A slash that may begin a regular expression does so before two divisions, unless a line feed
comes first. -/
theorem Rule.first?_regex_quotient (hallowed : Rule.regexAllowed before = true)
    (hhead : ¬ (t.head? = some (.scalar '*') ∨ t.head? = some (.scalar '/')))
    (hfeed : (.scalar '\n') ∉ t) :
    ∃ n, Rule.first? before (.scalar '/' :: (t ++ quotient)) = some (some .regex, n) := by
  refine Rule.first?_regex hallowed ?_ (Rule.regexEnd_ne_none hfeed (" b / c"))
  cases t with
  | nil => decide
  | cons d t => exact hhead

/-- What is matched at the beginning of a text is its first token. -/
theorem Scans.of_first? {k : Kind} {n : Nat} (h : Scans before t gs)
    (hfirst : Rule.first? before t = some (some k, n)) :
    ∃ hs, gs = (k, .text (t.take n)) :: hs ∧ Scans (some k) (t.drop n) hs := by
  cases h with
  | done => exact absurd (Rule.le_of_first? hfirst) (Nat.not_le.mpr (Rule.pos_of_first? hfirst))
  | blank h =>
    rw [hfirst] at h
    cases h
  | token h hrest =>
    rw [hfirst] at h
    cases h
    exact ⟨_, rfl, hrest⟩

/-- **Tokens stay what they are before two divisions** if no slash on the last line may begin a
regular expression. -/
theorem Scan.continued {slash : Token} (hkind : slash.kind = .mark .slash)
    (hline : slash.pos.line = (p.advance u).line) (herror : (ofText before p u).error? = none)
    (hfree : ∀ t ∈ (ofText before p u).tokens, t.kind.isFree = false)
    (hslashes : SlashesFollow (p.advance u).line before ((ofText before p u).tokens ++ [slash])) :
    Scans before (u ++ quotient) ((ofText before p u).tokens.map Token.form ++ quotientForms) := by
  fun_induction ofText before p u with
  | case1 before p => exact scans_quotient (hslashes.1 (by rw [hkind]; decide) hline)
  | case2 before p c rest hfirst => cases herror
  | case3 before p c rest kind n hfirst lexeme token? ih =>
    have htext : c :: rest ++ quotient = lexeme ++ ((c :: rest).drop n ++ quotient) := by
      rw [← List.append_assoc, List.take_append_drop]
    have hadvance : p.advance (c :: rest) = (p.advance lexeme).advance ((c :: rest).drop n) := by
      rw [← Pos.advance_append, List.take_append_drop]
    have hfeed := @SlashesFollow.feed before p (c :: rest)
    rw [hadvance] at hline hslashes hfeed
    cases kind with
    | none =>
      rw [htext, scans_blanks (Rule.isBlank_of_first? hfirst)]
      exact ih hline herror hfree hslashes
    | some k =>
      have hrest := ih hline herror (fun t ht ↦ hfree t (List.mem_cons_of_mem _ ht)) hslashes.2
      have hlonger := Rule.first?_quotient hfirst (hfree _ List.mem_cons_self) (hfeed hslashes rfl)
      have hn : lexeme.length = n := List.length_take_of_le (Rule.le_of_first? hfirst)
      rw [htext]
      refine .cons ?_ hrest
      rw [← htext, hn]
      exact hlonger

/-- A mark stands at the beginning of the text it is matched in. -/
theorem Rule.exists_of_mark {m : Mark} {n : Nat}
    (h : Rule.first? before t = some (some (.mark m), n)) :
    ∃ v, t = m.spelling ++ v ∧ n = m.spelling.length := by
  obtain ⟨rule, hrule, hkind, rfl, hpos⟩ := Rule.exists_of_first? h
  have htake := Rule.take_of_spelling rfl rule hrule hkind hpos
  refine ⟨t.drop (rule.length t), ?_, ?_⟩
  · rw [← htake, List.take_append_drop]
  · rw [← htake, List.length_take_of_le (Rule.length_le rule hrule)]

/-- A slash in a list of tokens without a star behind a slash is not the beginning of a comment. -/
theorem slash_of_token {c : CodePoint} {k : Kind} {n : Nat}
    (hfirst : Rule.first? before (c :: t) = some (some k, n)) (hslash : k ∈ Rule.slashes)
    (hrest : Scans (some k) ((c :: t).drop n) fs)
    (hstars : ((k, .text ((c :: t).take n)) :: fs).IsChain Unopened) :
    c = '/' ∧ ¬ (t.head? = some (.scalar '*') ∨ t.head? = some (.scalar '/')) := by
  have hline : k ≠ .lineComment := by rintro rfl; exact absurd hslash (by decide)
  simp only [Rule.slashes, List.mem_cons, List.not_mem_nil, or_false] at hslash
  obtain rfl | rfl := hslash
  · obtain ⟨v, ht, rfl⟩ := Rule.exists_of_mark hfirst
    obtain ⟨rfl, rfl⟩ := List.cons.inj (ht : c :: t = .scalar '/' :: v)
    refine ⟨rfl, fun hhead ↦ ?_⟩
    obtain ⟨w, rfl⟩ | ⟨w, rfl⟩ := hhead.imp List.head?_eq_some_iff.mp List.head?_eq_some_iff.mp
    · exact Scans.not_star hrest hstars
    · exact absurd (Rule.head_of_token hfirst hline).2 (Bool.false_ne_true ·.symm)
  · obtain ⟨v, ht, rfl⟩ := Rule.exists_of_mark hfirst
    obtain ⟨rfl, rfl⟩ := List.cons.inj (ht : c :: t = .scalar '/' :: .scalar '=' :: v)
    refine ⟨rfl, fun hhead ↦ ?_⟩
    obtain h | h := hhead <;> cases h

/-- **Two divisions behind a source are not scanned as such** if a slash on the last line may begin
a regular expression: that slash does. -/
theorem slashesFollow_of_scans {slash : Token} (hline : slash.pos.line = (p.advance u).line)
    (herror : (Scan.ofText before p u).error? = none)
    (hfree : ∀ t ∈ (Scan.ofText before p u).tokens, t.kind.isFree = false)
    (hstars : ((Scan.ofText before p u).tokens.map Token.form).IsChain Unopened)
    (hscans : Scans before (u ++ quotient) gs) (hregex : ∀ g ∈ gs, g.1 ≠ .regex) :
    SlashesFollow (p.advance u).line before ((Scan.ofText before p u).tokens ++ [slash]) := by
  fun_induction Scan.ofText before p u generalizing gs with
  | case1 before p =>
    refine ⟨fun _ _ ↦ Bool.eq_false_iff.mpr fun hallowed ↦ ?_, trivial⟩
    obtain ⟨n, hfirst⟩ := Rule.first?_regex (t := " b / c") hallowed (by decide) (by decide)
    obtain ⟨hs, rfl, -⟩ := ((scans_cons_blank (by decide)).mp hscans).of_first? hfirst
    exact hregex _ List.mem_cons_self rfl
  | case2 before p c rest hfirst => cases herror
  | case3 before p c rest kind n hfirst lexeme token? =>
    rename_i ih
    have hadvance : p.advance (c :: rest) = (p.advance lexeme).advance ((c :: rest).drop n) := by
      rw [← Pos.advance_append, List.take_append_drop]
    have hlast := Pos.line_advance p (c :: rest)
    rw [hadvance] at hline hlast ⊢
    cases kind with
    | none =>
      have htext : c :: rest ++ quotient = lexeme ++ ((c :: rest).drop n ++ quotient) := by
        rw [← List.append_assoc, List.take_append_drop]
      rw [htext, scans_blanks (Rule.isBlank_of_first? hfirst)] at hscans
      exact ih hline herror hfree hstars hscans hregex
    | some k =>
      have hk := hfree _ List.mem_cons_self
      have hn := Rule.le_of_first? hfirst
      -- A slash that may begin a regular expression stands before a line feed.
      have hfeed : k ∈ Rule.slashes → Rule.regexAllowed before = true →
          (.scalar '\n') ∈ c :: rest := by
        intro hslash hallowed
        by_contra hfeed
        obtain ⟨rfl, hhead⟩ := slash_of_token hfirst hslash (scans_ofText _ herror) hstars
        rw [List.mem_cons, not_or] at hfeed
        obtain ⟨m, hlonger⟩ := Rule.first?_regex_quotient hallowed hhead hfeed.2
        obtain ⟨hs, rfl, -⟩ := hscans.of_first? hlonger
        exact hregex _ List.mem_cons_self rfl
      have hlonger := Rule.first?_quotient hfirst hk hfeed
      obtain ⟨hs, rfl, hrest⟩ := hscans.of_first? hlonger
      rw [List.drop_append_of_le_length hn] at hrest
      refine ⟨fun hslash hsame ↦ Bool.eq_false_iff.mpr fun hallowed ↦ ?_, ih hline herror
        (fun t ht ↦ hfree t (List.mem_cons_of_mem _ ht)) hstars.tail hrest
        fun g hg ↦ hregex g (List.mem_cons_of_mem _ hg)⟩
      exact hlast.mp hsame.symm (hfeed hslash hallowed)

end Scanning

end Advplc

import Advplc.Proofs.Token.Match.Enclosed

/-!
# The first rule that matches, with a line end behind it

The rules are tried one after another, and the first one that matches is taken.  `first?_lineEnd`
puts the rules together: if the first rule matches within a text, it stays the first one when what
stands behind the text is replaced by a line end.

`Kind.starts` says with which code points the tokens of a kind begin.  A match that begins like a
word and not with a digit is therefore a word, and no longer word goes on behind it
(`atWordEnd_of_match`).
-/

set_option autoImplicit false

namespace Advplc

namespace Rule

open Text (LineEnd)

/-! ## The rules together -/

/-- What holds for each of the rules holds for all of them. -/
theorem forall_mem_all {P : Rule → Prop} (blank : P ⟨none, run CodePoint.isBlank, fun _ ↦ true⟩)
    (line : P ⟨some .lineComment, lineComment, fun _ ↦ true⟩)
    (block : P ⟨some .blockComment, blockComment, fun _ ↦ true⟩)
    (keyword : ∀ k : Keyword, P ⟨some (.keyword k), word k.spelling, fun _ ↦ true⟩)
    (console : P ⟨some .consoleLog, word "console.log", fun _ ↦ true⟩)
    (regular : P ⟨some .regex, regex, regexAllowed⟩)
    (name : P ⟨some .identifier, identifier, fun _ ↦ true⟩)
    (numeral : P ⟨some .number, number, fun _ ↦ true⟩)
    (double : P ⟨some .string, quotedLiteral '"' false, fun _ ↦ true⟩)
    (single : P ⟨some .string, quotedLiteral '\'' false, fun _ ↦ true⟩)
    (template : P ⟨some .template, quotedLiteral '`' true, fun _ ↦ true⟩)
    (mark : ∀ m : Mark, P ⟨some (.mark m), literal m.spelling, fun _ ↦ true⟩) :
    ∀ rule ∈ all, P rule := by
  intro rule h
  simp only [all, List.mem_append, List.mem_cons, List.not_mem_nil, or_false, List.mem_map] at h
  obtain ((((rfl | rfl | rfl) | ⟨k, -, rfl⟩) | rfl | rfl | rfl | rfl | rfl | rfl | rfl) |
    ⟨m, -, rfl⟩) := h
  · exact blank
  · exact line
  · exact block
  · exact keyword k
  · exact console
  · exact regular
  · exact name
  · exact numeral
  · exact double
  · exact single
  · exact template
  · exact mark m

/-- What the rules of a kind match by, where it is the same for all of them. -/
def matcher? : Option Kind → Option (Text → Nat)
  | none => some (run CodePoint.isBlank)
  | some .lineComment => some lineComment
  | some .blockComment => some blockComment
  | some (.keyword k) => some (word k.spelling)
  | some .consoleLog => some (word "console.log")
  | some .regex => some regex
  | some .identifier => some identifier
  | some .number => some number
  | some .template => some (quotedLiteral '`' true)
  | some (.mark m) => some (literal m.spelling)
  | _ => none

theorem length_of_matcher? {f : Text → Nat} :
    ∀ rule ∈ all, matcher? rule.kind = some f → rule.length = f := by
  refine forall_mem_all ?_ ?_ ?_ (fun _ ↦ ?_) ?_ ?_ ?_ ?_ ?double ?single ?_ (fun _ ↦ ?_)
  case double | single => exact nofun
  all_goals exact Option.some.inj

theorem allowed_of_ne_regex : ∀ rule ∈ all, rule.kind ≠ some .regex →
    ∀ before, rule.allowed before = true := by
  refine forall_mem_all ?_ ?_ ?_ (fun _ ↦ ?_) ?_ ?regular ?_ ?_ ?_ ?_ ?_ (fun _ ↦ ?_)
  case regular => exact fun h ↦ absurd rfl h
  all_goals exact fun _ _ ↦ rfl

end Rule

theorem Ranges.exists_of_has {rs : Ranges} {n : Nat} (h : rs.has n = true) :
    ∃ p ∈ rs, p.1 ≤ n ∧ n ≤ p.2 := by
  induction rs with
  | nil => cases h
  | cons p rs ih =>
    rw [Ranges.has] at h
    split at h
    · cases h
    · rw [Bool.or_eq_true, decide_eq_true_eq] at h
      obtain h | h := h
      · exact ⟨p, List.mem_cons_self, by omega, h⟩
      · obtain ⟨q, hq, hn⟩ := ih h
        exact ⟨q, List.mem_cons_of_mem p hq, hn⟩

/-- Whether a token of this kind may begin with the given code point; what is no token is blank. -/
def Kind.starts : Option Kind → CodePoint → Bool
  | none, c => c.isBlank
  | some .lineComment, c | some .blockComment, c | some .regex, c => c = '/'
  | some (.keyword k), c => k.spelling.head? = some c
  | some .consoleLog, c => c = 'c'
  | some .identifier, c => Rule.startsIdentifier c
  | some .number, c => c.isDigit
  | some .string, c => c = '"' ∨ c = '\''
  | some .template, c => c = '`'
  | some (.mark m), c => m.spelling.head? = some c
  | some .endOfInput, _ | some (.other _), _ => false

/-- Whether the tokens of this kind are made of letters. -/
def Kind.isVerbal : Kind → Bool
  | .keyword _ | .consoleLog | .identifier => true
  | _ => false

namespace Rule

open Text (LineEnd)

theorem head_of_isPrefixOf {w t : Text} {c : CodePoint} (hw : w ≠ [])
    (h : w.isPrefixOf (c :: t) = true) : w.head? = some c := by
  cases w with
  | nil => exact absurd rfl hw
  | cons d w =>
    rw [List.isPrefixOf_cons_cons, Bool.and_eq_true, beq_iff_eq] at h
    rw [h.1]
    rfl

theorem head_of_quotedLiteral {quote c : CodePoint} {severalLines : Bool} {t : Text}
    (h : 0 < quotedLiteral quote severalLines (c :: t)) : c = quote := by
  rw [quotedLiteral_cons] at h
  by_cases hc : c = quote
  · exact hc
  · rw [if_neg hc] at h
    exact absurd h (Nat.lt_irrefl 0)

theorem isPrefixOf_of_word {w t : Text} (h : 0 < word w t) : w.isPrefixOf t = true := by
  rw [word] at h
  split at h
  · exact And.left ‹_›
  · exact absurd h (Nat.lt_irrefl 0)

theorem isPrefixOf_of_literal {w t : Text} (h : 0 < literal w t) : w.isPrefixOf t = true := by
  rw [literal] at h
  split at h
  · assumption
  · exact absurd h (Nat.lt_irrefl 0)

/-- **The first code point of a match** is one with which a token of its kind may begin. -/
theorem starts_of_pos {c : CodePoint} {t : Text} :
    ∀ rule ∈ all, 0 < rule.length (c :: t) → Kind.starts rule.kind c = true := by
  refine forall_mem_all ?blank ?line ?block ?keyword ?console ?regular ?name ?numeral ?double
    ?single ?template ?mark
  case blank =>
    show 0 < run CodePoint.isBlank (c :: t) → c.isBlank = true
    rw [run_cons]
    cases c.isBlank <;> simp
  case line =>
    show 0 < lineComment (c :: t) → decide (c = '/') = true
    rw [lineComment_eq]
    split
    · intro _
      have := head_of_isPrefixOf (w := "//") (by decide) ‹_›
      exact decide_eq_true (Option.some.inj this).symm
    · simp
  case block =>
    show 0 < blockComment (c :: t) → decide (c = '/') = true
    rw [blockComment_eq]
    split
    · intro _
      have := head_of_isPrefixOf (w := "/*") (by decide) ‹_›
      exact decide_eq_true (Option.some.inj this).symm
    · simp
  case keyword =>
    intro k h
    exact decide_eq_true (head_of_isPrefixOf (by cases k <;> decide) (isPrefixOf_of_word h))
  case console =>
    intro h
    have := head_of_isPrefixOf (by decide) (isPrefixOf_of_word h)
    exact decide_eq_true (Option.some.inj this).symm
  case regular =>
    show 0 < regex (c :: t) → decide (c = '/') = true
    intro h
    by_cases hc : c = '/'
    · exact decide_eq_true hc
    · rw [regex_of_ne hc] at h
      exact absurd h (Nat.lt_irrefl 0)
  case name =>
    show 0 < identifier (c :: t) → startsIdentifier c = true
    rw [identifier]
    cases startsIdentifier c <;> simp
  case numeral =>
    show 0 < number (c :: t) → c.isDigit = true
    simp only [number, run_cons]
    cases c.isDigit <;> simp
  case double => exact fun h ↦ decide_eq_true (.inl (head_of_quotedLiteral h))
  case single => exact fun h ↦ decide_eq_true (.inr (head_of_quotedLiteral h))
  case template => exact fun h ↦ decide_eq_true (head_of_quotedLiteral h)
  case mark =>
    intro m h
    exact decide_eq_true (head_of_isPrefixOf (by cases m <;> decide) (isPrefixOf_of_literal h))

/-! ## Where words end -/

theorem not_isWord_of_isBlank {c : CodePoint} (h : c.isBlank = true) : c.isWord = false := by
  have hall : ∀ p ∈ blankRanges, ∀ i < p.2 + 1 - p.1, wordRanges.has (p.1 + i) = false := by
    decide +kernel
  obtain ⟨p, hp, hlow, hhigh⟩ := Ranges.exists_of_has h
  have := hall p hp (c.val - p.1) (by omega)
  rwa [Nat.add_sub_cancel' hlow] at this

theorem not_isWord_of_mark {m : Mark} {c : CodePoint} (h : m.spelling.head? = some c) :
    c.isWord = false := by
  cases m <;> (cases h; decide)

theorem startsIdentifier_of_keyword {k : Keyword} {c : CodePoint} (h : k.spelling.head? = some c) :
    startsIdentifier c = true := by
  cases k <;> (cases h; decide)

/-- A token that begins with a word character is a numeral or made of letters. -/
theorem starts_of_isWord {k : Option Kind} {c : CodePoint} (h : Kind.starts k c = true)
    (hc : c.isWord = true) : k = some .number ∧ c.isDigit = true ∨
      (k.any Kind.isVerbal = true ∧ startsIdentifier c = true) := by
  cases k with
  | none =>
    rw [not_isWord_of_isBlank h] at hc
    cases hc
  | some k =>
    cases k with
    | keyword k => exact .inr ⟨rfl, startsIdentifier_of_keyword (of_decide_eq_true h)⟩
    | mark m =>
      rw [not_isWord_of_mark (of_decide_eq_true h)] at hc
      cases hc
    | identifier => exact .inr ⟨rfl, h⟩
    | number => exact .inl ⟨rfl, h⟩
    | consoleLog =>
      rw [of_decide_eq_true h]
      exact .inr ⟨rfl, rfl⟩
    | endOfInput => cases h
    | other n => cases h
    | string =>
      obtain rfl | rfl := of_decide_eq_true h
      · cases hc
      · cases hc
    | lineComment | blockComment | regex | template =>
      rw [of_decide_eq_true h] at hc
      cases hc

theorem continuesIdentifier_of_starts {c : CodePoint} (h : startsIdentifier c = true) :
    continuesIdentifier c = true := by
  cases c with
  | surrogate i => cases h
  | scalar c =>
    rw [startsIdentifier, Bool.or_eq_true] at h
    rw [continuesIdentifier, Char.isAlphanum, Bool.or_eq_true, Bool.or_eq_true]
    exact h.elim (fun h ↦ .inl (.inl h)) .inr

section LineEnds

variable {before : Option Kind} {k : Kind} {c : CodePoint} {w x r : Text}

theorem atWordEnd_of_word {s : Text} (h : word s (c :: w ++ x) = (c :: w).length) :
    Text.atWordEnd x = true := by
  rw [word] at h
  split at h
  · rename_i hs
    rw [h, List.drop_left] at hs
    exact hs.2
  · cases h

/-- Behind a match that begins like a word the word is over, if that holds for identifiers. -/
theorem atWordEnd_of_match (hword : c.isWord = true) (hdigit : c.isDigit = false) :
    ∀ rule ∈ all, rule.length (c :: w ++ x) = (c :: w).length → Kind.starts rule.kind c = true →
      (rule.kind = some .identifier → Text.atWordEnd x = true) → Text.atWordEnd x = true := by
  have hverbal : ∀ {k : Option Kind}, Kind.starts k c = true → k.any Kind.isVerbal = true := by
    intro k hk
    obtain ⟨-, hc⟩ | ⟨hk, -⟩ := starts_of_isWord hk hword
    · rw [hdigit] at hc
      cases hc
    · exact hk
  refine forall_mem_all ?_ ?_ ?_ ?keyword ?console ?_ ?name ?_ ?_ ?_ ?_ ?_
  case keyword => exact fun _ h _ _ ↦ atWordEnd_of_word h
  case console => exact fun h _ _ ↦ atWordEnd_of_word h
  case name => exact fun _ _ h ↦ h rfl
  all_goals intros; cases hverbal ‹_›

theorem eq_of_literal {s : Text} (h : literal s (w ++ x) = w.length) (hw : 0 < w.length) :
    s = w := by
  have hs := List.isPrefixOf_iff_prefix.mp (isPrefixOf_of_literal (h ▸ hw))
  rw [literal, if_pos (List.isPrefixOf_iff_prefix.mpr hs)] at h
  have hprefix := List.prefix_of_prefix_length_le hs (List.prefix_append w x) (Nat.le_of_eq h)
  exact hprefix.eq_of_length h

/-- What is matched and begins with `/*` is matched as a block comment. -/
theorem blockComment_of_match (hw : ("/*" : Text).isPrefixOf w = true) (rule : Rule)
    (hrule : rule ∈ all) (hlen : rule.length (w ++ x) = w.length) : blockComment (w ++ x) ≠ 0 := by
  obtain ⟨v, rfl⟩ := List.isPrefixOf_iff_prefix.mp hw
  have hpos : 0 < (("/*" : Text) ++ v).length := Nat.succ_pos _
  have hstarts : Kind.starts rule.kind '/' = true := starts_of_pos rule hrule (hlen ▸ hpos)
  revert rule
  refine forall_mem_all ?_ ?line ?block ?keyword ?_ ?regular ?_ ?_ ?_ ?_ ?_ ?mark
  case line =>
    intro h _
    have hline : 0 = (("/*" : Text) ++ v).length := h
    exact absurd hline (Nat.ne_of_lt hpos)
  case block =>
    intro h _
    have hblock : blockComment (("/*" : Text) ++ v ++ x) = (("/*" : Text) ++ v).length := h
    exact hblock ▸ Nat.ne_of_gt hpos
  case regular =>
    intro h _
    have hregex : 0 = (("/*" : Text) ++ v).length := h
    exact absurd hregex (Nat.ne_of_lt hpos)
  case keyword =>
    intro k _ h
    exact absurd (startsIdentifier_of_keyword (of_decide_eq_true h)) (by decide)
  case mark =>
    intro m h _
    have hm := eq_of_literal h hpos
    have : ¬ ("/*" : Text).isPrefixOf m.spelling := by cases m <;> decide
    exact absurd (hm ▸ hw) this
  all_goals exact fun _ h ↦ absurd h (by decide)

/-- What is matched and begins with a backtick is matched as a template. -/
theorem template_of_match (hw : w.head? = some (.scalar '`')) (rule : Rule) (hrule : rule ∈ all)
    (hlen : rule.length (w ++ x) = w.length) : quotedLiteral '`' true (w ++ x) ≠ 0 := by
  obtain ⟨v, rfl⟩ := List.head?_eq_some_iff.mp hw
  have hpos : 0 < (.scalar '`' :: v : Text).length := Nat.succ_pos _
  have hstarts : Kind.starts rule.kind '`' = true := starts_of_pos rule hrule (hlen ▸ hpos)
  revert rule
  refine forall_mem_all ?_ ?_ ?_ ?keyword ?_ ?_ ?_ ?_ ?_ ?_ ?template ?mark
  case keyword =>
    intro k _ h
    exact absurd (startsIdentifier_of_keyword (of_decide_eq_true h)) (by decide)
  case template =>
    intro h _
    have htemplate : quotedLiteral '`' true (.scalar '`' :: v ++ x) = v.length + 1 := h
    exact htemplate ▸ Nat.succ_ne_zero _
  case mark =>
    intro m _ h
    exact absurd h (by cases m <;> decide)
  all_goals exact fun _ h ↦ absurd h (by decide)

theorem attempt_eq_some {rule : Rule} {t : Text} {k : Option Kind} {n : Nat} :
    rule.attempt before t = some (k, n) ↔
      rule.allowed before = true ∧ 0 < n ∧ rule.kind = k ∧ rule.length t = n := by
  rw [attempt]
  split
  · rename_i h
    simp only [Option.some.injEq, Prod.mk.injEq]
    constructor
    · rintro ⟨hk, hn⟩
      exact ⟨h.1, hn ▸ h.2, hk, hn⟩
    · rintro ⟨-, -, hk, hn⟩
      exact ⟨hk, hn⟩
  · rename_i h
    constructor
    · intro hnone
      cases hnone
    · rintro ⟨ha, hn, -, hl⟩
      exact absurd ⟨ha, hl ▸ hn⟩ h

theorem attempt_eq_none {rule : Rule} {t : Text} :
    rule.attempt before t = none ↔ (rule.allowed before = true → rule.length t = 0) := by
  rw [attempt]
  split
  · rename_i h
    simp only [reduceCtorEq, false_iff, Classical.not_imp]
    exact ⟨h.1, Nat.ne_of_gt h.2⟩
  · rename_i h
    simp only [true_iff]
    intro ha
    exact Nat.eq_zero_of_not_pos fun hpos ↦ h ⟨ha, hpos⟩

/-- Every rule matches the same before a line end, once one of them has matched `w`. -/
theorem bounded_of_match {rule : Rule} (hrule : rule ∈ all) (hkind : rule.kind = some k)
    (hpos : 0 < w.length) (hlen : rule.length (w ++ x) = w.length)
    (hend : k = .identifier → Text.atWordEnd x = true) :
    ∀ q ∈ all, (q.kind = none → q.length (w ++ x) = 0) → Bounded q.length w x := by
  have hword : ∀ s : Text, (∀ c, s.head? = some c → c.isWord = true ∧ c.isDigit = false) →
      w = s → Text.atWordEnd x = true := by
    rintro s hs rfl
    cases w with
    | nil => exact absurd hpos (Nat.lt_irrefl 0)
    | cons c w =>
      obtain ⟨hc, hdigit⟩ := hs c rfl
      refine atWordEnd_of_match hc hdigit rule hrule hlen
        (starts_of_pos rule hrule (hlen ▸ hpos)) ?_
      exact fun h ↦ hend (Option.some.inj (hkind.symm.trans h))
  refine forall_mem_all ?blank ?line ?block ?keyword ?console ?regular ?name ?numeral ?double
    ?single ?template ?mark
  case blank => exact fun h ↦ bounded_run_of_zero (h rfl) (List.ne_nil_of_length_pos hpos)
  case line => exact fun _ ↦ bounded_lineComment w x
  case block => exact fun _ ↦ bounded_blockComment fun hw ↦ blockComment_of_match hw rule hrule hlen
  case keyword =>
    intro k _
    refine bounded_word (by cases k <;> decide) (hword _ fun c hc ↦ ?_)
    cases k <;> (cases hc; decide)
  case console =>
    refine fun _ ↦ bounded_word (by decide) (hword _ fun c hc ↦ ?_)
    cases hc
    decide
  case regular => exact fun _ ↦ bounded_regex w x
  case name => exact fun _ ↦ bounded_identifier w x
  case numeral => exact fun _ ↦ bounded_number w x
  case double => exact fun _ ↦ bounded_quotedLiteral (by decide) (by decide) w fun h ↦ by cases h
  case single => exact fun _ ↦ bounded_quotedLiteral (by decide) (by decide) w fun h ↦ by cases h
  case template =>
    exact fun _ ↦ bounded_quotedLiteral (by decide) (by decide) w fun _ hw ↦
      template_of_match hw rule hrule hlen
  case mark => exact fun m _ ↦ bounded_literal (by cases m <;> decide) w x

/-- The rule that matches first, and within `u`, is the first one to match before a line end, if the
rules up to it find the same there. -/
theorem first?_of_bounded {u : Text} {k : Option Kind} {n : Nat} (hr : LineEnd r)
    (h : first? before (u ++ x) = some (k, n)) (hn : n ≤ u.length)
    (hbounded : ∀ q ∈ all, (q.kind = k ∨ q.length (u ++ x) = 0) → Bounded q.length u x) :
    first? before (u ++ r) = some (k, n) := by
  rw [first?, List.findSome?_eq_some_iff] at h ⊢
  obtain ⟨l₁, rule, l₂, hall, hrule, hbefore⟩ := h
  obtain ⟨hallowed, hpos, hkind, hlen⟩ := attempt_eq_some.mp hrule
  have hmem : rule ∈ all := hall ▸ List.mem_append_right l₁ List.mem_cons_self
  refine ⟨l₁, rule, l₂, hall, attempt_eq_some.mpr ⟨hallowed, hpos, hkind, ?_⟩, fun q hq ↦ ?_⟩
  · rw [hbounded rule hmem (.inl hkind) hr (hlen ▸ hn), hlen]
  · rw [attempt_eq_none]
    intro ha
    have hzero := attempt_eq_none.mp (hbefore q hq) ha
    have hq : q ∈ all := hall ▸ List.mem_append_left _ hq
    rw [hbounded q hq (.inr hzero) hr (hzero ▸ Nat.zero_le _), hzero]

/-- **What the lexer matches is matched again before a line end.**  An identifier must not have been
cut out of a longer word, since it may be a reserved word. -/
theorem first?_lineEnd (h : first? before (w ++ x) = some (some k, w.length))
    (hend : k = .identifier → Text.atWordEnd x = true) (hr : LineEnd r) :
    first? before (w ++ r) = some (some k, w.length) := by
  obtain ⟨rule, hmem, hattempt⟩ := List.exists_of_findSome?_eq_some h
  obtain ⟨-, hpos, hkind, hlen⟩ := attempt_eq_some.mp hattempt
  refine first?_of_bounded hr h (Nat.le_refl _) fun q hq hmatch ↦ ?_
  refine bounded_of_match hmem hkind hpos hlen hend q hq fun hnone ↦ ?_
  exact hmatch.resolve_left fun hk ↦ by rw [hnone] at hk; cases hk

end LineEnds

end Rule

end Advplc

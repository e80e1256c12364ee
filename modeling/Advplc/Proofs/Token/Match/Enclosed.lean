import Advplc.Proofs.Token.Match.Basic

/-!
# What is matched up to an end of its own

Comments, regular expressions, strings and templates are matched up to an end of their own.  The end
of a line comment is the end of its line, and a regular expression or a string cannot go over a line
end at all, so none of them depends on what stands in later lines.  A block comment or a template
can go over line ends, and is matched within a text only if it is closed in it.

For each of them there is a function that looks for the end (`commentEnd`, `regexEnd`,
`literalEnd`), and a lemma that it finds the same end in `u ++ r` as in `u ++ x` if that lies within
`u` (`commentEnd_append`, `regexEnd_append`, `literalEnd_append`).  These are proved by going
through `u`, one code point at a time or two after a backslash.  What is matched is bounded by `u`
because of them (`bounded_…`).
-/

set_option autoImplicit false

namespace Advplc

namespace Rule

open Text (LineEnd)

/-! ## Comments -/

section Comments

variable {u x r : Text}

/-- A line comment goes up to its line end, whatever stands there. -/
theorem lineComment_eq (t : Text) : lineComment t =
    if ("//" : Text).isPrefixOf t then 2 + run (· ≠ '\n') (t.drop 2) else 0 := by
  fun_cases lineComment t with
  | case1 rest => rfl
  | case2 t h =>
    rw [if_neg]
    intro ht
    obtain ⟨rest, rfl⟩ := List.isPrefixOf_iff_prefix.mp ht
    exact h rest rfl

/-- Whether two slashes begin the text is seen within `u`, unless it is shorter than that. -/
theorem bounded_lineComment (u x : Text) : Bounded lineComment u x := by
  intro r hr h
  simp only [lineComment_eq, isPrefixOf_lineEnd (w := "//") (by decide) hr] at h ⊢
  by_cases hlong : 2 ≤ u.length
  · rw [isPrefixOf_append (w := "//") hlong] at h ⊢
    split
    · rw [if_pos ‹_›] at h
      rw [List.drop_append_of_le_length hlong, List.drop_append_of_le_length hlong] at *
      rw [bounded_run (by decide) (u.drop 2) x hr]
      rw [List.length_drop]
      omega
    · rfl
  · -- One slash at the end of `u` is not enough, and what comes behind a line end does not add
    -- another.
    have hu : ¬ ("//" : Text).isPrefixOf u :=
      fun hu ↦ hlong (List.isPrefixOf_iff_prefix.mp hu).length_le
    rw [if_neg hu]
    split at h
    · omega
    · rw [if_neg ‹_›]

/-- A comment ends where a star and a slash come next. -/
theorem commentEnd_cons (c : CodePoint) (t : Text) : commentEnd (c :: t) =
    if c = '*' ∧ t.head? = some (.scalar '/') then some 2 else (commentEnd t).map (· + 1) := by
  by_cases h : c = '*' ∧ t.head? = some (.scalar '/')
  · obtain ⟨rfl, ht⟩ := h
    obtain ⟨rest, rfl⟩ := List.head?_eq_some_iff.mp ht
    simp [commentEnd]
  · rw [if_neg h, commentEnd]
    intro rest hc ht
    exact h ⟨hc, by rw [ht]; rfl⟩

/-- The end has two code points of its own. -/
theorem pos_of_commentEnd {t : Text} {n : Nat} (h : commentEnd t = some n) : 2 ≤ n := by
  induction t generalizing n with
  | nil => cases h
  | cons c t ih =>
    rw [commentEnd_cons] at h
    split at h
    · cases h; exact Nat.le_refl 2
    · obtain ⟨m, hm, rfl⟩ := Option.map_eq_some_iff.mp h
      have := ih hm
      omega

/-- A comment that is closed within `u` is closed there whatever stands behind. -/
theorem commentEnd_append {n : Nat} (h : commentEnd (u ++ x) = some n) (hn : n ≤ u.length) :
    commentEnd (u ++ r) = some n := by
  induction u generalizing n with
  | nil =>
    have := pos_of_commentEnd h
    rw [List.length_nil] at hn
    omega
  | cons c u ih =>
    rw [List.cons_append, commentEnd_cons] at h ⊢
    cases u with
    | nil =>
      -- One code point is left of `u`, and the end has two.
      rw [List.length_singleton] at hn
      split at h
      · cases h; omega
      · obtain ⟨m, hm, rfl⟩ := Option.map_eq_some_iff.mp h
        have := pos_of_commentEnd hm
        omega
    | cons d u =>
      have hhead : ∀ y : Text, (d :: u ++ y).head? = some d := fun _ ↦ rfl
      by_cases hd : c = '*' ∧ some d = some (.scalar '/')
      · rw [if_pos (by rw [hhead]; exact hd)] at h ⊢
        exact h
      · rw [if_neg (by rw [hhead]; exact hd)] at h ⊢
        obtain ⟨m, hm, rfl⟩ := Option.map_eq_some_iff.mp h
        rw [List.length_cons] at hn
        rw [ih hm (by omega)]
        rfl

theorem blockComment_eq (t : Text) : blockComment t =
    if ("/*" : Text).isPrefixOf t then ((commentEnd (t.drop 2)).map (· + 2)).getD 0 else 0 := by
  fun_cases blockComment t with
  | case1 rest n h =>
    show n + 2 = ((commentEnd rest).map (· + 2)).getD 0
    rw [h]
    rfl
  | case2 rest h =>
    show 0 = ((commentEnd rest).map (· + 2)).getD 0
    rw [h]
    rfl
  | case3 t h =>
    rw [if_neg]
    intro ht
    obtain ⟨rest, rfl⟩ := List.isPrefixOf_iff_prefix.mp ht
    exact h rest rfl

/-- A block comment is kept, and what does not begin with `/*` does not become one. -/
theorem bounded_blockComment
    (hopen : ("/*" : Text).isPrefixOf u = true → blockComment (u ++ x) ≠ 0) :
    Bounded blockComment u x := by
  intro r hr h
  by_cases hu : ("/*" : Text).isPrefixOf u
  · -- It is open, and so it is closed within `u`.
    have hlong : 2 ≤ u.length := (List.isPrefixOf_iff_prefix.mp hu).length_le
    have hpos := hopen hu
    simp only [blockComment_eq, isPrefixOf_append (w := "/*") hlong, if_pos hu,
      List.drop_append_of_le_length hlong] at h hpos ⊢
    cases hend : commentEnd (u.drop 2 ++ x) with
    | none => rw [hend] at hpos; exact absurd rfl hpos
    | some n =>
      rw [hend] at h
      rw [commentEnd_append hend]
      simp only [Option.map_some, Option.getD_some] at h
      rw [List.length_drop]
      omega
  · -- It is not open in `u`, and a line end does not open it.
    rw [blockComment_eq, isPrefixOf_lineEnd (by decide) hr, if_neg hu]
    rw [blockComment_eq] at h ⊢
    by_cases hlong : 2 ≤ u.length
    · rw [isPrefixOf_append (w := "/*") hlong, if_neg hu]
    · split
      · rw [if_pos ‹_›] at h
        cases hend : commentEnd ((u ++ x).drop 2) with
        | none => rfl
        | some n =>
          rw [hend, Option.map_some, Option.getD_some] at h
          omega
      · rfl

end Comments

/-! ## Regular expressions -/

section Regex

variable {u x r : Text} {inClass : Bool}

theorem regexEnd_backslash (inClass : Bool) : regexEnd inClass ['\\'] = none := by
  cases inClass <;> rfl

/-- A backslash takes the next code point along, but no line feed. -/
theorem regexEnd_escape (inClass : Bool) (c : CodePoint) (t : Text) :
    regexEnd inClass ('\\' :: c :: t) =
      if c = '\n' then none else (regexEnd inClass t).map (· + 2) := by
  cases inClass <;> rfl

/-- A regular expression does not go over a line end. -/
theorem regexEnd_feed (inClass : Bool) (t : Text) : regexEnd inClass ('\n' :: t) = none := by
  cases inClass <;> rfl

theorem regexEnd_inClass {c : CodePoint} (hfeed : c ≠ '\n') (hesc : c ≠ '\\') (t : Text) :
    regexEnd true (c :: t) = (regexEnd (c ≠ ']') t).map (· + 1) := by
  rw [regexEnd.eq_3 _ _ (fun _ _ h ↦ absurd h hesc), if_neg (not_or.mpr ⟨hfeed, hesc⟩)]
  split
  · rename_i hc; simp [hc]
  · rename_i hc; simp [hc]

/-- Outside of a class a slash ends the regular expression, and a bracket begins a class if that can
be closed. -/
theorem regexEnd_open {c : CodePoint} (hfeed : c ≠ '\n') (hesc : c ≠ '\\') (t : Text) :
    regexEnd false (c :: t) =
      if c = '/' then some 1
      else if c = '[' then (regexEnd true t <|> regexEnd false t).map (· + 1)
      else (regexEnd false t).map (· + 1) := by
  rw [regexEnd.eq_4 _ _ (fun _ _ h ↦ absurd h hesc), if_neg (not_or.mpr ⟨hfeed, hesc⟩)]

/-- At a line end nothing is closed any more. -/
theorem regexEnd_lineEnd (inClass : Bool) (hr : LineEnd r) : regexEnd inClass r = none := by
  cases hr with
  | nothing => cases inClass <;> rfl
  | feed t => exact regexEnd_feed inClass t

theorem pos_of_regexEnd {t : Text} {n : Nat} (h : regexEnd inClass t = some n) : 0 < n := by
  fun_cases regexEnd inClass t <;> simp_all [regexEnd] <;> omega

/-- Nothing closes directly behind a backslash. -/
theorem regexEnd_backslash_eq_none (h : ∀ n, regexEnd inClass ('\\' :: x) = some n → n ≤ 1) :
    regexEnd inClass ('\\' :: x) = none := by
  cases x with
  | nil => exact regexEnd_backslash inClass
  | cons d x =>
    refine Option.eq_none_iff_forall_ne_some.mpr fun n hend ↦ ?_
    have hn := h n hend
    rw [regexEnd_escape] at hend
    split at hend
    · cases hend
    · obtain ⟨m, -, rfl⟩ := Option.map_eq_some_iff.mp hend
      omega

theorem regexEnd_backslash_lineEnd (inClass : Bool) (hr : LineEnd r) :
    regexEnd inClass ('\\' :: r) = none := by
  cases hr with
  | nothing => exact regexEnd_backslash inClass
  | feed t => rw [regexEnd_escape, if_pos rfl]

/-- Where a regular expression closes within `u`, or not at all, it does the same before a line end.
An opening bracket is read as the beginning of a class only if that succeeds, so both the success
and the failure of that attempt have to be kept. -/
theorem regexEnd_append (hr : LineEnd r) (inClass : Bool) (u : Text)
    (h : ∀ n, regexEnd inClass (u ++ x) = some n → n ≤ u.length) :
    regexEnd inClass (u ++ r) = regexEnd inClass (u ++ x) := by
  match u with
  | [] =>
    rw [List.nil_append, regexEnd_lineEnd inClass hr]
    cases hend : regexEnd inClass x with
    | none => rw [List.nil_append, hend]
    | some n => exact absurd (h n hend) (Nat.not_le.mpr (pos_of_regexEnd hend))
  | c :: u =>
    by_cases hfeed : c = '\n'
    · rw [hfeed, List.cons_append, List.cons_append, regexEnd_feed, regexEnd_feed]
    by_cases hesc : c = '\\'
    · subst hesc
      match hu : u with
      | [] =>
        exact (regexEnd_backslash_lineEnd inClass hr).trans (regexEnd_backslash_eq_none h).symm
      | d :: v =>
        simp only [List.cons_append, regexEnd_escape] at h ⊢
        split
        · rfl
        · rename_i hd
          rw [regexEnd_append hr inClass v]
          intro n hn
          have := h (n + 2) (by rw [if_neg hd, hn]; rfl)
          simpa using this
    · -- In a class the bracket closes it; outside, a bracket opens one.
      cases inClass with
      | true =>
        simp only [List.cons_append, regexEnd_inClass hfeed hesc] at h ⊢
        rw [regexEnd_append hr _ u]
        intro n hn
        have := h (n + 1) (by rw [hn]; rfl)
        simpa using this
      | false =>
        simp only [List.cons_append, regexEnd_open hfeed hesc] at h ⊢
        split
        · rfl
        rename_i hslash
        rw [if_neg hslash] at h
        split
        · -- The attempt to read a class comes first, and what stands behind the bracket is read
          -- again without one where it fails.
          rename_i hbracket
          rw [if_pos hbracket] at h
          rw [regexEnd_append hr true u]
          · cases hclass : regexEnd true (u ++ x) with
            | some m => rfl
            | none =>
              rw [regexEnd_append hr false u]
              intro n hn
              have := h (n + 1) (by rw [hclass, hn]; rfl)
              simpa using this
          · intro n hn
            have := h (n + 1) (by rw [hn]; rfl)
            simpa using this
        · rename_i hbracket
          rw [if_neg hbracket] at h
          rw [regexEnd_append hr false u]
          intro n hn
          have := h (n + 1) (by rw [hn]; rfl)
          simpa using this
termination_by u.length
decreasing_by all_goals (subst_vars; simp only [List.length_cons]; omega)

theorem regex_slash (t : Text) : regex ('/' :: t) =
    if t.head? = some (.scalar '*') ∨ t.head? = some (.scalar '/') then 0
    else (regexEnd false t).elim 0 fun n ↦ 1 + n + run isFlag (t.drop n) := by
  rw [regex]
  cases regexEnd false t <;> rfl

theorem regex_of_ne {c : CodePoint} (hc : c ≠ '/') (t : Text) : regex (c :: t) = 0 :=
  regex.eq_2 _ fun _ h ↦ hc (List.cons.inj h).1

/-- Two slashes begin a comment, and so does a slash with a star; a line end is neither. -/
theorem bounded_regex_slash (u x : Text) : Bounded regex ('/' :: u) x := by
  intro r hr h
  rw [List.cons_append, regex_slash, List.length_cons] at h
  rw [List.cons_append, List.cons_append, regex_slash, regex_slash]
  cases u with
  | nil =>
    have hhead : ¬ (r.head? = some (.scalar '*') ∨ r.head? = some (.scalar '/')) := by
      cases hr <;> simp
    rw [List.nil_append, List.nil_append, if_neg hhead, regexEnd_lineEnd false hr]
    rw [List.nil_append, List.length_nil] at h
    split at h
    · rw [if_pos ‹_›]
      rfl
    · rw [if_neg ‹_›]
      cases hend : regexEnd false x with
      | none => rfl
      | some n =>
        have := pos_of_regexEnd hend
        rw [hend, Option.elim_some] at h
        omega
  | cons d v =>
    have hhead : ∀ y : Text, (d :: v ++ y).head? = some d := fun _ ↦ rfl
    rw [hhead] at h ⊢
    split
    · rw [hhead, if_pos ‹_›]
    · rw [if_neg ‹_›] at h
      rw [hhead, if_neg ‹_›]
      -- The end is found within `u` or nowhere.
      have hend := regexEnd_append (x := x) hr false (d :: v) fun n hn ↦ by
        rw [hn, Option.elim_some] at h
        omega
      rw [hend]
      cases hn : regexEnd false (d :: v ++ x) with
      | none => rfl
      | some n =>
        rw [hn, Option.elim_some] at h
        rw [Option.elim_some, Option.elim_some]
        have hlen : n ≤ (d :: v).length := by omega
        rw [List.drop_append_of_le_length hlen] at h
        rw [List.drop_append_of_le_length hlen, List.drop_append_of_le_length hlen,
          bounded_run (by decide) _ x hr]
        rw [List.length_drop]
        omega

/-- **A regular expression is matched within its line.** -/
theorem bounded_regex (u x : Text) : Bounded regex u x := by
  intro r hr h
  cases u with
  | nil =>
    rw [List.nil_append, List.length_nil, Nat.le_zero] at h
    rw [List.nil_append, List.nil_append, h]
    cases hr with
    | nothing => rfl
    | feed t => exact regex_of_ne (by decide) t
  | cons c u =>
    by_cases hc : c = '/'
    · subst hc
      exact bounded_regex_slash u x hr h
    · rw [List.cons_append, List.cons_append, regex_of_ne hc, regex_of_ne hc]

end Regex

/-! ## Quoted literals -/

section Quoted

variable {u x r : Text} {quote : CodePoint} {severalLines : Bool}

theorem literalEnd_backslash (hquote : quote ≠ '\\') (severalLines : Bool) :
    literalEnd quote severalLines ['\\'] = none := by
  rw [literalEnd.eq_3 _ _ _ _ (fun _ _ _ h ↦ by cases h), if_neg hquote.symm, if_pos (.inl rfl)]

theorem literalEnd_escape (quote : CodePoint) (severalLines : Bool) (c : CodePoint) (t : Text) :
    literalEnd quote severalLines ('\\' :: c :: t) =
      if c = '\n' then none else (literalEnd quote severalLines t).map (· + 2) := by
  rw [literalEnd]

/-- A literal ends at its quote, and fails at a line end if it has to stay on its line. -/
theorem literalEnd_cons {c : CodePoint} (hesc : c ≠ '\\') (t : Text) :
    literalEnd quote severalLines (c :: t) =
      if c = quote then some 1
      else if c = '\n' ∧ !severalLines then none
      else (literalEnd quote severalLines t).map (· + 1) := by
  rw [literalEnd.eq_3 _ _ _ _ (fun _ _ h ↦ absurd h hesc)]
  simp [hesc]

theorem pos_of_literalEnd {t : Text} {n : Nat} (h : literalEnd quote severalLines t = some n) :
    0 < n := by
  fun_cases literalEnd quote severalLines t <;> simp_all [literalEnd] <;> omega

/-- A literal on one line does not find its end behind the line end. -/
theorem literalEnd_lineEnd (hquote : quote ≠ '\n') (hr : LineEnd r) :
    literalEnd quote false r = none := by
  cases hr with
  | nothing => rfl
  | feed t => rw [literalEnd_cons (by decide), if_neg hquote.symm, if_pos (by simp)]

/-- Nothing closes directly behind a backslash. -/
theorem literalEnd_backslash_eq_none (hesc : quote ≠ '\\')
    (h : ∀ n, literalEnd quote severalLines ('\\' :: x) = some n → n ≤ 1) :
    literalEnd quote severalLines ('\\' :: x) = none := by
  cases x with
  | nil => exact literalEnd_backslash hesc severalLines
  | cons d x =>
    refine Option.eq_none_iff_forall_ne_some.mpr fun n hend ↦ ?_
    have hn := h n hend
    rw [literalEnd_escape] at hend
    split at hend
    · cases hend
    · obtain ⟨m, -, rfl⟩ := Option.map_eq_some_iff.mp hend
      omega

theorem literalEnd_backslash_lineEnd (hesc : quote ≠ '\\') (severalLines : Bool)
    (hr : LineEnd r) : literalEnd quote severalLines ('\\' :: r) = none := by
  cases hr with
  | nothing => exact literalEnd_backslash hesc severalLines
  | feed t => rw [literalEnd_escape, if_pos rfl]

/-- Where a literal closes within `u` it does the same before a line end.  If it does not close at
all, this is so for a literal on one line. -/
theorem literalEnd_append (hfeed : quote ≠ '\n') (hesc : quote ≠ '\\') (hr : LineEnd r) (u : Text)
    (hclosed : severalLines = true → literalEnd quote severalLines (u ++ x) ≠ none)
    (h : ∀ n, literalEnd quote severalLines (u ++ x) = some n → n ≤ u.length) :
    literalEnd quote severalLines (u ++ r) = literalEnd quote severalLines (u ++ x) := by
  match u with
  | [] =>
    cases hend : literalEnd quote severalLines x with
    | some n => exact absurd (h n hend) (Nat.not_le.mpr (pos_of_literalEnd hend))
    -- There is no end, so by the hypothesis the literal is one that stays on its line.
    | none =>
      cases severalLines with
      | true => exact absurd hend (hclosed rfl)
      | false => rw [List.nil_append, List.nil_append, hend, literalEnd_lineEnd hfeed hr]
  | c :: u =>
    -- A backslash takes two code points, and anything else one.
    by_cases hc : c = '\\'
    · subst hc
      match hu : u with
      | [] =>
        exact (literalEnd_backslash_lineEnd hesc severalLines hr).trans
          (literalEnd_backslash_eq_none hesc h).symm
      | d :: v =>
        simp only [List.cons_append, literalEnd_escape] at h hclosed ⊢
        split
        · rfl
        · rename_i hd
          rw [literalEnd_append hfeed hesc hr v]
          · simpa [hd] using hclosed
          · intro n hn
            have := h (n + 2) (by rw [if_neg hd, hn]; rfl)
            simpa using this
    · simp only [List.cons_append, literalEnd_cons hc] at h hclosed ⊢
      split
      · rfl
      rename_i hq
      split
      · rfl
      · rename_i hline
        rw [literalEnd_append hfeed hesc hr u]
        · intro hlines hnone
          refine hclosed hlines ?_
          rw [if_neg hq, if_neg hline, hnone]
          rfl
        · intro n hn
          have := h (n + 1) (by rw [if_neg hq, if_neg hline, hn]; rfl)
          simpa using this
termination_by u.length
decreasing_by all_goals (subst_vars; simp only [List.length_cons]; omega)

theorem quotedLiteral_cons (c : CodePoint) (t : Text) : quotedLiteral quote severalLines (c :: t) =
    if c = quote then ((literalEnd quote severalLines t).map (· + 1)).getD 0 else 0 := by
  rw [quotedLiteral]
  cases literalEnd quote severalLines t <;> rfl

/-- A quoted literal is kept, and what does not begin with a backtick does not become a template. -/
theorem bounded_quotedLiteral (hfeed : quote ≠ '\n') (hesc : quote ≠ '\\') (u : Text)
    (hopen : severalLines = true → u.head? = some quote →
      quotedLiteral quote severalLines (u ++ x) ≠ 0) :
    Bounded (quotedLiteral quote severalLines) u x := by
  cases u with
  | nil =>
    intro r hr h
    rw [List.nil_append, List.length_nil, Nat.le_zero] at h
    rw [List.nil_append, List.nil_append, h]
    cases hr with
    | nothing => rfl
    | feed t => rw [quotedLiteral_cons, if_neg hfeed.symm]
  | cons c u =>
    intro r hr h
    rw [List.cons_append, quotedLiteral_cons, List.length_cons] at h
    rw [List.cons_append, List.cons_append, quotedLiteral_cons, quotedLiteral_cons]
    -- Only a text that begins with the quote is a literal.
    by_cases hc : c = quote
    · rw [if_pos hc] at h
      rw [if_pos hc, if_pos hc, literalEnd_append (x := x) hfeed hesc hr u]
      · intro hlines hnone
        refine hopen hlines (congrArg some hc) ?_
        rw [List.cons_append, quotedLiteral_cons, if_pos hc, hnone]
        rfl
      · intro n hn
        rw [hn] at h
        simpa using h
    · rw [if_neg hc, if_neg hc]

end Quoted

end Rule

end Advplc

import Advplc.Proofs.Token.Match.Length
import Advplc.Token.Scan
import Mathlib.Data.List.Chain

/-!
# Layout is not read

`Scans` is the lexer without positions: it relates a text to the forms, kind and lexeme, of its
tokens.  `scans_iff` says that it is the same as what `Scan.ofText` does from any position, so the
forms of the tokens do not depend on where a text stands.

`scans_relaid` is about the white space between tokens: a text whose tokens are written one to a
line has the same tokens.  There is one exception, which is excluded as a hypothesis: where an
identifier and a numeral stand side by side without a blank, as in `if٣`, the identifier may spell a
reserved word and become one when it stands alone.  No program has an identifier before a numeral.
-/

set_option autoImplicit false

namespace Advplc

/-- What a token is apart from its position. -/
def Token.form (t : Token) : Kind × Lexeme := (t.kind, t.lexeme)

/-- The tokens of the given forms, one to a line. -/
def relaid (fs : List (Kind × Lexeme)) : Text := Text.joinWith "\n" (fs.map fun f ↦ f.2.spelled)

/-- Behind a token of kind `before` the text consists of tokens of the given forms. -/
inductive Scans : Option Kind → Text → List (Kind × Lexeme) → Prop where
  | done (before : Option Kind) : Scans before [] []
  | blank {before : Option Kind} {c : CodePoint} {t : Text} {n : Nat} {fs : List (Kind × Lexeme)}
      (h : Rule.first? before (c :: t) = some (none, n))
      (hrest : Scans before ((c :: t).drop n) fs) : Scans before (c :: t) fs
  | token {before : Option Kind} {c : CodePoint} {t : Text} {k : Kind} {n : Nat}
      {fs : List (Kind × Lexeme)} (h : Rule.first? before (c :: t) = some (some k, n))
      (hrest : Scans (some k) ((c :: t).drop n) fs) :
      Scans before (c :: t) ((k, .text ((c :: t).take n)) :: fs)

/-! ## Positions -/

section Positions

variable {before : Option Kind} {t : Text} {fs : List (Kind × Lexeme)}

theorem Scan.ofText_of_first? {c : CodePoint} {k : Option Kind} {n : Nat} (p : Pos)
    (h : Rule.first? before (c :: t) = some (k, n)) : Scan.ofText before p (c :: t) =
      Scan.precededBy (k.map fun k ↦ ⟨k, .text ((c :: t).take n), p⟩) n
        (Scan.ofText (k <|> before) (p.advance ((c :: t).take n)) ((c :: t).drop n)) := by
  rw [Scan.ofText]
  split
  · rename_i h'
    rw [h] at h'
    cases h'
  · rename_i h'
    rw [h] at h'
    cases h'
    rfl

theorem Scans.ofText (h : Scans before t fs) (p : Pos) : (Scan.ofText before p t).error? = none ∧
    (Scan.ofText before p t).tokens.map Token.form = fs := by
  induction h generalizing p with
  | done => rw [Scan.ofText]; exact ⟨rfl, rfl⟩
  | blank h _ ih =>
    rw [Scan.ofText_of_first? p h]
    exact ih _
  | token h _ ih =>
    rw [Scan.ofText_of_first? p h]
    exact ⟨(ih _).1, congrArg _ (ih _).2⟩

theorem scans_ofText (p : Pos) (h : (Scan.ofText before p t).error? = none) :
    Scans before t ((Scan.ofText before p t).tokens.map Token.form) := by
  fun_induction Scan.ofText before p t with
  | case1 => exact .done _
  | case2 => cases h
  | case3 before p c rest k n hfirst lexeme token? ih =>
    cases k with
    | none => exact .blank hfirst (ih h)
    | some k => exact .token hfirst (ih h)

/-- **The forms of the tokens of a text do not depend on its position.** -/
theorem scans_iff (p : Pos) : Scans before t fs ↔ (Scan.ofText before p t).error? = none ∧
    (Scan.ofText before p t).tokens.map Token.form = fs :=
  ⟨fun h ↦ h.ofText p, fun h ↦ h.2 ▸ scans_ofText p h.1⟩

theorem tokenize_eq_ok_iff (p : Pos) : Scans none t.joinLineEnds fs ↔
    ∃ ts, tokenize t p = .ok ts ∧ ts.map Token.form = fs := by
  rw [scans_iff p, tokenize, scan]
  cases (Scan.ofText none p t.joinLineEnds).error? with
  | none => simp
  | some e => simp

/-- A test for what the lexer makes of a source. -/
theorem tokenize_of_toOption {p : Pos} {ts : List Token}
    (h : (tokenize t p).toOption = some ts) : tokenize t p = .ok ts := by
  cases hscan : tokenize t p with
  | error e => rw [hscan] at h; cases h
  | ok ts' => rw [hscan] at h; cases h; rfl

end Positions

/-! ## One token to a line -/

section Lines

variable {before : Option Kind} {t : Text} {fs : List (Kind × Lexeme)}

theorem Rule.exists_of_first? {k : Option Kind} {n : Nat} (h : Rule.first? before t = some (k, n)) :
    ∃ rule ∈ Rule.all, rule.kind = k ∧ rule.length t = n ∧ 0 < n := by
  obtain ⟨rule, hrule, hattempt⟩ := List.exists_of_findSome?_eq_some h
  obtain ⟨-, hpos, hkind, hlen⟩ := Rule.attempt_eq_some.mp hattempt
  exact ⟨rule, hrule, hkind, hlen, hpos⟩

theorem Rule.le_of_first? {k : Option Kind} {n : Nat} (h : Rule.first? before t = some (k, n)) :
    n ≤ t.length := by
  obtain ⟨rule, hrule, -, rfl, -⟩ := Rule.exists_of_first? h
  exact Rule.length_le rule hrule

/-- What is matched for a kind is what its rules match. -/
theorem Rule.length_of_first? {k : Option Kind} {n : Nat} {f : Text → Nat}
    (h : Rule.first? before t = some (k, n)) (hf : Rule.matcher? k = some f) : f t = n ∧ 0 < n := by
  obtain ⟨rule, hrule, rfl, rfl, hpos⟩ := Rule.exists_of_first? h
  exact ⟨congrFun (Rule.length_of_matcher? rule hrule hf).symm t, hpos⟩

/-- What is matched stands before what is left of the text. -/
theorem Rule.first?_take {k : Option Kind} {n : Nat} (h : Rule.first? before t = some (k, n)) :
    Rule.first? before (t.take n ++ t.drop n) = some (k, (t.take n).length) := by
  rw [List.take_append_drop, List.length_take_of_le (Rule.le_of_first? h), h]

theorem Rule.starts_of_first? {c : CodePoint} {k : Option Kind} {n : Nat}
    (h : Rule.first? before (c :: t) = some (k, n)) : Kind.starts k c = true := by
  obtain ⟨rule, hrule, rfl, rfl, hpos⟩ := Rule.exists_of_first? h
  exact Rule.starts_of_pos rule hrule hpos

/-- The lexer does not mark the end of a text by a token. -/
theorem Scans.kind_ne_endOfInput (h : Scans before t fs) : ∀ f ∈ fs, f.1 ≠ .endOfInput := by
  induction h with
  | done => simp
  | blank _ _ ih => exact ih
  | token h _ ih =>
    intro f hf
    obtain rfl | hf := List.mem_cons.mp hf
    · intro hk
      have hstarts := Rule.starts_of_first? h
      simp only at hk
      rw [hk] at hstarts
      cases hstarts
    · exact ih f hf

/-- What is blank is skipped before any rule for a token is tried. -/
theorem Rule.first?_of_isBlank {c : CodePoint} (hc : c.isBlank = true) :
    Rule.first? before (c :: t) = some (none, Rule.run CodePoint.isBlank t + 1) := by
  have hrun : Rule.run CodePoint.isBlank (c :: t) = Rule.run CodePoint.isBlank t + 1 := by
    rw [Rule.run_cons, if_pos hc]
  rw [Rule.first?, Rule.all]
  simp [Rule.attempt, hrun]

/-- The blanks that a text begins with are skipped. -/
theorem scans_drop_blanks :
    Scans before (t.drop (Rule.run CodePoint.isBlank t)) fs ↔ Scans before t fs := by
  cases t with
  | nil => exact Iff.rfl
  | cons c t =>
    cases hc : c.isBlank with
    | false => rw [Rule.run_cons, if_neg (by simp [hc]), List.drop_zero]
    | true =>
      have hfirst : Rule.first? before (c :: t) = some (none, Rule.run CodePoint.isBlank t + 1) :=
        Rule.first?_of_isBlank hc
      rw [Rule.run_cons, if_pos hc]
      constructor
      · exact .blank hfirst
      · intro h
        cases h with
        | blank h hrest =>
          rw [hfirst] at h
          cases h
          exact hrest
        | token h _ =>
          rw [hfirst] at h
          cases h

theorem scans_cons_blank {c : CodePoint} (hc : c.isBlank = true) :
    Scans before (c :: t) fs ↔ Scans before t fs := by
  rw [← scans_drop_blanks, Rule.run_cons, if_pos hc, List.drop_succ_cons, scans_drop_blanks]

/-- Behind an identifier the text does not go on with a letter, a digit or an underscore. -/
theorem Rule.head_of_identifier {w x : Text} {c : CodePoint} {n : Nat}
    (h : Rule.first? before (w ++ c :: x) = some (some .identifier, n)) (hn : n = w.length) :
    Rule.continuesIdentifier c = false := by
  obtain ⟨hlen, hpos⟩ := Rule.length_of_first? h rfl
  rw [hn] at hlen
  cases w with
  | nil =>
    rw [hn] at hpos
    exact absurd hpos (Nat.lt_irrefl 0)
  | cons d w =>
    rw [List.cons_append, Rule.identifier] at hlen
    split at hlen
    · rw [List.length_cons] at hlen
      exact Rule.head_of_run_eq (u := w) (x := c :: x) (by omega) rfl
    · cases hlen

/-- Where an identifier has ended and no numeral comes next, a word has ended. -/
theorem Scans.atWordEnd (h : Scans before t fs)
    (hhead : ∀ c u, t = c :: u → Rule.continuesIdentifier c = false)
    (hnumber : ∀ f ∈ fs.head?, f.1 ≠ .number) : Text.atWordEnd t = true := by
  have hword : ∀ {c : CodePoint} {u : Text} {k : Option Kind}, t = c :: u →
      Kind.starts k c = true → k ≠ some .number → Text.atWordEnd t = true := by
    intro c u k ht hstarts hk
    rw [ht, Text.atWordEnd, Bool.not_eq_true']
    refine Bool.eq_false_iff.mpr fun hc ↦ ?_
    obtain ⟨hnum, -⟩ | ⟨-, hc⟩ := Rule.starts_of_isWord hstarts hc
    · exact hk hnum
    · have hgoes := hhead c u ht
      rw [Rule.continuesIdentifier_of_starts hc] at hgoes
      cases hgoes
  cases h with
  | done => rfl
  | blank h _ => exact hword rfl (Rule.starts_of_first? h) (by simp)
  | token h _ =>
    refine hword rfl (Rule.starts_of_first? h) fun hk ↦ ?_
    exact hnumber _ rfl (Option.some.inj hk)

theorem Scans.head_not_blank {f : Kind × Lexeme} (h : Scans before t (f :: fs)) :
    ∃ c u, f.2.spelled = c :: u ∧ c.isBlank = false := by
  generalize hgs : f :: fs = gs at h
  induction h with
  | done => cases hgs
  | blank _ _ ih => exact ih hgs
  | @token _ c t _ n _ h _ =>
    obtain ⟨rfl, -⟩ := List.cons.inj hgs
    obtain ⟨m, rfl⟩ := Nat.exists_eq_succ_of_ne_zero (Nat.ne_of_gt (Rule.pos_of_first? h))
    refine ⟨c, t.take m, rfl, Bool.eq_false_iff.mpr fun hc ↦ ?_⟩
    rw [Rule.first?_of_isBlank hc] at h
    cases h

theorem relaid_cons (f g : Kind × Lexeme) (fs : List (Kind × Lexeme)) :
    relaid (f :: g :: fs) = f.2.spelled ++ .scalar '\n' :: relaid (g :: fs) := by
  simp [relaid, Text.joinWith, List.intercalate, Text.ofString]

/-- An identifier is not followed by a numeral. -/
def Apart (f g : Kind × Lexeme) : Prop := f.1 = .identifier → g.1 ≠ .number

/-- A token whose text is matched as a whole comes before the tokens of what follows. -/
theorem Scans.cons {k : Kind} {w r : Text}
    (h : Rule.first? before (w ++ r) = some (some k, w.length)) (hr : Scans (some k) r fs) :
    Scans before (w ++ r) ((k, .text w) :: fs) := by
  -- The constructor asks for the first code point of the text.
  cases w with
  | nil => exact absurd (Rule.pos_of_first? h) (Nat.lt_irrefl 0)
  | cons c w =>
    have htake : (c :: w ++ r).take (c :: w).length = c :: w := List.take_left
    have hdrop : (c :: w ++ r).drop (c :: w).length = r := List.drop_left
    rw [List.cons_append] at htake hdrop h ⊢
    have htoken := Scans.token h (hdrop.symm ▸ hr)
    rwa [htake] at htoken

/-- A token before a line end is the token it was before, and what follows it is scanned next. -/
theorem Scans.cons_lineEnd {k : Kind} {w x r : Text} {gs : List (Kind × Lexeme)}
    (h : Rule.first? before (w ++ x) = some (some k, w.length)) (hrest : Scans (some k) x fs)
    (hapart : k = .identifier → ∀ f ∈ fs.head?, f.1 ≠ .number) (hline : Text.LineEnd r)
    (hr : Scans (some k) r gs) : Scans before (w ++ r) ((k, .text w) :: gs) := by
  have hend : k = .identifier → Text.atWordEnd x = true := by
    rintro rfl
    refine hrest.atWordEnd (fun c u hx ↦ ?_) (hapart rfl)
    rw [hx] at h
    exact Rule.head_of_identifier h rfl
  exact .cons (Rule.first?_lineEnd h hend hline) hr

/-- **Tokens written one to a line are the same tokens**, if no identifier stands before a
numeral. -/
theorem scans_relaid (h : Scans before t fs) (hapart : fs.IsChain Apart) :
    Scans before (relaid fs) fs := by
  induction h with
  | done before => exact .done before
  | blank _ _ ih => exact ih hapart
  | @token before c t k n fs h hrest ih =>
    have hfirst := Rule.first?_take h
    cases fs with
    | nil =>
      have hlast := Scans.cons_lineEnd hfirst hrest (by simp) .nothing (.done _)
      rw [List.append_nil] at hlast
      simpa [relaid, Text.joinWith, Lexeme.spelled] using hlast
    | cons g fs =>
      obtain ⟨d, v, hd, hblank⟩ := hrest.head_not_blank
      obtain ⟨hfirstTwo, hothers⟩ := List.isChain_cons_cons.mp hapart
      rw [relaid_cons]
      refine .cons_lineEnd hfirst hrest (fun hk f hf ↦ ?_) (.feed _)
        (.blank (n := 1) ?_ (ih hothers))
      · cases hf
        exact hfirstTwo hk
      · have hrun : Rule.run CodePoint.isBlank (relaid (g :: fs)) = 0 := by
          obtain ⟨u, hu⟩ : ∃ u, relaid (g :: fs) = d :: u := by
            cases fs with
            | nil => exact ⟨v, by simpa [relaid, Text.joinWith] using hd⟩
            | cons f fs => exact ⟨v ++ _, by rw [relaid_cons, hd]; rfl⟩
          rw [hu, Rule.run_cons, hblank]
          rfl
        rw [Rule.first?_of_isBlank (by decide), hrun]

end Lines

end Advplc

import Advplc.Proofs.Token.Joining
import Mathlib.Data.List.Induction
import Mathlib.Data.List.TakeWhile

/-!
# Every code point is accounted for

The lexer counts lines and columns while it reads.  `Pos.behind` says what it should arrive at
without counting along: the line is given by the number of line feeds before a place, and the column
by the distance from the last of them.  `advance_eq_behind` says that both agree, whatever the
position is that a text begins at.

`Covers` relates a text to its tokens: they stand in the text one behind another, each at the
position it carries, and what stands between them is white space.  The tokens of a source cover it,
and where no rule matches, the tokens before that place cover what comes before it
(`tokenize_covers`).
-/

set_option autoImplicit false

namespace Advplc

/-! ## Positions without counting -/

/-- The index of the last line feed of a text. -/
def Text.lastFeed? (t : Text) : Option Nat :=
  ((List.range t.length).filter fun i ↦ t[i]? = some (.scalar '\n')).getLast?

theorem Text.lastFeed?_concat (t : Text) (c : CodePoint) : Text.lastFeed? (t ++ [c]) =
    if c = '\n' then some t.length else t.lastFeed? := by
  have hbefore : ((List.range t.length).filter fun i ↦ (t ++ [c])[i]? = some (.scalar '\n')) =
      (List.range t.length).filter fun i ↦ t[i]? = some (.scalar '\n') := by
    refine List.filter_congr fun i hi ↦ ?_
    rw [List.getElem?_append_left (List.mem_range.mp hi)]
  rw [lastFeed?, List.length_append, List.length_singleton, List.range_succ, List.filter_append,
    hbefore, List.getLast?_append, ← lastFeed?]
  by_cases hc : c = '\n'
  · simp [hc]
  · simp [hc]

/-- The position behind a text that begins at `start`.  The text has as many further lines as it has
line feeds, and the column is the distance from the last of them, or, if there is none, from where
the text begins. -/
def Pos.behind (start : Pos) (t : Text) : Pos :=
  ⟨start.line + t.count (.scalar '\n'),
   match t.lastFeed? with
   | none => start.column + t.length
   | some i => t.length - i⟩

/-- **Counting line by line and column by column leads to the same position.** -/
theorem Pos.advance_eq_behind (start : Pos) (t : Text) : start.advance t = start.behind t := by
  induction t using List.reverseRecOn with
  | nil => simp [behind, Text.lastFeed?]
  | append_singleton t c ih =>
    have hcount : (t ++ [c]).count (.scalar '\n') =
        t.count (.scalar '\n') + if c = '\n' then 1 else 0 := by
      by_cases hc : c = '\n'
      · simp [hc]
      · simp [hc]
    rw [advance_append, ih, advance_cons, advance_nil, step, behind, behind, Text.lastFeed?_concat,
      hcount]
    by_cases hc : c = '\n'
    · simp only [hc, if_true, List.length_append, List.length_singleton, Pos.mk.injEq]
      omega
    · simp only [hc, if_false, List.length_append, List.length_singleton, Pos.mk.injEq]
      cases Text.lastFeed? t with
      | none => simp only; omega
      | some i => simp only; omega

/-! ## Tokens that cover a text -/

/-- Behind `front`, in a source that begins at `start`, a text consists of the given tokens.
Before, between and behind them there is nothing but white space; each of them is some text, and it
carries the position of its first code point. -/
inductive Covers (start : Pos) : Text → List Token → Text → Prop where
  | blank {front gap : Text} (hgap : ∀ c ∈ gap, c.isBlank = true) : Covers start front [] gap
  | token {front gap lexeme rest : Text} {kind : Kind} {ts : List Token}
      (hgap : ∀ c ∈ gap, c.isBlank = true) (hlexeme : lexeme ≠ [])
      (hrest : Covers start (front ++ gap ++ lexeme) ts rest) :
      Covers start front (⟨kind, .text lexeme, start.behind (front ++ gap)⟩ :: ts)
        (gap ++ lexeme ++ rest)

/-- White space may be put before a text that is covered. -/
theorem Covers.skip {start : Pos} {front gap t : Text} {ts : List Token}
    (hgap : ∀ c ∈ gap, c.isBlank = true) (h : Covers start (front ++ gap) ts t) :
    Covers start front ts (gap ++ t) := by
  cases h with
  | blank hmore => exact .blank (List.forall_mem_append.mpr ⟨hgap, hmore⟩)
  | @token _ more lexeme rest _ _ hmore hlexeme hrest =>
    have htext : gap ++ (more ++ lexeme ++ rest) = gap ++ more ++ lexeme ++ rest := by
      simp only [List.append_assoc]
    rw [List.append_assoc front] at hrest ⊢
    rw [htext]
    exact .token (List.forall_mem_append.mpr ⟨hgap, hmore⟩) hlexeme hrest

/-- A token may be put before a text that is covered, without white space between them. -/
theorem Covers.cons {start : Pos} {front lexeme t : Text} {ts : List Token} (kind : Kind)
    (hlexeme : lexeme ≠ []) (h : Covers start (front ++ lexeme) ts t) :
    Covers start front (⟨kind, .text lexeme, start.behind front⟩ :: ts) (lexeme ++ t) := by
  have hfront : front ++ [] = front := List.append_nil front
  have htoken := @Covers.token start front [] lexeme t kind ts nofun hlexeme (hfront.symm ▸ h)
  rwa [hfront, List.nil_append] at htoken

/-! ## The lexer -/

section Lexer

variable {before : Option Kind}

/-- Only white space is skipped. -/
theorem Rule.isBlank_of_first? {t : Text} {n : Nat} (h : Rule.first? before t = some (none, n)) :
    ∀ c ∈ t.take n, c.isBlank = true := by
  obtain ⟨hlen, -⟩ := Rule.length_of_first? h rfl
  rw [Rule.run] at hlen
  intro c hc
  rw [← hlen, ← List.prefix_iff_eq_take.mp (List.takeWhile_prefix _)] at hc
  exact List.mem_takeWhile_imp hc

/-- Where nothing is matched, no rule that may be used matches. -/
theorem Rule.length_of_first?_eq_none {t : Text} (h : Rule.first? before t = none) :
    ∀ rule ∈ Rule.all, rule.allowed before = true → rule.length t = 0 := by
  intro rule hrule hallowed
  have hattempt := List.findSome?_eq_none_iff.mp h rule hrule
  rw [Rule.attempt] at hattempt
  split at hattempt
  · cases hattempt
  · rename_i hno
    exact Nat.eq_zero_of_not_pos fun hpos ↦ hno ⟨hallowed, hpos⟩

/-- An error is about the text at which reading stopped: it names the first code point, its position
`p` and the beginning of the text, and behind a token of kind `before` no rule matches the text. -/
structure LexError.Explains (e : LexError) (before : Option Kind) (p : Pos) (t : Text) : Prop where
  char : t.head? = some e.char
  pos : e.pos = p
  context : e.context = t.take 20
  unmatched : ∀ rule ∈ Rule.all, rule.allowed before = true → rule.length t = 0

/-- What was read of a text that stands behind `front` and behind a token of kind `before`: all of
it, or what comes before the place that the error explains. -/
structure Scan.Accounts (s : Scan) (start : Pos) (before : Option Kind) (front t : Text) :
    Prop where
  covers : Covers start front s.tokens (t.take s.taken)
  complete : s.error? = none → t.length ≤ s.taken
  explains : ∀ e, s.error? = some e →
    e.Explains (lastKind before (s.tokens.map Token.form))
      (start.behind (front ++ t.take s.taken)) (t.drop s.taken)

/-- A match is part of what was read. -/
theorem Scan.Accounts.precededBy {s : Scan} {start : Pos} {front t : Text} {k : Option Kind}
    {n : Nat} (hfirst : Rule.first? before t = some (k, n))
    (h : s.Accounts start (k <|> before) (front ++ t.take n) (t.drop n)) :
    (s.precededBy (k.map fun k ↦ ⟨k, .text (t.take n), start.behind front⟩) n).Accounts start before
      front t := by
  have htake : t.take (n + s.taken) = t.take n ++ (t.drop n).take s.taken := List.take_add
  have hlength := Rule.le_of_first? hfirst
  refine ⟨?_, ?_, ?_⟩
  · show Covers start front (_ ++ s.tokens) (t.take (n + s.taken))
    rw [htake]
    cases k with
    | none => exact h.covers.skip (Rule.isBlank_of_first? hfirst)
    | some k =>
      have hlexeme : t.take n ≠ [] := by
        have hpos := Rule.pos_of_first? hfirst
        exact List.ne_nil_of_length_pos (by rw [List.length_take]; omega)
      exact h.covers.cons k hlexeme
  · intro hnone
    have hrest := h.complete hnone
    rw [List.length_drop] at hrest
    show t.length ≤ n + s.taken
    omega
  · intro e he
    have hlast : lastKind before (((k.map fun k ↦
        (⟨k, .text (t.take n), start.behind front⟩ : Token)).toList ++ s.tokens).map Token.form) =
          lastKind (k <|> before) (s.tokens.map Token.form) := by
      cases k with
      | none => rfl
      | some k => exact lastKind_cons before _ _
    show e.Explains _ (start.behind (front ++ t.take (n + s.taken))) (t.drop (n + s.taken))
    rw [htake, ← List.append_assoc, ← List.drop_drop]
    exact hlast ▸ h.explains e he

/-- **What is read of a text is accounted for.** -/
theorem Scan.accounts_ofText (start : Pos) (before : Option Kind) (front t : Text) :
    (Scan.ofText before (start.behind front) t).Accounts start before front t := by
  generalize hp : start.behind front = p
  fun_induction Scan.ofText before p t generalizing front with
  | case1 before p =>
    refine ⟨.blank (List.forall_mem_nil _), fun _ ↦ Nat.le_refl 0, ?_⟩
    rintro e ⟨⟩
  | case2 before p c rest hfirst =>
    refine ⟨.blank (List.forall_mem_nil _), by rintro ⟨⟩, ?_⟩
    rintro e ⟨⟩
    refine ⟨rfl, ?_, rfl, Rule.length_of_first?_eq_none hfirst⟩
    rw [← hp]
    exact congrArg start.behind (List.append_nil front).symm
  | case3 before p c rest k n hfirst lexeme token? ih =>
    have hnext : start.behind (front ++ (c :: rest).take n) = p.advance lexeme := by
      rw [← Pos.advance_eq_behind, Pos.advance_append, Pos.advance_eq_behind start front, hp]
    have hstep := Scan.Accounts.precededBy hfirst (ih _ hnext)
    rwa [hp] at hstep

end Lexer

theorem Scan.accounts (source : Text) (start : Pos) :
    (scan source start).Accounts start none [] source.joinLineEnds := by
  have haccounts := Scan.accounts_ofText start none [] source.joinLineEnds
  rw [← Pos.advance_eq_behind] at haccounts
  exact haccounts

/-- The tokens of a source cover it, once its line ends are joined. -/
theorem covers_of_tokenize {source : Text} {start : Pos} {ts : List Token}
    (h : tokenize source start = .ok ts) : Covers start [] ts source.joinLineEnds := by
  have haccounts := Scan.accounts source start
  simp only [tokenize] at h
  split at h
  · rename_i hnone
    cases h
    have hcovers := haccounts.covers
    rwa [List.take_of_length_le (haccounts.complete hnone)] at hcovers
  · cases h

/-- The tokens before the place of an error cover what was read, and the error explains the
place. -/
theorem explains_of_tokenize {source : Text} {start : Pos} {e : LexError}
    (h : tokenize source start = .error e) :
    let s := source.joinLineEnds
    let read := scan source start
    Covers start [] read.tokens (s.take read.taken) ∧
      e.Explains (lastKind none (read.tokens.map Token.form)) (start.behind (s.take read.taken))
        (s.drop read.taken) := by
  have haccounts := Scan.accounts source start
  simp only [tokenize] at h
  split at h
  · cases h
  · cases h
    exact ⟨haccounts.covers, haccounts.explains _ ‹_›⟩

/-- **The lexer accounts for every code point and every position.**  The tokens of a source cover
it, once its line ends are joined.  If no rule matches at some place, then the tokens before it
cover what was read, and the error explains the place. -/
theorem tokenize_covers (source : Text) (start : Pos) :
    let s := source.joinLineEnds
    let read := scan source start
    match tokenize source start with
    | .ok ts => Covers start [] ts s
    | .error e => Covers start [] read.tokens (s.take read.taken) ∧
        e.Explains (lastKind none (read.tokens.map Token.form)) (start.behind (s.take read.taken))
          (s.drop read.taken) := by
  intro s read
  cases h : tokenize source start with
  | ok ts => exact covers_of_tokenize h
  | error e => exact explains_of_tokenize h

/-- A source that begins in the seventh column of the third line.  A comment in it reaches over a
line end, and the error behind it is in the fourth column of the fourth line. -/
theorem tokenize_covers_sample :
    let source : Text := "a /*\r\n*/ §b"
    let e : LexError := ⟨.scalar '§', ⟨4, 4⟩, "§b"⟩
    let ts : List Token := [⟨.identifier, "a", ⟨3, 7⟩⟩, ⟨.blockComment, "/*\n*/", ⟨3, 9⟩⟩]
    tokenize source ⟨3, 7⟩ = .error e ∧ Covers ⟨3, 7⟩ [] ts "a /*\n*/ " ∧
      e.Explains (some .blockComment) (Pos.behind ⟨3, 7⟩ "a /*\n*/ ") "§b" := by
  intro source e ts
  have hscan : scan source ⟨3, 7⟩ = ⟨ts, 8, ⟨4, 4⟩, some e⟩ := by decide +kernel
  have herror : tokenize source ⟨3, 7⟩ = .error e := by rw [tokenize, hscan]
  have hcovers := tokenize_covers source ⟨3, 7⟩
  simp only [herror, hscan] at hcovers
  exact ⟨herror, hcovers⟩

/-! ### Different places -/

/-- Whether a position comes before another. -/
def Pos.Before (p q : Pos) : Prop := p.line < q.line ∨ p.line = q.line ∧ p.column < q.column

theorem Pos.before_step (p : Pos) (c : CodePoint) : p.Before (p.step c) := by
  rw [step]
  split
  · exact .inl (Int.lt_succ p.line)
  · exact .inr ⟨rfl, Int.lt_succ p.column⟩

theorem Pos.Before.trans {p q r : Pos} (hpq : p.Before q) (hqr : q.Before r) : p.Before r := by
  unfold Before at *
  omega

/-- A text that is not empty leads to a later position. -/
theorem Pos.before_advance (p : Pos) (c : CodePoint) (t : Text) :
    p.Before (p.advance (c :: t)) := by
  induction t generalizing p c with
  | nil => exact p.before_step c
  | cons d t ih => exact (p.before_step c).trans (ih (p.step c) d)

/-- Each of the tokens that cover a text is a part of it. -/
theorem Covers.exists_part {start : Pos} {front t : Text} {ts : List Token}
    (h : Covers start front ts t) : ∀ u ∈ ts, ∃ x w y, t = x ++ w ++ y ∧ u.lexeme = .text w ∧
      u.pos = start.behind (front ++ x) := by
  induction h with
  | blank => exact List.forall_mem_nil _
  | @token front gap lexeme rest _ _ _ _ _ ih =>
    refine List.forall_mem_cons.mpr ⟨⟨gap, lexeme, rest, rfl, rfl, rfl⟩, fun u hu ↦ ?_⟩
    obtain ⟨x, w, y, rfl, hw, hpos⟩ := ih u hu
    exact ⟨gap ++ lexeme ++ x, w, y, by simp only [List.append_assoc], hw,
      by rw [hpos]; simp only [List.append_assoc]⟩

/-- The tokens that cover a text come one behind another. -/
theorem Covers.pairwise {start : Pos} {front t : Text} {ts : List Token}
    (h : Covers start front ts t) : (ts.map Token.pos).Pairwise Pos.Before := by
  induction h with
  | blank => exact .nil
  | @token front gap lexeme _ _ _ _ hlexeme hrest ih =>
    refine List.pairwise_cons.mpr ⟨List.forall_mem_map.mpr fun u hu ↦ ?_, ih⟩
    obtain ⟨x, -, -, -, -, hx⟩ := hrest.exists_part u hu
    obtain ⟨c, w, rfl⟩ := List.exists_cons_of_ne_nil hlexeme
    rw [hx, ← Pos.advance_eq_behind, ← Pos.advance_eq_behind, List.append_assoc _ (c :: w),
      Pos.advance_append start (front ++ gap)]
    exact Pos.before_advance _ c (w ++ x)

/-- **No two tokens of a source stand at the same position.** -/
theorem nodup_of_tokenize {source : Text} {start : Pos} {ts : List Token}
    (h : tokenize source start = .ok ts) : (ts.map Token.pos).Nodup := by
  refine (covers_of_tokenize h).pairwise.imp fun {p q} hbefore heq ↦ ?_
  subst heq
  exact hbefore.elim (Int.lt_irrefl _) fun hcolumn ↦ Int.lt_irrefl _ hcolumn.2

/-! ### The counters of the lexer -/

/-- The places that the lexer comes through while it scans a source: the kind of the token before,
its counters of lines and columns, and the text ahead. -/
inductive Scanning (source : Text) (start : Pos) : Option Kind → Pos → Text → Prop where
  | start : Scanning source start none start source.joinLineEnds
  | step {before k : Option Kind} {p : Pos} {t : Text} {n : Nat}
      (h : Scanning source start before p t) (hmatch : Rule.first? before t = some (k, n)) :
      Scanning source start (k <|> before) (p.advance (t.take n)) (t.drop n)

/-- Whether the counters of the lexer are at `q` right after it has matched a token. -/
def Counted (source : Text) (start : Pos) (token : Token) (q : Pos) : Prop :=
  ∃ before t n, Scanning source start before token.pos t ∧
    Rule.first? before t = some (some token.kind, n) ∧ token.lexeme = .text (t.take n) ∧
    q = token.pos.advance (t.take n)

theorem counted_ofText {source : Text} {start p : Pos} {before : Option Kind} {t : Text}
    (h : Scanning source start before p t) : ∀ u ∈ (Scan.ofText before p t).tokens,
    ∃ w, u.lexeme = .text w ∧ Counted source start u (u.pos.advance w) := by
  fun_induction Scan.ofText before p t with
  | case1 | case2 => exact List.forall_mem_nil _
  | case3 before p c rest k n hfirst lexeme token? ih =>
    have hstep := ih (h.step hfirst)
    cases k with
    | none => exact hstep
    | some k => exact List.forall_mem_cons.mpr ⟨⟨_, rfl, before, _, n, h, hfirst, rfl, rfl⟩, hstep⟩

/-- **Behind a token the counters of the lexer are where the text of the token ends.** -/
theorem counted_of_tokenize {source : Text} {start : Pos} {ts : List Token}
    (h : tokenize source start = .ok ts) :
    ∀ t ∈ ts, ∃ w, t.lexeme = .text w ∧ Counted source start t (t.pos.advance w) := by
  have hcounted := counted_ofText (.start : Scanning source start _ _ _)
  simp only [tokenize] at h
  split at h
  · cases h
    exact hcounted
  · cases h

end Advplc

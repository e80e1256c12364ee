import Advplc.Proofs.Text.Escape
import Advplc.Proofs.Text.Units
import Advplc.Text.Name

/-!
# What tokens are made of

Quotes, backslashes and braces occur in few tokens.  A string or a template is a quote, what the
quote encloses, and the quote again; a brace is a token of its own; and in all the other tokens none
of these code points occurs, comments and regular expressions apart.  `Piece` lists the cases and
`Rule.piece_of_first?` says that every match of the lexer is one of them.

So a text without comments and regular expressions is escaped as a whole (`Scans.escaped`): a
backslash in it has its partner in the same literal.
-/

set_option autoImplicit false

namespace Advplc

open Text (Escaped Enclosed units)

/-- The code points that quote, hide or enclose. -/
def special : Text := "\\'\"`\x7b\x7d"

/-- The code points that are in no name and no numeral: the special ones and the line feed. -/
def strange : Text := .scalar '\n' :: special

/-- Whether tokens of this kind have no special code point in them. -/
def Kind.isPlain : Kind → Bool
  | .lineComment | .blockComment | .regex | .string | .template => false
  | .mark m => m ≠ .openBrace ∧ m ≠ .closeBrace
  | _ => true

/-- Whether tokens of this kind may have anything in them. -/
def Kind.isFree : Kind → Bool
  | .lineComment | .blockComment | .regex => true
  | _ => false

/-- What a match of the lexer looks like, by the kind of the token it makes, if it makes one. -/
inductive Piece : Option Kind → Text → Prop where
  | plain {k : Option Kind} {w : Text} (hk : k.all Kind.isPlain = true)
      (hw : ∀ c ∈ special, c ∉ w) : Piece k w
  | brace {m : Mark} (hm : m = .openBrace ∨ m = .closeBrace) : Piece (some (.mark m)) m.spelling
  | string {quote : CodePoint} {b : Text} (hquote : quote = '"' ∨ quote = '\'')
      (hb : Enclosed quote b) : Piece (some .string) (quote :: b ++ [quote])
  | template {b : Text} (hb : Enclosed '`' b) :
      Piece (some .template) (.scalar '`' :: b ++ [.scalar '`'])
  | free {k : Kind} {w : Text} (hk : k.isFree = true) : Piece (some k) w

namespace Rule

/-! ## Literals -/

section Literals

variable {quote : CodePoint} {severalLines : Bool} {t : Text} {n : Nat}

/-- A literal ends at the first bare quote. -/
theorem enclosed_of_literalEnd (h : literalEnd quote severalLines t = some n) :
    ∃ b, t.take n = b ++ [quote] ∧ Enclosed quote b := by
  fun_induction literalEnd quote severalLines t generalizing n with
  | case1 | case2 | case5 => cases h
  | case4 =>
    cases h
    exact ⟨[], rfl, .nil quote⟩
  | case3 c rest hc ih =>
    obtain ⟨m, hm, rfl⟩ := Option.map_eq_some_iff.mp h
    obtain ⟨b, htake, hb⟩ := ih hm
    exact ⟨.scalar '\\' :: c :: b, by simp [htake], hb.escape hc⟩
  | case6 c rest hescape hquote hc ih =>
    obtain ⟨m, hm, rfl⟩ := Option.map_eq_some_iff.mp h
    obtain ⟨b, htake, hb⟩ := ih hm
    rw [not_or] at hc
    exact ⟨c :: b, by simp [htake], hb.cons hc.1 hquote⟩

/-- A literal over several lines goes on over everything that its quote encloses. -/
theorem literalEnd_of_enclosed {b : Text} (hquote : quote ≠ '\\') (h : Enclosed quote b)
    (rest : Text) : literalEnd quote true (b ++ quote :: rest) = some (b.length + 1) := by
  refine h.induct ?_ (fun c b hc ih ↦ ?_) (fun c b hc hne ih ↦ ?_)
  · rw [List.nil_append, literalEnd_cons hquote, if_pos rfl]
    rfl
  · rw [List.cons_append, List.cons_append, literalEnd_escape, if_neg hc, ih]
    rfl
  · rw [List.cons_append, literalEnd_cons hc, if_neg hne, if_neg (by simp), ih]
    rfl

theorem enclosed_of_quotedLiteral (h : 0 < quotedLiteral quote severalLines t) :
    ∃ b, t.take (quotedLiteral quote severalLines t) = quote :: b ++ [quote] ∧
      Enclosed quote b := by
  cases t with
  | nil => exact absurd h (Nat.lt_irrefl 0)
  | cons c t =>
    obtain rfl := head_of_quotedLiteral h
    rw [quotedLiteral_cons, if_pos rfl] at h ⊢
    cases hend : literalEnd c severalLines t with
    | none => rw [hend] at h; cases h
    | some n =>
      obtain ⟨b, htake, hb⟩ := enclosed_of_literalEnd hend
      refine ⟨b, ?_, hb⟩
      rw [Option.map_some, Option.getD_some, List.take_succ_cons, htake, List.cons_append]

end Literals

/-! ## Matches without special code points -/

/-- Whether a code point is in no name and in no numeral. -/
def Outside (d : CodePoint) : Prop :=
  continuesIdentifier d = false ∧ d.isDigit = false ∧ d ∉ (".+-eE" : Text)

theorem outside_of_strange : ∀ d ∈ strange, Outside d := by
  unfold Outside
  decide

/-- What is matched does not hold `d`. -/
def Avoids (d : CodePoint) (f : Text → Nat) : Prop := ∀ t : Text, d ∉ t.take (f t)

section Avoiding

variable {d : CodePoint} {w : Text}

theorem avoids_run {p : CodePoint → Bool} (hp : p d = false) : Avoids d (run p) := by
  intro t h
  rw [run, ← List.prefix_iff_eq_take.mp (List.takeWhile_prefix p)] at h
  rw [List.all_eq_true.mp List.all_takeWhile d h] at hp
  cases hp

theorem take_of_isPrefixOf {t : Text} (h : w.isPrefixOf t = true) : t.take w.length = w :=
  (List.prefix_iff_eq_take.mp (List.isPrefixOf_iff_prefix.mp h)).symm

theorem avoids_literal (hw : d ∉ w) : Avoids d (literal w) := by
  intro t
  rw [literal]
  split
  · rwa [take_of_isPrefixOf ‹_›]
  · exact List.not_mem_nil

theorem avoids_word (hw : d ∉ w) : Avoids d (word w) := by
  intro t
  rw [word]
  split
  · rwa [take_of_isPrefixOf (And.left ‹_›)]
  · exact List.not_mem_nil

/-- One match behind another. -/
theorem Avoids.add {f g : Text → Nat} (hf : Avoids d f) (hg : Avoids d g) :
    Avoids d fun t ↦ f t + g (t.drop (f t)) := by
  intro t
  rw [List.take_add, List.mem_append, not_or]
  exact ⟨hf t, hg _⟩

/-- One code point, and then a match. -/
theorem Avoids.take_cons {f : Text → Nat} (hf : Avoids d f) {c : CodePoint} (hc : d ≠ c)
    (t : Text) : d ∉ (c :: t).take (1 + f t) := by
  rw [Nat.add_comm, List.take_succ_cons, List.mem_cons, not_or]
  exact ⟨hc, hf t⟩

variable (hd : Outside d)

include hd

theorem avoids_digits : Avoids d (run CodePoint.isDigit) := avoids_run hd.2.1

theorem avoids_identifier : Avoids d identifier := by
  intro t
  cases t with
  | nil => exact List.not_mem_nil
  | cons c t =>
    rw [identifier]
    split
    · rename_i hc
      refine (avoids_run hd.1).take_cons ?_ t
      rintro rfl
      have hstarts := continuesIdentifier_of_starts hc
      rw [hd.1] at hstarts
      cases hstarts
    · exact List.not_mem_nil

/-- It is not one of the other code points that numerals have. -/
theorem Outside.ne {c : CodePoint} (hc : c ∈ (".+-eE" : Text)) : d ≠ c := by
  rintro rfl
  exact hd.2.2 hc

theorem avoids_fraction : Avoids d fraction := by
  intro t
  fun_cases fraction t with
  | case1 | case3 => exact List.not_mem_nil
  | case2 rest digits h => exact (avoids_digits hd).take_cons (hd.ne (by decide)) rest

theorem avoids_signedDigits : Avoids d signedDigits := by
  have hsign : d ≠ '+' ∧ d ≠ '-' := ⟨hd.ne (by decide), hd.ne (by decide)⟩
  have hfirst : Avoids d fun t ↦
      if t.head? = some (.scalar '+') ∨ t.head? = some (.scalar '-') then 1 else 0 := by
    intro t
    simp only
    split
    · rename_i hhead
      obtain ⟨t, rfl⟩ | ⟨t, rfl⟩ := hhead.imp List.head?_eq_some_iff.mp List.head?_eq_some_iff.mp
      · simpa using hsign.1
      · simpa using hsign.2
    · exact List.not_mem_nil
  intro t
  have hall := hfirst.add (avoids_digits hd) t
  simp only [signedDigits] at hall ⊢
  generalize (if t.head? = some (.scalar '+') ∨ t.head? = some (.scalar '-') then 1 else 0) = sign
    at hall ⊢
  split
  · exact List.not_mem_nil
  · exact hall

theorem avoids_exponent : Avoids d exponent := by
  intro t
  cases t with
  | nil => exact List.not_mem_nil
  | cons c t =>
    rw [exponent_cons]
    split
    · rename_i hc
      refine (avoids_signedDigits hd).take_cons ?_ t
      rintro rfl
      exact hc.1.elim (hd.ne (by decide)) (hd.ne (by decide))
    · exact List.not_mem_nil

theorem avoids_number : Avoids d number := by
  intro t
  simp only [number]
  split
  · exact List.not_mem_nil
  · exact ((avoids_digits hd).add (avoids_fraction hd)).add (avoids_exponent hd) t

end Avoiding

/-! ## The rules together -/

theorem piece_of_pos {t : Text} :
    ∀ rule ∈ all, 0 < rule.length t → Piece rule.kind (t.take (rule.length t)) := by
  have hquoted : ∀ {k : Kind} {quote : CodePoint} {severalLines : Bool},
      (∀ {b}, Enclosed quote b → Piece (some k) (quote :: b ++ [quote])) →
      0 < quotedLiteral quote severalLines t →
        Piece (some k) (t.take (quotedLiteral quote severalLines t)) := by
    intro k quote severalLines hpiece hpos
    obtain ⟨b, htake, hb⟩ := enclosed_of_quotedLiteral hpos
    rw [htake]
    exact hpiece hb
  have hblank : ∀ d ∈ special, d.isBlank = false := by decide
  have hspecial : ∀ d ∈ special, Outside d :=
    fun d hd ↦ outside_of_strange d (List.mem_cons_of_mem _ hd)
  refine forall_mem_all ?blank ?line ?block ?keyword ?console ?regular ?name ?numeral ?double
    ?single ?template ?mark
  case blank => exact fun _ ↦ .plain rfl fun d hd ↦ avoids_run (hblank d hd) t
  case line | block | regular => exact fun _ ↦ .free rfl
  case keyword =>
    intro k _
    have hspelling : ∀ d ∈ special, d ∉ k.spelling := by cases k <;> decide
    exact .plain rfl fun d hd ↦ avoids_word (hspelling d hd) t
  case console =>
    have hspelling : ∀ d ∈ special, d ∉ ("console.log" : Text) := by decide
    exact fun _ ↦ .plain rfl fun d hd ↦ avoids_word (hspelling d hd) t
  case name => exact fun _ ↦ .plain rfl fun d hd ↦ avoids_identifier (hspecial d hd) t
  case numeral => exact fun _ ↦ .plain rfl fun d hd ↦ avoids_number (hspecial d hd) t
  case double => exact hquoted (.string (.inl rfl))
  case single => exact hquoted (.string (.inr rfl))
  case template => exact hquoted .template
  case mark =>
    intro m hpos
    by_cases hm : m = .openBrace ∨ m = .closeBrace
    · have hprefix := isPrefixOf_of_literal hpos
      simp only [literal, if_pos hprefix]
      rw [take_of_isPrefixOf hprefix]
      exact .brace hm
    · have hspelling : ∀ d ∈ special, d ∉ m.spelling := by cases m <;> revert hm <;> decide
      refine .plain ?_ fun d hd ↦ avoids_literal (hspelling d hd) t
      simpa [Kind.isPlain, not_or] using hm

/-- **A match of the lexer is one of the pieces.** -/
theorem piece_of_first? {before k : Option Kind} {t : Text} {n : Nat}
    (h : first? before t = some (k, n)) : Piece k (t.take n) := by
  obtain ⟨rule, hrule, rfl, rfl, hpos⟩ := exists_of_first? h
  exact piece_of_pos rule hrule hpos

end Rule

/-! ## Templates -/

/-- **The lexer takes a text in backticks for one template.** -/
theorem Rule.first?_template {b : Text} (h : Enclosed '`' b) (before : Option Kind) (rest : Text) :
    first? before (.scalar '`' :: b ++ .scalar '`' :: rest) =
      some (some .template, b.length + 2) := by
  have hlength : quotedLiteral '`' true (.scalar '`' :: b ++ .scalar '`' :: rest) =
      b.length + 2 := by
    rw [List.cons_append, quotedLiteral_cons, if_pos rfl, literalEnd_of_enclosed (by decide) h rest]
    rfl
  have hkind : ∀ rule ∈ all, Kind.starts rule.kind '`' = true →
      rule.kind = some .template ∧ rule.length = quotedLiteral '`' true := by
    refine forall_mem_all ?_ ?_ ?_ ?keyword ?_ ?_ ?_ ?_ ?_ ?_ ?template ?mark
    case keyword =>
      intro k hk
      exact absurd (startsIdentifier_of_keyword (of_decide_eq_true hk)) (by decide)
    case template => exact fun _ ↦ ⟨rfl, rfl⟩
    case mark => exact fun m hm ↦ absurd hm (by cases m <;> decide)
    all_goals exact fun hstarts ↦ absurd hstarts (by decide)
  have hmem : ⟨some .template, quotedLiteral '`' true, fun _ ↦ true⟩ ∈ all := by simp [all]
  rw [← hlength]
  refine first?_eq_of_forall hmem rfl (Nat.lt_of_lt_of_eq (Nat.succ_pos _) hlength.symm) ?_
  intro rule hrule hpos
  obtain ⟨htemplate, hquoted⟩ := hkind rule hrule (starts_of_pos rule hrule hpos)
  exact ⟨htemplate, by rw [hquoted]⟩

/-- A token that was read is what some rule made of the text at its place. -/
theorem Scan.exists_first? {before : Option Kind} {p : Pos} {source : Text} {t : Token}
    (h : t ∈ (Scan.ofText before p source).tokens) : ∃ behind u n,
      Rule.first? behind u = some (some t.kind, n) ∧ t.lexeme = .text (u.take n) ∧
        u <:+ source := by
  fun_induction Scan.ofText before p source with
  | case1 | case2 => cases h
  | case3 before p c rest k n hfirst lexeme token? ih =>
    obtain h | h := List.mem_append.mp h
    · cases k with
      | none => cases h
      | some k =>
        obtain rfl := List.mem_singleton.mp h
        exact ⟨before, c :: rest, n, hfirst, rfl, List.suffix_rfl⟩
    · obtain ⟨behind, u, m, hu, hlexeme, hsuffix⟩ := ih h
      exact ⟨behind, u, m, hu, hlexeme, hsuffix.trans (List.drop_suffix n _)⟩

theorem mem_scan_of_tokenize {source : Text} {p : Pos} {ts : List Token}
    (h : tokenize source p = .ok ts) {t : Token} (ht : t ∈ ts) : t ∈ (scan source p).tokens := by
  rw [tokenize] at h
  split at h
  · cases h
    exact ht
  · cases h

/-- **A template of the lexer** is a text in backticks that the backtick encloses. -/
theorem exists_enclosed_of_mem_scan {source : Text} {p : Pos} {t : Token}
    (h : t ∈ (scan source p).tokens) (ht : t.kind = .template) :
    ∃ b, t.lexeme = .text (.scalar '`' :: b ++ [.scalar '`']) ∧ Enclosed '`' b ∧
      ∀ c ∈ b, c ∈ source.joinLineEnds := by
  obtain ⟨behind, u, n, hfirst, hlexeme, hsuffix⟩ := Scan.exists_first? h
  have hpiece := Rule.piece_of_first? hfirst
  have hsubset : ∀ c ∈ u.take n, c ∈ source.joinLineEnds :=
    fun c hc ↦ hsuffix.subset (List.take_subset n u hc)
  rw [hlexeme]
  generalize u.take n = w at hpiece hsubset ⊢
  rw [ht] at hpiece
  cases hpiece with
  | plain hk => cases hk
  | free hk => cases hk
  | template hb => exact ⟨_, rfl, hb, fun c hc ↦ hsubset c (by simp [hc])⟩

/-! ## Texts without comments and regular expressions -/

/-- A literal is escaped, quotes and all. -/
theorem Text.Enclosed.quoted {quote : CodePoint} {b : Text} (hquote : quote ≠ '\\')
    (h : Enclosed quote b) : Escaped (quote :: b ++ [quote]) := by
  have hone : Escaped [quote] := .of_not_mem (by simpa using Ne.symm hquote)
  exact (hone.append h.toEscaped).append hone

theorem Piece.escaped {k : Option Kind} {w : Text} (h : Piece k w)
    (hk : k.any Kind.isFree = false) : Escaped w := by
  cases h with
  | plain _ hw => exact .of_not_mem (hw _ (by decide))
  | brace hm => obtain rfl | rfl := hm <;> exact .of_not_mem (by decide)
  | string hquote hb =>
    refine hb.quoted ?_
    obtain rfl | rfl := hquote <;> decide
  | template hb => exact hb.quoted (by decide)
  | free hfree => exact absurd hfree (Bool.eq_false_iff.mp hk)

/-- **A backslash has its partner in the same literal**, if there are no comments and regular
expressions. -/
theorem Scans.escaped {before : Option Kind} {t : Text} {fs : List (Kind × Lexeme)}
    (h : Scans before t fs) (hfree : ∀ f ∈ fs, f.1.isFree = false) : Escaped t := by
  induction h with
  | done => exact .of_not_mem List.not_mem_nil
  | blank h _ ih =>
    rw [← List.take_append_drop _ (_ :: _)]
    exact (Rule.piece_of_first? h).escaped rfl |>.append (ih hfree)
  | token h _ ih =>
    rw [List.forall_mem_cons] at hfree
    rw [← List.take_append_drop _ (_ :: _)]
    exact (Rule.piece_of_first? h).escaped hfree.1 |>.append (ih hfree.2)

/-! ## How marks and reserved words are written -/

/-- Whether a token is written like the mark that it is, if it is one. -/
def Token.Spelled (t : Token) : Prop := ∀ m, t.kind = .mark m → t.lexeme = .text m.spelling

/-- How the tokens of a kind are written, where the kind alone decides. -/
def Kind.spelling? : Kind → Option Text
  | .keyword word => some word.spelling
  | .mark m => some m.spelling
  | _ => none

theorem Rule.take_of_spelling {k : Kind} {w t : Text} (hw : k.spelling? = some w) :
    ∀ rule ∈ Rule.all, rule.kind = some k → 0 < rule.length t → t.take (rule.length t) = w := by
  have htake : ∀ {w : Text}, w.isPrefixOf t = true → t.take w.length = w := fun h ↦
    (List.prefix_iff_eq_take.mp (List.isPrefixOf_iff_prefix.mp h)).symm
  refine forall_mem_all ?_ ?_ ?_ ?keyword ?_ ?_ ?_ ?_ ?_ ?_ ?_ ?mark
  case keyword =>
    intro word hkind hpos
    cases hkind
    cases hw
    have hprefix := isPrefixOf_of_word hpos
    simp only [Rule.word] at hpos ⊢
    split
    · exact htake hprefix
    · rw [if_neg ‹_›] at hpos
      exact absurd hpos (Nat.lt_irrefl 0)
  case mark =>
    intro m hkind hpos
    cases hkind
    cases hw
    have hprefix := isPrefixOf_of_literal hpos
    simp only [literal, if_pos hprefix]
    exact htake hprefix
  all_goals
    intro hkind
    cases hkind <;> cases hw

theorem Scans.spelling {before : Option Kind} {t : Text} {fs : List (Kind × Lexeme)}
    (h : Scans before t fs) : ∀ f ∈ fs, ∀ w, f.1.spelling? = some w → f.2 = .text w := by
  induction h with
  | done => simp
  | blank _ _ ih => exact ih
  | token h _ ih =>
    intro f hf
    obtain rfl | hf := List.mem_cons.mp hf
    · intro w hw
      obtain ⟨rule, hrule, hkind, rfl, hpos⟩ := Rule.exists_of_first? h
      exact congrArg Lexeme.text (Rule.take_of_spelling hw rule hrule hkind hpos)
    · exact ih f hf

theorem spelled_of_tokenize {source : Text} {p : Pos} {ts : List Token}
    (h : tokenize source p = .ok ts) : ∀ t ∈ ts, t.Spelled := by
  intro t ht
  have hscans := (tokenize_eq_ok_iff p).mpr ⟨ts, h, rfl⟩
  exact fun m hm ↦ hscans.spelling t.form (List.mem_map_of_mem ht) _ (congrArg Kind.spelling? hm)

/-! ## Names -/

/-- A name has no code point that no name may have. -/
theorem Text.notMem_of_isName {d : CodePoint} (hstart : nameStartRanges.has d.val = false)
    (hrest : nameRestRanges.has d.val = false) {w : Text} (h : w.isName = true) : d ∉ w := by
  rcases w with _ | ⟨c, w⟩
  · exact List.not_mem_nil
  · rw [Text.isName, Bool.and_eq_true, List.all_eq_true] at h
    rintro hd
    rcases List.mem_cons.mp hd with rfl | hd
    · rw [hstart] at h
      cases h.1
    · have hhas := h.2 _ hd
      rw [hrest] at hhas
      cases hhas

end Advplc

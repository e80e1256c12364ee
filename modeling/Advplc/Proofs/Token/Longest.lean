import Advplc.Proofs.Token.Coverage
import Advplc.Proofs.Token.Delimited

/-!
# The longest match

The first rule that matches decides what a token is, and the rules are ordered so that this is the
longest match, for words as well as for marks.  A word takes in all letters, digits and underscores
that follow, and it is reserved if it is spelled like a reserved word and no other word character
follows either.  A mark is the longest that the text begins with, since a mark stands in the list
before those that begin it (`Rule.pairwise_marks`).

`Token.Longest` says this of one token and of the text at its place, without mention of the rules;
`tokenize_longest` says it of every token of a source.
-/

set_option autoImplicit false

namespace Advplc

/-! ## What is claimed of a token -/

/-- The code points that words are made of: the letters, the digits and the underscore of ASCII. -/
def wordLetters : Text := "abcdefghijklmnopqrstuvwxyzABCDEFGHIJKLMNOPQRSTUVWXYZ0123456789_"

/-- Whether a token of this kind is a word, reserved or not. -/
def Kind.IsWord (k : Kind) : Prop := k = .identifier ∨ ∃ word, k = .keyword word

/-- The token takes as much as it can of `rest`, the text at its place. -/
structure Token.Longest (t : Token) (rest : Text) : Prop where
  /-- A word is a maximal run of letters, digits and underscores.  It is reserved exactly if it is
  spelled like a reserved word and no word character follows. -/
  word : t.kind.IsWord → ∃ w behind, rest = w ++ behind ∧ t.lexeme = .text w ∧ w ≠ [] ∧
    (∀ c ∈ w, c ∈ wordLetters) ∧ (∀ c ∈ behind.head?, c ∉ wordLetters) ∧
    ∀ k, t.kind = .keyword k ↔ w = k.spelling ∧ behind.atWordEnd = true
  /-- Where `console.log` stands as a word, it is one token. -/
  console : ∀ behind, rest = ("console.log" : Text) ++ behind → behind.atWordEnd = true →
    t.kind = .consoleLog ∧ t.lexeme = "console.log"
  /-- A mark is the longest that the text begins with. -/
  mark : ∀ m, t.kind = .mark m → t.lexeme = .text m.spelling ∧ m.spelling <+: rest ∧
    ∀ other : Mark, other.spelling <+: rest → other.spelling.length ≤ m.spelling.length

/-- Whether the token stands in a source that begins at `start` where `rest` is what is left of the
source, once its line ends are joined. -/
def Token.Begins (t : Token) (source : Text) (start : Pos) (rest : Text) : Prop :=
  ∃ front, source.joinLineEnds = front ++ rest ∧ t.pos = start.behind front

/-! ## The order of the rules -/

namespace Rule

variable {before : Option Kind} {t : Text} {k : Option Kind} {n : Nat}

/-- If one of the first `i` rules matches, then the first rule that does is one of them. -/
theorem exists_early {i : Nat} {rule : Rule} (hrule : rule ∈ all.take i)
    (hallowed : rule.allowed before = true) (hpos : 0 < rule.length t)
    (h : first? before t = some (k, n)) :
    ∃ q ∈ all.take i, q.kind = k ∧ q.length t = n ∧ 0 < n := by
  have hattempt : rule.attempt before t = some (rule.kind, rule.length t) :=
    attempt_eq_some.mpr ⟨hallowed, hpos, rfl, rfl⟩
  obtain ⟨r, hfind⟩ : ∃ r, (all.take i).findSome? (attempt before t) = some r := by
    refine Option.isSome_iff_exists.mp (List.findSome?_isSome_iff.mpr ⟨rule, hrule, ?_⟩)
    rw [hattempt]
    rfl
  rw [first?, ← List.take_append_drop i all, List.findSome?_append, hfind, Option.some_or,
    Option.some.injEq] at h
  obtain ⟨q, hq, hattempt⟩ := List.exists_of_findSome?_eq_some (h ▸ hfind)
  obtain ⟨-, hn, hkind, hlength⟩ := attempt_eq_some.mp hattempt
  exact ⟨q, hq, hkind, hlength, hn⟩

/-- Behind the rules for blanks and comments come those for reserved words. -/
theorem take_words : all.take 28 = all.take 3 ++
    Keyword.all.map fun k ↦ ⟨some (.keyword k), word k.spelling, fun _ ↦ true⟩ := rfl

theorem keyword_mem_take (k : Keyword) :
    ⟨some (.keyword k), word k.spelling, fun _ ↦ true⟩ ∈ all.take 28 := by
  rw [take_words]
  exact List.mem_append_right _ (List.mem_map.mpr ⟨k, Keyword.mem_all k, rfl⟩)

theorem mem_take_words {rule : Rule} (h : rule ∈ all.take 28) :
    rule.kind ∈ [none, some .lineComment, some .blockComment] ∨ ∃ k : Keyword,
      rule = ⟨some (.keyword k), word k.spelling, fun _ ↦ true⟩ := by
  have hkinds : ∀ k ∈ (all.take 3).map Rule.kind,
      k ∈ [none, some .lineComment, some .blockComment] := by decide
  rw [take_words, List.mem_append, List.mem_map] at h
  rcases h with h | ⟨k, -, rfl⟩
  · exact .inl (hkinds _ (List.mem_map_of_mem h))
  · exact .inr ⟨k, rfl⟩

theorem mem_take_console {rule : Rule} (h : rule ∈ all.take 29) : rule ∈ all.take 28 ∨
    rule = ⟨some .consoleLog, word "console.log", fun _ ↦ true⟩ :=
  (List.mem_append.mp (h : rule ∈ all.take 28 ++ [_])).imp_right List.mem_singleton.mp

/-! ## Words -/

theorem mem_wordLetters_iff {c : CodePoint} : c ∈ wordLetters ↔ continuesIdentifier c = true := by
  have hgoes : ∀ c ∈ wordLetters, continuesIdentifier c = true := by decide
  have hlists : ∀ n < 128, continuesIdentifier (.scalar (Char.ofNat n)) = true →
      .scalar (Char.ofNat n) ∈ wordLetters := by decide +kernel
  constructor
  · exact hgoes c
  · intro hc
    obtain ⟨n, hn, rfl⟩ := ascii_of_continuesIdentifier hc
    exact hlists n hn hc

/-- A word matches where it stands and no word character follows. -/
theorem word_append {s r : Text} (hend : r.atWordEnd = true) : word s (s ++ r) = s.length := by
  have hstart := List.isPrefixOf_iff_prefix.mpr (List.prefix_append s r)
  rw [word, List.drop_left, if_pos ⟨hstart, hend⟩]

theorem exists_of_word {s : Text} (h : 0 < word s t) : ∃ r, t = s ++ r ∧ r.atWordEnd = true := by
  obtain ⟨r, rfl⟩ := List.isPrefixOf_iff_prefix.mp (isPrefixOf_of_word h)
  refine ⟨r, rfl, ?_⟩
  rw [word, List.drop_left] at h
  split at h
  · exact And.right ‹_›
  · cases h

/-- A word of letters matches where it is the whole run of letters and no other word character
follows. -/
theorem word_pos_iff {s : Text} (hne : s ≠ []) (hs : ∀ c ∈ s, continuesIdentifier c = true) :
    0 < word s t ↔ t.takeWhile continuesIdentifier = s ∧
      Text.atWordEnd (t.dropWhile continuesIdentifier) = true := by
  constructor
  · intro h
    obtain ⟨r, rfl, hend⟩ := exists_of_word h
    -- A letter of ASCII is a word character, so the run ends where the word does.
    have hstop : r.takeWhile continuesIdentifier = [] ∧ r.dropWhile continuesIdentifier = r := by
      rcases r with _ | ⟨c, r⟩
      · exact ⟨rfl, rfl⟩
      · have hc : ¬ continuesIdentifier c = true := by
          intro hc
          rw [Text.atWordEnd, isWord_of_continuesIdentifier hc] at hend
          cases hend
        exact ⟨List.takeWhile_cons_of_neg hc, List.dropWhile_cons_of_neg hc⟩
    rw [List.takeWhile_append_of_pos hs, List.dropWhile_append_of_pos hs, hstop.1, hstop.2,
      List.append_nil]
    exact ⟨rfl, hend⟩
  · rintro ⟨rfl, hend⟩
    have hlength := word_append (s := t.takeWhile continuesIdentifier) hend
    rw [List.takeWhile_append_dropWhile] at hlength
    rw [hlength]
    exact List.length_pos_of_ne_nil hne

theorem continuesIdentifier_of_spelling (word : Keyword) :
    ∀ c ∈ word.spelling, continuesIdentifier c = true := by
  cases word <;> decide

theorem spelling_inj {word other : Keyword} (h : word.spelling = other.spelling) :
    word = other := by
  have hall : ∀ w ∈ Keyword.all, ∀ o ∈ Keyword.all, w.spelling = o.spelling → w = o := by
    decide +kernel
  exact hall word (Keyword.mem_all word) other (Keyword.mem_all other) h

theorem keyword_pos_iff {word : Keyword} : 0 < Rule.word word.spelling t ↔
    t.takeWhile continuesIdentifier = word.spelling ∧
      Text.atWordEnd (t.dropWhile continuesIdentifier) = true :=
  word_pos_iff (by cases word <;> decide) (continuesIdentifier_of_spelling word)

/-- A word takes the whole run of letters. -/
theorem run_of_isWord {k : Kind} (hk : k.IsWord) (h : first? before t = some (some k, n)) :
    n = (t.takeWhile continuesIdentifier).length := by
  rcases hk with rfl | ⟨word, rfl⟩
  · obtain ⟨rfl, hpos⟩ := length_of_first? h rfl
    rcases t with _ | ⟨c, t⟩
    · cases hpos
    · by_cases hc : startsIdentifier c = true
      · rw [identifier, if_pos hc, List.takeWhile_cons_of_pos (continuesIdentifier_of_starts hc),
          List.length_cons, Nat.add_comm, run]
      · rw [identifier, if_neg hc] at hpos
        cases hpos
  · obtain ⟨rfl, hpos⟩ := length_of_first? h rfl
    obtain ⟨r, hr, hend⟩ := exists_of_word hpos
    rw [(keyword_pos_iff.mp hpos).1, hr, word_append hend]

/-- A word is reserved where the run of letters is a reserved word and no other word character
follows. -/
theorem keyword_iff {k : Kind} (hk : k.IsWord) (h : first? before t = some (some k, n))
    (word : Keyword) : k = .keyword word ↔ t.takeWhile continuesIdentifier = word.spelling ∧
      Text.atWordEnd (t.dropWhile continuesIdentifier) = true := by
  constructor
  · rintro rfl
    obtain ⟨rfl, hpos⟩ := length_of_first? h rfl
    exact keyword_pos_iff.mp hpos
  · intro hrun
    obtain ⟨q, hq, hkind, hlength, hpos⟩ :=
      exists_early (keyword_mem_take word) rfl (keyword_pos_iff.mpr hrun) h
    rcases mem_take_words hq with hgap | ⟨other, rfl⟩
    · rw [hkind] at hgap
      rcases hk with rfl | ⟨_, rfl⟩ <;> simp at hgap
    · rw [← hlength] at hpos
      rw [← Option.some.inj hkind, spelling_inj (hrun.1.symm.trans (keyword_pos_iff.mp hpos).1)]

/-- Where `console.log` stands as a word, it is matched as such. -/
theorem first?_console {behind : Text} (hend : behind.atWordEnd = true)
    (h : first? before (("console.log" : Text) ++ behind) = some (k, n)) :
    k = some .consoleLog ∧ n = ("console.log" : Text).length := by
  have hmatch := word_append (s := "console.log") hend
  have hmem : ⟨some .consoleLog, word "console.log", fun _ ↦ true⟩ ∈ all.take 29 :=
    List.mem_append_right (all.take 28) (List.mem_singleton_self _)
  have hpos : 0 < word "console.log" (("console.log" : Text) ++ behind) := by
    rw [hmatch]
    decide
  obtain ⟨q, hq, rfl, rfl, hpos⟩ := exists_early hmem rfl hpos h
  rcases mem_take_console hq with hq | rfl
  · have hstarts : Kind.starts q.kind 'c' = true :=
      starts_of_pos q (List.mem_of_mem_take hq) hpos
    rcases mem_take_words hq with hgap | ⟨other, rfl⟩
    · have hnot : ∀ k ∈ [none, some .lineComment, some .blockComment],
          Kind.starts k 'c' = false := by decide
      rw [hnot _ hgap] at hstarts
      cases hstarts
    · -- No reserved word is as long, and none begins it.
      have hshort : other.spelling.length ≤ ("console.log" : Text).length := by
        cases other <;> decide
      have hother := isPrefixOf_of_word hpos
      rw [isPrefixOf_append hshort] at hother
      have hnot : other.spelling.isPrefixOf ("console.log" : Text) = false := by
        cases other <;> decide
      rw [hnot] at hother
      cases hother
  · exact ⟨rfl, hmatch⟩

/-! ## Marks -/

/-- **A mark comes before those that begin it.** -/
theorem pairwise_marks :
    Mark.all.Pairwise fun m other ↦ m.spelling.isPrefixOf other.spelling = false := by
  decide +kernel

theorem literal_eq_zero_iff {s : Text} (hs : s ≠ []) : literal s t = 0 ↔ ¬ s <+: t := by
  rw [literal]
  split
  · have hstart := List.isPrefixOf_iff_prefix.mp ‹_›
    simp [hstart, hs]
  · have hstart : ¬ s <+: t := fun hstart ↦ ‹¬ _› (List.isPrefixOf_iff_prefix.mpr hstart)
    simp [hstart]

theorem spelling_ne_nil (m : Mark) : m.spelling ≠ [] := by cases m <;> decide

/-- The rules for marks come last. -/
theorem all_eq_append : all = all.take 35 ++
    Mark.all.map fun m ↦ ⟨some (.mark m), literal m.spelling, fun _ ↦ true⟩ := rfl

/-- Where a mark is matched, no mark before it in the list is. -/
theorem exists_marks {m : Mark} (h : first? before t = some (some (.mark m), n)) :
    ∃ earlier later, Mark.all = earlier ++ m :: later ∧ literal m.spelling t = n ∧ 0 < n ∧
      ∀ other ∈ earlier, literal other.spelling t = 0 := by
  have hkinds : ∀ k ∈ (all.take 35).map Rule.kind, ∀ m ∈ Mark.all, k ≠ some (.mark m) := by
    decide +kernel
  have hnone : (all.take 35).findSome? (attempt before t) = none := by
    rcases hfind : (all.take 35).findSome? (attempt before t) with _ | r
    · rfl
    · rw [first?, all_eq_append, List.findSome?_append, hfind, Option.some_or,
        Option.some.injEq] at h
      obtain ⟨q, hq, hattempt⟩ := List.exists_of_findSome?_eq_some (h ▸ hfind)
      have hkind := (attempt_eq_some.mp hattempt).2.2.1
      exact absurd hkind (hkinds _ (List.mem_map_of_mem hq) m (Mark.mem_all m))
  rw [first?, all_eq_append, List.findSome?_append, hnone, Option.none_or, List.findSome?_map,
    List.findSome?_eq_some_iff] at h
  obtain ⟨earlier, first, later, hall, hfirst, hearlier⟩ := h
  obtain ⟨-, hpos, hkind, hlength⟩ := attempt_eq_some.mp hfirst
  cases hkind
  exact ⟨earlier, later, hall, hlength, hpos, fun other hother ↦
    attempt_eq_none.mp (hearlier other hother) rfl⟩

/-- The mark that is matched is the longest that the text begins with. -/
theorem longest_of_mark {m : Mark} (h : first? before t = some (some (.mark m), n)) :
    m.spelling <+: t ∧ n = m.spelling.length ∧
      ∀ other : Mark, other.spelling <+: t → other.spelling.length ≤ m.spelling.length := by
  obtain ⟨earlier, later, hall, rfl, hpos, hearlier⟩ := exists_marks h
  have hstart : m.spelling <+: t := List.isPrefixOf_iff_prefix.mp (isPrefixOf_of_literal hpos)
  have hlength : literal m.spelling t = m.spelling.length :=
    if_pos (List.isPrefixOf_iff_prefix.mpr hstart)
  refine ⟨hstart, hlength, fun other hother ↦ ?_⟩
  have hmem := Mark.mem_all other
  have hpairwise := pairwise_marks
  rw [hall, List.pairwise_append, List.pairwise_cons] at hpairwise
  rw [hall, List.mem_append, List.mem_cons] at hmem
  rcases hmem with hmem | rfl | hmem
  · exact absurd hother ((literal_eq_zero_iff (spelling_ne_nil other)).mp (hearlier other hmem))
  · exact Nat.le_refl _
  · rcases List.prefix_or_prefix_of_prefix hstart hother with hle | hle
    · have hnot := hpairwise.2.1.1 other hmem
      rw [List.isPrefixOf_iff_prefix.mpr hle] at hnot
      cases hnot
    · exact hle.length_le

end Rule

/-! ## Tokens -/

/-- What the first rule makes of a text is the longest match. -/
theorem Token.longest_of_first? {before : Option Kind} {t : Token} {rest : Text} {n : Nat}
    (h : Rule.first? before rest = some (some t.kind, n))
    (hlexeme : t.lexeme = .text (rest.take n)) : t.Longest rest where
  word hk := by
    have hlength := Rule.run_of_isWord hk h
    have hstart : rest.takeWhile Rule.continuesIdentifier <+: rest := List.takeWhile_prefix _
    rw [hlength, ← List.prefix_iff_eq_take.mp hstart] at hlexeme
    refine ⟨_, _, List.takeWhile_append_dropWhile.symm, hlexeme, ?_, fun c hc ↦ ?_, fun c hc ↦ ?_,
      Rule.keyword_iff hk h⟩
    · exact List.ne_nil_of_length_pos (hlength ▸ Rule.pos_of_first? h)
    · exact Rule.mem_wordLetters_iff.mpr (List.mem_takeWhile_imp hc)
    · have hstop := List.head?_dropWhile_not Rule.continuesIdentifier rest
      rw [Option.mem_def.mp hc] at hstop
      exact fun hmem ↦ Bool.false_ne_true (hstop.symm.trans (Rule.mem_wordLetters_iff.mp hmem))
  console := by
    rintro behind rfl hend
    obtain ⟨hkind, rfl⟩ := Rule.first?_console hend h
    rw [List.take_left] at hlexeme
    exact ⟨Option.some.inj hkind, hlexeme⟩
  mark m hm := by
    rw [hm] at h
    obtain ⟨hstart, rfl, hlongest⟩ := Rule.longest_of_mark h
    rw [← List.prefix_iff_eq_take.mp hstart] at hlexeme
    exact ⟨hlexeme, hstart, hlongest⟩

section Places

variable {source : Text} {start : Pos}

/-- Where the lexer comes through, the counters are at what was read. -/
theorem Scanning.exists_front {before : Option Kind} {p : Pos} {t : Text}
    (h : Scanning source start before p t) :
    ∃ front, source.joinLineEnds = front ++ t ∧ p = start.behind front := by
  induction h with
  | start => exact ⟨[], rfl, by rw [← Pos.advance_eq_behind, Pos.advance_nil]⟩
  | @step before k p t n h hmatch ih =>
    obtain ⟨front, hsource, rfl⟩ := ih
    refine ⟨front ++ t.take n, ?_, ?_⟩
    · rw [hsource, List.append_assoc, List.take_append_drop]
    · rw [← Pos.advance_eq_behind, ← Pos.advance_eq_behind, Pos.advance_append]

/-- A position is that of one place in a text only. -/
theorem Pos.eq_of_behind_eq {front front' rest rest' : Text} (h : front ++ rest = front' ++ rest')
    (hpos : start.behind front = start.behind front') : rest = rest' := by
  have hlater : ∀ (f : Text) (c : CodePoint) (more : Text),
      start.behind f ≠ start.behind (f ++ c :: more) := by
    intro f c more heq
    have hbefore := Pos.before_advance (start.advance f) c more
    rw [← Pos.advance_append, Pos.advance_eq_behind, Pos.advance_eq_behind, ← heq] at hbefore
    unfold Pos.Before at hbefore
    omega
  rcases List.append_eq_append_iff.mp h with ⟨more, rfl, rfl⟩ | ⟨more, rfl, rfl⟩
  · rcases more with _ | ⟨c, more⟩
    · rfl
    · exact absurd hpos (hlater front c more)
  · rcases more with _ | ⟨c, more⟩
    · rfl
    · exact absurd hpos.symm (hlater front' c more)

/-- **Words and marks are cut by the longest match.**  Every token of a source stands at one place
in it, and takes as much as it can of the text at its place. -/
theorem tokenize_longest {ts : List Token} (h : tokenize source start = .ok ts) :
    ∀ t ∈ ts, ∃ rest, t.Begins source start rest ∧ t.Longest rest ∧
      ∀ other, t.Begins source start other → other = rest := by
  intro t ht
  obtain ⟨w, -, before, rest, n, hscanning, hfirst, hlexeme, -⟩ := counted_of_tokenize h t ht
  obtain ⟨front, hsource, hpos⟩ := hscanning.exists_front
  refine ⟨rest, ⟨front, hsource, hpos⟩, Token.longest_of_first? hfirst hlexeme, ?_⟩
  rintro other ⟨front', hsource', hpos'⟩
  exact Pos.eq_of_behind_eq (hsource'.symm.trans hsource) (hpos'.symm.trans hpos)

/-- The first two letters are no reserved word, since a digit follows that is not of ASCII. -/
theorem tokenize_longest_sample :
    let source : Text := "if٣===iffy if console.log"
    let ts : List Token :=
      [⟨.identifier, "if", ⟨1, 1⟩⟩, ⟨.number, "٣", ⟨1, 3⟩⟩, ⟨.mark .strictEqual, "===", ⟨1, 4⟩⟩,
       ⟨.identifier, "iffy", ⟨1, 7⟩⟩, ⟨.keyword .ifWord, "if", ⟨1, 12⟩⟩,
       ⟨.consoleLog, "console.log", ⟨1, 15⟩⟩]
    tokenize source Pos.origin = .ok ts ∧
      ∀ t ∈ ts, ∃ rest, t.Begins source Pos.origin rest ∧ t.Longest rest ∧
        ∀ other, t.Begins source Pos.origin other → other = rest := by
  intro source ts
  have hts : tokenize source Pos.origin = .ok ts := tokenize_of_toOption (by decide +kernel)
  exact ⟨hts, tokenize_longest hts⟩

end Places

end Advplc

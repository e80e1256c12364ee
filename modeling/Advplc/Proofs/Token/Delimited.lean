import Advplc.Proofs.Text.Escape
import Advplc.Proofs.Text.Numeral
import Advplc.Proofs.Token.Joining

/-!
# Tokens and what follows them

Which token a text begins with can depend on what follows the token: a letter behind a name belongs
to the name, an equals sign behind a plus makes it another mark.  Here is what may follow a name, a
numeral and the marks of arithmetic so that the lexer stops where they end.
-/

set_option autoImplicit false

namespace Advplc

/-- The code points that end a name or a numeral before them. -/
def delimiters : Text := " ()[],+-"

/-- Nothing follows, or something that ends a name or a numeral. -/
inductive Text.Delimited : Text → Prop where
  | nil : Delimited []
  | cons {c : CodePoint} (hc : c ∈ delimiters) (t : Text) : Delimited (c :: t)

theorem Text.Delimited.of_head {w : Text} (h : ∃ c ∈ delimiters, w.head? = some c) (t : Text) :
    Delimited (w ++ t) := by
  obtain ⟨c, hc, hhead⟩ := h
  obtain ⟨v, rfl⟩ := List.head?_eq_some_iff.mp hhead
  exact .cons hc _

/-! ## Code points -/

namespace Rule

variable {c : CodePoint}

theorem ascii_of_continuesIdentifier (h : continuesIdentifier c = true) :
    ∃ n < 128, c = .scalar (Char.ofNat n) := by
  cases c with
  | surrogate i => cases h
  | scalar c =>
    refine ⟨c.toNat, ?_, by rw [Char.ofNat_toNat]⟩
    -- Each class of letters and digits has a last member.
    have hlast (d : Char) (hd : d.val < 128) (h : c.val ≤ d.val) : c.toNat < 128 :=
      UInt32.lt_iff_toNat_lt.mp (UInt32.lt_of_le_of_lt h hd)
    have hclasses : (((c.isUpper || c.isLower) || c.isDigit) || decide (c = '_')) = true := h
    rw [Bool.or_eq_true, Bool.or_eq_true, Bool.or_eq_true] at hclasses
    obtain ((h | h) | h) | h := hclasses
    · exact hlast 'Z' (by decide) (of_decide_eq_true h).2
    · exact hlast 'z' (by decide) (of_decide_eq_true (Bool.and_eq_true_iff.mp h).2)
    · exact hlast '9' (by decide) (of_decide_eq_true (Bool.and_eq_true_iff.mp h).2)
    · rw [of_decide_eq_true h]
      decide

theorem isWord_of_continuesIdentifier (h : continuesIdentifier c = true) : c.isWord = true := by
  have hall : ∀ n < 128, continuesIdentifier (.scalar (Char.ofNat n)) = true →
      CodePoint.isWord (.scalar (Char.ofNat n)) = true := by decide +kernel
  obtain ⟨n, hn, rfl⟩ := ascii_of_continuesIdentifier h
  exact hall n hn h

theorem not_isDigit_of_startsIdentifier (h : startsIdentifier c = true) : c.isDigit = false := by
  have hall : ∀ n < 128, startsIdentifier (.scalar (Char.ofNat n)) = true →
      CodePoint.isDigit (.scalar (Char.ofNat n)) = false := by decide +kernel
  obtain ⟨n, hn, rfl⟩ := ascii_of_continuesIdentifier (continuesIdentifier_of_starts h)
  exact hall n hn h

theorem not_isDigit_of_isBlank (h : c.isBlank = true) : c.isDigit = false := by
  have hall : ∀ p ∈ blankRanges, ∀ i < p.2 + 1 - p.1,
      (digitValueIn digitZeros (p.1 + i)).isSome = false := by decide +kernel
  obtain ⟨p, hp, hlow, hhigh⟩ := Ranges.exists_of_has h
  have := hall p hp (c.val - p.1) (by omega)
  rwa [Nat.add_sub_cancel' hlow] at this

/-- Only a numeral begins with a digit. -/
theorem number_of_starts {k : Option Kind} (h : Kind.starts k c = true) (hc : c.isDigit = true) :
    k = some .number := by
  cases k with
  | none =>
    rw [not_isDigit_of_isBlank h] at hc
    cases hc
  | some k =>
    cases k with
    | number => rfl
    | keyword k =>
      rw [not_isDigit_of_startsIdentifier (startsIdentifier_of_keyword (of_decide_eq_true h))] at hc
      cases hc
    | identifier =>
      rw [not_isDigit_of_startsIdentifier h] at hc
      cases hc
    | mark m =>
      have hhead : m.spelling.head? = some c := of_decide_eq_true h
      cases m <;> (cases hhead; cases hc)
    | endOfInput => cases h
    | other n => cases h
    | string =>
      obtain rfl | rfl := of_decide_eq_true h
      · cases hc
      · cases hc
    | consoleLog | lineComment | blockComment | regex | template =>
      rw [of_decide_eq_true h] at hc
      cases hc

open Text (Delimited)

variable {w r : Text}

/-! ## Names -/

/-- A word without delimiters that stands at the beginning of a text does not reach beyond one. -/
theorem prefix_of_delimited {s : Text} (hs : ∀ c ∈ s, c ∉ delimiters) (hr : Delimited r)
    (h : s.isPrefixOf (w ++ r) = true) : s <+: w := by
  obtain hle | ⟨v, rfl⟩ := List.prefix_or_prefix_of_prefix (List.isPrefixOf_iff_prefix.mp h)
    (List.prefix_append w r)
  · exact hle
  · cases v with
    | nil => exact (List.append_nil w).symm ▸ List.prefix_rfl
    | cons d v =>
      rw [List.isPrefixOf_iff_prefix, List.prefix_append_right_inj] at h
      cases hr with
      | nil => cases List.prefix_nil.mp h
      | cons hc t =>
        obtain rfl := (List.cons_prefix_cons.mp h).1
        exact absurd hc (hs d (by simp))

theorem run_delimited {p : CodePoint → Bool} (hp : ∀ c ∈ delimiters, p c = false)
    (hw : ∀ c ∈ w, p c = true) (hr : Delimited r) : run p (w ++ r) = w.length := by
  induction w with
  | nil =>
    cases hr with
    | nil => rfl
    | cons hc t => rw [List.nil_append, run_cons, hp _ hc]; rfl
  | cons c w ih =>
    rw [List.forall_mem_cons] at hw
    rw [List.cons_append, run_cons, if_pos hw.1, ih hw.2, List.length_cons]

/-- A name consists of a letter or an underscore and of letters, digits and underscores. -/
theorem continuesIdentifier_of_first? {b : Option Kind}
    (h : first? b w = some (some .identifier, w.length)) :
    ∃ c v, w = c :: v ∧ startsIdentifier c = true ∧ ∀ d ∈ c :: v, continuesIdentifier d = true := by
  obtain ⟨hlen, hpos⟩ := length_of_first? h rfl
  obtain ⟨c, v, rfl⟩ := List.exists_cons_of_ne_nil (List.ne_nil_of_length_pos hpos)
  rw [identifier] at hlen
  split at hlen
  · rename_i hc
    have hlength : (v.takeWhile continuesIdentifier).length = v.length := by
      rw [run, List.length_cons] at hlen
      omega
    have hall := (List.takeWhile_sublist continuesIdentifier).eq_of_length hlength
    refine ⟨c, v, rfl, hc, List.forall_mem_cons.mpr ⟨continuesIdentifier_of_starts hc, ?_⟩⟩
    exact List.all_eq_true.mp (hall ▸ List.all_takeWhile)
  · cases hlen

/-- Where a name has matched as a whole, so does any word that matches before a delimiter. -/
theorem word_of_delimited {s : Text} (hs : ∀ c ∈ s, c ∉ delimiters)
    (hw : ∀ c ∈ w, continuesIdentifier c = true) (hr : Delimited r) (h : word s (w ++ r) ≠ 0) :
    word s w ≠ 0 := by
  rw [word] at h ⊢
  split at h
  · rename_i hmatch
    obtain ⟨v, rfl⟩ := prefix_of_delimited hs hr hmatch.1
    cases v with
    | nil =>
      rw [if_pos]
      · exact h
      · simp [Text.atWordEnd]
    | cons d v =>
      have hend := hmatch.2
      rw [List.append_assoc, List.drop_left, List.cons_append, Text.atWordEnd,
        isWord_of_continuesIdentifier (hw d (by simp))] at hend
      cases hend
  · exact absurd rfl h

/-- **A name ends where a delimiter follows.** -/
theorem first?_name {b : Option Kind} (h : first? b w = some (some .identifier, w.length))
    (hr : Delimited r) (before : Option Kind) :
    first? before (w ++ r) = some (some .identifier, w.length) := by
  obtain ⟨c, w, rfl, hstarts, hletters⟩ := continuesIdentifier_of_first? h
  have hlength : identifier (c :: w ++ r) = (c :: w).length := by
    rw [List.cons_append, identifier, if_pos hstarts,
      run_delimited (by decide) (List.forall_mem_cons.mp hletters).2 hr, List.length_cons,
      Nat.add_comm]
  rw [first?, List.findSome?_eq_some_iff] at h ⊢
  obtain ⟨l₁, rule, l₂, hall, hrule, hbefore⟩ := h
  obtain ⟨-, hpos, hkind, hlen⟩ := attempt_eq_some.mp hrule
  have hmem : rule ∈ all := hall ▸ List.mem_append_right l₁ List.mem_cons_self
  have hidentifier : rule.length = identifier :=
    length_of_matcher? rule hmem (congrArg matcher? hkind)
  have hallowed := allowed_of_ne_regex rule hmem (by simp [hkind])
  refine ⟨l₁, rule, l₂, hall, attempt_eq_some.mpr ⟨hallowed before, hpos, hkind, ?_⟩, fun q hq ↦ ?_⟩
  · rw [hidentifier, hlength]
  -- A rule before it that matches now is one for words, and has matched before.
  have hmemq : q ∈ all := hall ▸ List.mem_append_left _ hq
  have hzero := attempt_eq_none.mp (hbefore q hq)
  rw [attempt_eq_none]
  intro _
  by_contra hmatch
  have hverbal : q.kind.any Kind.isVerbal = true := by
    have hword := isWord_of_continuesIdentifier (continuesIdentifier_of_starts hstarts)
    obtain ⟨-, hdigit⟩ | ⟨hverbal, -⟩ :=
      starts_of_isWord (starts_of_pos q hmemq (Nat.pos_of_ne_zero hmatch)) hword
    · rw [not_isDigit_of_startsIdentifier hstarts] at hdigit
      cases hdigit
    · exact hverbal
  have hrepeats : ∀ q ∈ all, q.kind.any Kind.isVerbal = true → q.length (c :: w ++ r) ≠ 0 →
      q.allowed b = true ∧ q.length (c :: w) ≠ 0 := by
    refine forall_mem_all ?_ ?_ ?_ ?keyword ?console ?_ ?name ?_ ?_ ?_ ?_ ?_
    case keyword =>
      intro k _ hk
      exact ⟨rfl, word_of_delimited (by cases k <;> decide) hletters hr hk⟩
    case console => exact fun _ hk ↦ ⟨rfl, word_of_delimited (by decide) hletters hr hk⟩
    case name =>
      refine fun _ _ ↦ ⟨rfl, fun hnone ↦ ?_⟩
      rw [hidentifier] at hlen
      exact Nat.succ_ne_zero _ (hlen.symm.trans hnone)
    all_goals
      intros
      cases ‹Option.any _ _ = true›
  obtain ⟨hallowed, hne⟩ := hrepeats q hmemq hverbal hmatch
  exact hne (hzero hallowed)

/-! ## Numerals -/

/-- **A numeral ends where a delimiter follows.** -/
theorem first?_numeral {n : Nat} (hw : w.natural? = some n) (hr : Delimited r)
    (before : Option Kind) : first? before (w ++ r) = some (some .number, w.length) := by
  obtain ⟨hne, hdigits⟩ := Text.isDigit_of_natural? hw
  have hpos := List.length_pos_iff.mpr hne
  have hnumber : number (w ++ r) = w.length := by
    have hrest : fraction r = 0 ∧ exponent r = 0 := by
      cases hr with
      | nil => exact ⟨rfl, rfl⟩
      | cons hc t =>
        have hpoint : ∀ c ∈ delimiters, c ≠ '.' ∧ c ≠ 'e' ∧ c ≠ 'E' := by decide
        obtain ⟨hdot, hlower, hupper⟩ := hpoint _ hc
        refine ⟨fraction_of_ne hdot t, ?_⟩
        rw [exponent_cons, if_neg]
        rintro ⟨h | h, -⟩
        · exact hlower h
        · exact hupper h
    simp only [number, run_delimited (by decide) hdigits hr, Nat.ne_of_gt hpos, if_false,
      List.drop_left, hrest.1, Nat.add_zero, hrest.2]
  have hmem : ⟨some .number, number, fun _ ↦ true⟩ ∈ all := by simp [all]
  rw [← hnumber] at hpos ⊢
  refine first?_eq_of_forall hmem rfl hpos fun q hq hmatch ↦ ?_
  obtain ⟨c, w, rfl⟩ := List.exists_cons_of_ne_nil hne
  have hkind := number_of_starts (starts_of_pos q hq hmatch) (hdigits c List.mem_cons_self)
  exact ⟨hkind, congrFun (length_of_matcher? q hq (congrArg matcher? hkind)) _⟩

/-! ## Marks -/

/-- Where only a mark can begin, the first mark of the table that fits is read. -/
theorem first?_of_punctuation {c : CodePoint} {t : Text}
    (hc : ∀ k, Kind.starts k c = true → ∃ m, k = some (.mark m)) (before : Option Kind) :
    first? before (c :: t) = (Mark.all.find? fun m ↦ m.spelling.isPrefixOf (c :: t)).map
      fun m ↦ (some (.mark m), m.spelling.length) := by
  have hother : ∀ rule ∈ all, (∀ m, rule.kind ≠ some (.mark m)) →
      rule.attempt before (c :: t) = none := by
    intro rule hrule hkind
    rw [attempt_eq_none]
    intro _
    by_contra hmatch
    obtain ⟨m, hm⟩ := hc _ (starts_of_pos rule hrule (Nat.pos_of_ne_zero hmatch))
    exact hkind m hm
  have hmark : ∀ m : Mark,
      attempt before (c :: t) ⟨some (.mark m), literal m.spelling, fun _ ↦ true⟩ =
        if m.spelling.isPrefixOf (c :: t) then some (some (.mark m), m.spelling.length)
        else none := by
    intro m
    have hpos : 0 < m.spelling.length := by cases m <;> decide
    cases hprefix : m.spelling.isPrefixOf (c :: t) <;> simp [attempt, literal, hprefix, hpos]
  have hfind : ∀ ms : List Mark,
      (ms.map fun m ↦ Rule.mk (some (.mark m)) (literal m.spelling) fun _ ↦ true).findSome?
        (attempt before (c :: t)) = (ms.find? fun m ↦ m.spelling.isPrefixOf (c :: t)).map
          fun m ↦ (some (.mark m), m.spelling.length) := by
    intro ms
    induction ms with
    | nil => rfl
    | cons m ms ih =>
      rw [List.map_cons, List.findSome?_cons, hmark, List.find?_cons]
      cases m.spelling.isPrefixOf (c :: t) with
      | true => rfl
      | false => exact ih
  rw [first?, all, List.findSome?_append, List.findSome?_eq_none_iff.mpr, Option.none_or, hfind]
  intro rule hrule
  refine hother rule (List.mem_append_left _ hrule) fun m hm ↦ ?_
  simp only [List.mem_append, List.mem_cons, List.not_mem_nil, or_false, List.mem_map] at hrule
  obtain ((rfl | rfl | rfl) | ⟨k, -, rfl⟩) | rfl | rfl | rfl | rfl | rfl | rfl | rfl := hrule <;>
    cases hm

/-- The code points with which a mark of arithmetic begins, the slash apart. -/
def signs : Text := "()[],+-*%<>=!"

theorem mark_of_sign {c : CodePoint} (hc : c ∈ signs) (k : Option Kind)
    (h : Kind.starts k c = true) : ∃ m, k = some (.mark m) := by
  have hverbal : ∀ c ∈ signs, startsIdentifier c = false ∧ c.isBlank = false ∧ c.isDigit = false ∧
      c ∉ ("/c\"'`" : Text) := by decide
  obtain ⟨hletter, hblank, hdigit, hother⟩ := hverbal c hc
  cases k with
  | none =>
    rw [Kind.starts, hblank] at h
    cases h
  | some k =>
    cases k with
    | mark m => exact ⟨m, rfl⟩
    | keyword k =>
      rw [startsIdentifier_of_keyword (of_decide_eq_true h)] at hletter
      cases hletter
    | identifier =>
      rw [Kind.starts, hletter] at h
      cases h
    | number =>
      rw [Kind.starts, hdigit] at h
      cases h
    | endOfInput => cases h
    | other n => cases h
    | string =>
      obtain rfl | rfl := of_decide_eq_true h
      · exact absurd (by decide) hother
      · exact absurd (by decide) hother
    | consoleLog | lineComment | blockComment | regex | template =>
      rw [of_decide_eq_true h] at hother
      exact absurd (by decide) hother

section Marks

variable {m : Mark} (before : Option Kind)

/-- A mark is read where it is the first of the table that fits. -/
theorem first?_mark (hm : ∃ c ∈ signs, m.spelling.head? = some c)
    (hfind : Mark.all.find? (fun m' ↦ m'.spelling.isPrefixOf (m.spelling ++ r)) = some m) :
    first? before (m.spelling ++ r) = some (some (.mark m), m.spelling.length) := by
  obtain ⟨c, hc, hhead⟩ := hm
  obtain ⟨t, ht⟩ := List.head?_eq_some_iff.mp hhead
  have hfirst := first?_of_punctuation (t := t ++ r) (mark_of_sign hc) before
  rwa [← List.cons_append, ← ht, hfind] at hfirst

/-- The marks that are read whatever follows them. -/
def solidMarks : List Mark :=
  [.openParen, .closeParen, .openBracket, .closeBracket, .comma, .increment, .decrement]

theorem first?_solid (hm : m ∈ solidMarks) (r : Text) :
    first? before (m.spelling ++ r) = some (some (.mark m), m.spelling.length) := by
  have hfind : ∀ m ∈ solidMarks,
      Mark.all.find? (fun m' ↦ m'.spelling.isPrefixOf (m.spelling ++ r)) = some m := by
    simp only [solidMarks, List.forall_mem_cons]
    exact ⟨rfl, rfl, rfl, rfl, rfl, rfl, rfl, List.forall_mem_nil _⟩
  have hhead : ∀ m ∈ solidMarks, ∃ c ∈ signs, m.spelling.head? = some c := by decide
  exact first?_mark before (hhead m hm) (hfind m hm)

/-- The marks between two operands of arithmetic. -/
def operatorMarks : List Mark :=
  [.plus, .minus, .star, .percent, .less, .greater, .lessEqual, .greaterEqual, .equal, .notEqual,
   .slash]

/-- An operator before a blank is read as such behind an operand. -/
theorem first?_operator (hm : m ∈ operatorMarks) (hbefore : regexAllowed before = false)
    (r : Text) :
    first? before (m.spelling ++ .scalar ' ' :: r) = some (some (.mark m), m.spelling.length) := by
  by_cases hslash : m = .slash
  · subst hslash
    have hregex : regexAllowed before = regexAllowed (some .identifier) := hbefore
    rw [first?_congr hregex]
    rfl
  · have hfind : ∀ m ∈ operatorMarks, m ≠ .slash →
        Mark.all.find? (fun m' ↦ m'.spelling.isPrefixOf (m.spelling ++ .scalar ' ' :: r)) =
          some m := by
      simp only [operatorMarks, List.forall_mem_cons]
      exact ⟨fun _ ↦ rfl, fun _ ↦ rfl, fun _ ↦ rfl, fun _ ↦ rfl, fun _ ↦ rfl, fun _ ↦ rfl,
        fun _ ↦ rfl, fun _ ↦ rfl, fun _ ↦ rfl, fun _ ↦ rfl, fun h ↦ absurd rfl h,
        List.forall_mem_nil _⟩
    have hhead : ∀ m ∈ operatorMarks, m ≠ .slash → ∃ c ∈ signs, m.spelling.head? = some c := by
      decide
    exact first?_mark before (hhead m hm hslash) (hfind m hm hslash)

/-- A sign is read as such before what is neither another sign nor an equals sign. -/
theorem first?_sign (hm : m = .plus ∨ m = .minus) {c : CodePoint}
    (hc : c ∉ ("+-=" : Text)) (r : Text) :
    first? before (m.spelling ++ c :: r) = some (some (.mark m), m.spelling.length) := by
  have hne : ∀ d ∈ ("+-=" : Text), ¬ (d == c) = true := by
    intro d hd hdc
    exact hc (eq_of_beq hdc ▸ hd)
  have hsecond : ∀ {a d : CodePoint}, List.isPrefixOf [a, d] (a :: c :: r) = true →
      (d == c) = true := by
    intro a d h
    exact (Bool.and_eq_true_iff.mp (Bool.and_eq_true_iff.mp h).2).1
  -- Each other mark that begins with the sign goes on with one of the three.
  have honly : ∀ m', m'.spelling.isPrefixOf (m.spelling ++ c :: r) = true → m' = m := by
    intro m' h
    obtain rfl | rfl := hm
    · cases m' with
      | plus => rfl
      | plusEqual => exact absurd (hsecond h) (hne '=' (by decide))
      | increment => exact absurd (hsecond h) (hne '+' (by decide))
      | _ => cases h
    · cases m' with
      | minus => rfl
      | minusEqual => exact absurd (hsecond h) (hne '=' (by decide))
      | decrement => exact absurd (hsecond h) (hne '-' (by decide))
      | _ => cases h
  refine first?_mark before (by obtain rfl | rfl := hm <;> decide) ?_
  cases hfind : Mark.all.find? (fun m' ↦ m'.spelling.isPrefixOf (m.spelling ++ c :: r)) with
  | none =>
    have hself := List.find?_eq_none.mp hfind m (Mark.mem_all m)
    exact absurd (List.isPrefixOf_iff_prefix.mpr (List.prefix_append _ _)) hself
  | some m' =>
    have hfits : m'.spelling.isPrefixOf (m.spelling ++ c :: r) = true :=
      List.find?_some (p := fun m' : Mark ↦ m'.spelling.isPrefixOf (m.spelling ++ c :: r)) hfind
    rw [honly m' hfits]

end Marks

end Rule

/-- A token whose text is a name on its own, if it is a name at all. -/
def Token.Named (t : Token) : Prop :=
  t.kind = .identifier →
    ∃ w b, t.lexeme = .text w ∧ Rule.first? b w = some (some .identifier, w.length)

/-- Where no numeral follows a name, each name is one on its own. -/
theorem Scans.named {before : Option Kind} {t : Text} {ts : List Token}
    (h : Scans before t (ts.map Token.form)) (hapart : (ts.map Token.form).IsChain Apart) :
    ∀ x ∈ ts, x.Named := by
  generalize hfs : ts.map Token.form = fs at h hapart
  induction h generalizing ts with
  | done =>
    rw [List.map_eq_nil_iff] at hfs
    rw [hfs]
    exact List.forall_mem_nil _
  | blank _ _ ih => exact ih hfs hapart
  | @token before c t k n fs h hrest ih =>
    obtain ⟨x, ts, rfl, hx, rfl⟩ := List.map_eq_cons_iff.mp hfs
    obtain ⟨hkind, hlexeme⟩ := Prod.mk.inj hx
    refine List.forall_mem_cons.mpr ⟨fun hidentifier ↦ ?_, ih rfl hapart.tail⟩
    have hfirst := Rule.first?_take h
    have hname : k = .identifier := hkind.symm.trans hidentifier
    subst hname
    -- A word has ended where the name has, since no numeral comes next.
    have hend : Text.atWordEnd ((c :: t).drop n) = true := by
      refine hrest.atWordEnd (fun d u hd ↦ ?_) fun f hf ↦ ?_
      · rw [hd] at hfirst
        exact Rule.head_of_identifier hfirst rfl
      · exact hapart.rel_head? hf rfl
    have halone := Rule.first?_lineEnd hfirst (fun _ ↦ hend) .nothing
    rw [List.append_nil] at halone
    exact ⟨_, before, hlexeme, halone⟩

end Advplc

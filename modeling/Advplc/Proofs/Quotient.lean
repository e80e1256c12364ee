import Advplc.Proofs.Grammar.Balance
import Advplc.Proofs.Grammar.RoundTrip
import Advplc.Proofs.Joining
import Advplc.Proofs.Token.Continued

/-!
# A slash behind an operand

A slash divides what stands before it, or it begins a regular expression, and the lexer decides
between the two by the kind of the token before.  So if a source is an operand, it should be divided
twice by what ` / b / c` adds to it.

`parseExpr_quotient` says exactly when it is.  The kinds behind which a slash divides do not include
the closing brace of an object, nor the reserved words, which may be the names of members.  Behind
such a token the added slashes are read as the two ends of a regular expression, and so is a slash
that stands behind one within the operand, if it is on the last line.
-/

set_option autoImplicit false

namespace Advplc

namespace Grammar

open Script

variable {templates : Text → List Text → List Expr → Prop}

/-! ## Operands -/

/-- Whether an expression is a name, `this`, a literal, a member, a call or a `new`. -/
def isOperand : Expr → Bool
  | .number _ _ | .string _ _ | .template _ _ _ | .boolean _ _ | .null _ => true
  | .name _ _ | .this _ => true
  | .object _ _ | .array _ _ | .member _ _ _ _ | .index _ _ _ | .call _ _ _ | .new _ _ _ => true
  | _ => false

/-- What writes an operand may stand before a bracket. -/
theorem Written.indexed {e : Expr} {ts : List Token} (he : isOperand e = true) {slot : Slot}
    (h : Written templates (.expr slot e) ts) : Written templates (.expr .indexed e) ts := by
  have hsuffixed : Written templates (.expr .suffixed e) ts →
      Written templates (.expr .indexed e) ts := by
    rintro (_ | _)
    · cases he
    · assumption
  have hbinary : ∀ levels, Written templates (.expr (.binary levels) e) ts →
      Written templates (.expr .indexed e) ts := by
    intro levels
    induction levels with
    | nil =>
      intro h
      cases h with
      | updateBefore | unary => cases he
      | toUnary h => exact hsuffixed h
    | cons ops tighter ih =>
      intro h
      cases h with
      | binary => cases he
      | toBinary _ h => exact ih h
  have hconditional : Written templates (.expr .conditional e) ts →
      Written templates (.expr .indexed e) ts := by
    intro h
    cases h with
    | conditional => cases he
    | toConditional h => exact hbinary _ h
  cases slot with
  | assignment =>
    cases h with
    | assign => cases he
    | toAssignment h => exact hconditional h
  | conditional => exact hconditional h
  | binary levels => exact hbinary levels h
  | suffixed => exact hsuffixed h
  | indexed => exact h
  | chained => exact .toIndexed h
  | primary => exact .toIndexed (.toChained h)

/-- The expression `e / b / c`. -/
def dividedTwice (e : Expr) : Expr :=
  .binary none "/" (.binary none "/" e (.name none "b")) (.name none "c")

/-- The tokens of `quotient` behind what writes an operand divide it twice. -/
theorem Written.dividedTwice {e : Expr} {ts us : List Token}
    (h : Written templates (.expr .indexed e) ts) (hus : us.map Token.form = quotientForms) :
    Written templates (.expr .assignment (dividedTwice e)) (ts ++ us) := by
  have hlevel : [[.mark .star, .mark .slash, .mark .percent]] <:+ binaryLevels := by decide
  have hname : ∀ {t : Token} {w : Text}, t.form = (.identifier, .text w) →
      (.text w) ∉ (["true", "false", "null", "undefined"] : List Lexeme) →
      Written templates (.expr (.binary []) (.name none w)) [t] := by
    intro t w ht hw
    obtain ⟨hkind, hlexeme⟩ := Prod.mk.inj ht
    have hname : Written templates _ _ := .name none t hkind (hlexeme ▸ hw)
    exact hlexeme ▸ hname.ofPrimary
  have hslash : ∀ {t : Token} {l r : Expr} {vs ws : List Token},
      t.form = (.mark .slash, .text "/") →
      Written templates (.expr (.binary [[.mark .star, .mark .slash, .mark .percent]]) l) vs →
      Written templates (.expr (.binary []) r) ws →
      Written templates (.expr (.binary [[.mark .star, .mark .slash, .mark .percent]])
        (.binary none "/" l r)) (vs ++ t :: ws) := by
    intro t l r vs ws ht hl hr
    obtain ⟨hkind, hlexeme⟩ := Prod.mk.inj ht
    have hdivision := Written.binary none t hlevel (by rw [hkind]; decide) hl hr
    exact hlexeme ▸ hdivision
  obtain ⟨s, us, rfl, hs, hus⟩ := List.map_eq_cons_iff.mp hus
  obtain ⟨b, us, rfl, hb, hus⟩ := List.map_eq_cons_iff.mp hus
  obtain ⟨s', us, rfl, hs', hus⟩ := List.map_eq_cons_iff.mp hus
  obtain ⟨c, us, rfl, hc, hus⟩ := List.map_eq_cons_iff.mp hus
  obtain rfl := List.map_eq_nil_iff.mp hus
  have hfirst := hslash hs (.toBinary hlevel (.toUnary (.toSuffixed h))) (hname hb (by decide))
  have hsecond := hslash hs' hfirst (hname hc (by decide))
  rw [List.append_assoc] at hsecond
  exact .ofBinary (.loosen hlevel hsecond)

/-! ## Sources of operands -/

section Sources

variable {source : Text} {start : Pos} {ts : List Token} {e : Expr}

theorem scan_of_tokenize (htokens : tokenize source start = .ok ts) :
    let s := Scan.ofText none start source.joinLineEnds
    s.error? = none ∧ s.tokens = ts := by
  intro s
  rw [tokenize, scan] at htokens
  cases herror : s.error? with
  | none => exact ⟨rfl, Except.ok.inj (by simpa only [s, herror] using htokens)⟩
  | some e => simp only [s] at herror; rw [herror] at htokens; cases htokens

/-- The source of an expression, as the lexer reads it: nothing in it is a comment or a regular
expression, and no star stands behind a slash. -/
theorem scan_of_parseExpr (htokens : tokenize source start = .ok ts)
    (h : parseExpr source start = .ok e) :
    Written (filledTemplates (holeAt source.length)) (.expr .assignment e) ts ∧
      (∀ t ∈ ts, t.kind.isFree = false) ∧ (ts.map Token.form).IsChain Unopened := by
  obtain ⟨fs, hscans, horderly⟩ := exists_orderly_of_parseExpr h
  obtain ⟨ts', rest, htokens', hexpr, hend⟩ := holeAt_eq_ok.mp h
  obtain rfl : ts = ts' := Except.ok.inj (htokens.symm.trans htokens')
  obtain ⟨used, rfl, hwritten⟩ := yields_expr (readsOnly_filled _) hexpr
  obtain rfl := eq_nil_of_tokenize htokens hend
  rw [List.append_nil] at htokens ⊢
  refine ⟨hwritten, ?_, ?_⟩
  · have hforms := (hscans.ofText start).2
    rw [(scan_of_tokenize htokens).2] at hforms
    intro t ht
    refine horderly.bound t.kind ?_
    rw [← hforms, List.map_map]
    exact List.mem_map_of_mem ht
  · exact isChain_unopened (hwritten.divided (fills_filled (.ok start) (steady_holeAt _))
      (genuine_of_tokenize htokens).marksSpelled)

/-- **When a slash behind an operand divides it.**  Behind the source of an operand, ` / b / c` is
read as two divisions if every slash on the last line of the whole, the first added one included,
stands behind a token that may end an operand.  Otherwise the whole is not an expression. -/
theorem parseExpr_quotient (htokens : tokenize source start = .ok ts)
    (h : parseExpr source start = .ok e) (he : isOperand e = true) :
    let slash : Token := ⟨.mark .slash, "/", start.behind (source.joinLineEnds ++ " ")⟩
    let divides := SlashesFollow slash.pos.line none (ts ++ [slash])
    (divides → ∃ e', parseExpr (source ++ quotient) start = .ok e' ∧
      (dividedTwice e).same e' = true) ∧
    ((∃ e', parseExpr (source ++ quotient) start = .ok e') → divides) := by
  intro slash divides
  obtain ⟨herror, htokens'⟩ := scan_of_tokenize htokens
  obtain ⟨hwritten, hfree, hstars⟩ := scan_of_parseExpr htokens h
  have hjoined : (source ++ quotient).joinLineEnds = source.joinLineEnds ++ quotient :=
    joinLineEnds_append source (by decide)
  have hline : slash.pos.line = (start.advance source.joinLineEnds).line := by
    show (start.behind (source.joinLineEnds ++ " ")).line = _
    rw [← Pos.advance_eq_behind, Pos.advance_append]
    rfl
  rw [← htokens'] at hfree hstars
  constructor
  · intro hdivides
    rw [show divides = SlashesFollow slash.pos.line none (ts ++ [slash]) from rfl, hline,
      ← htokens'] at hdivides
    have hslash : slash.kind = .mark .slash := rfl
    have hscans := Scan.continued hslash hline herror hfree hdivides
    rw [← hjoined, htokens'] at hscans
    obtain ⟨us, hus, hforms⟩ := (tokenize_eq_ok_iff start).mp hscans
    obtain ⟨us₁, us₂, rfl, hus₁, hus₂⟩ := List.map_eq_append_iff.mp hforms
    have hwhole := ((hwritten.recast hus₁).indexed he).dividedTwice hus₂
    have hnative : (dividedTwice e).native = true := hwhole.native fun _ _ _ ⟨_, hfilled⟩ ↦
      hfilled.native fun _ _ _ hhole ↦ native_holeAt _ hhole
    -- Within the longer source templates may nest deeper.
    have hlonger : source.length ≤ (source ++ quotient).length := by simp
    obtain ⟨-, e', hbare, htakes⟩ :=
      hwhole.taken (fills_filled (endPosition (us₁ ++ us₂) start) (extends_holeAt hlonger))
    have hexpr := htakes [] (by decide)
    rw [List.append_nil] at hexpr
    refine ⟨e', holeAt_eq_ok.mpr ⟨_, [], hus, hexpr, rfl⟩, ?_⟩
    exact (Expr.same_iff _ e' hnative).mpr hbare.symm
  · rintro ⟨e', he'⟩
    obtain ⟨gs, hgs, horderly⟩ := exists_orderly_of_parseExpr he'
    rw [hjoined] at hgs
    show SlashesFollow slash.pos.line none (ts ++ [slash])
    rw [hline, ← htokens']
    refine slashesFollow_of_scans hline herror hfree hstars hgs fun g hg hregex ↦ ?_
    have hbound := horderly.bound g.1 (List.mem_map_of_mem hg)
    rw [hregex] at hbound
    cases hbound

/-- The source `[{} / 2,` on one line and `x]` on the next.  The slash in it may begin a regular
expression, but its line ends first. -/
theorem parseExpr_quotient_sample :
    let source : Text := "[\x7b\x7d / 2,\nx]"
    ∃ e, parseExpr source Pos.origin = .ok e ∧ isOperand e = true ∧
      ∃ e', parseExpr (source ++ quotient) Pos.origin = .ok e' ∧
        (dividedTwice e).same e' = true := by
  intro source
  let ts : List Token :=
    [⟨.mark .openBracket, "[", ⟨1, 1⟩⟩, ⟨.mark .openBrace, "\x7b", ⟨1, 2⟩⟩,
     ⟨.mark .closeBrace, "\x7d", ⟨1, 3⟩⟩, ⟨.mark .slash, "/", ⟨1, 5⟩⟩, ⟨.number, "2", ⟨1, 7⟩⟩,
     ⟨.mark .comma, ",", ⟨1, 8⟩⟩, ⟨.identifier, "x", ⟨2, 1⟩⟩, ⟨.mark .closeBracket, "]", ⟨2, 2⟩⟩]
  have hts : tokenize source Pos.origin = .ok ts := tokenize_of_toOption (by decide +kernel)
  have hparse : parseExpr source Pos.origin = .ok _ := holeAt_eq_ok.mpr ⟨ts, [], hts, rfl, rfl⟩
  exact ⟨_, hparse, rfl, (parseExpr_quotient hts hparse rfl).1 (by decide +kernel)⟩

/-- **A slash behind an object does not divide it**: in `{} / b / c` the slashes are the two ends of
a regular expression, and so the source of the object is not that of an expression any more. -/
theorem slash_behind_object :
    ∃ e us, parseExpr "\x7b\x7d" Pos.origin = .ok e ∧ isOperand e = true ∧
      tokenize ("\x7b\x7d" ++ quotient) Pos.origin = .ok us ∧
      us.map Token.kind = [.mark .openBrace, .mark .closeBrace, .regex, .identifier] ∧
      ∀ e', parseExpr ("\x7b\x7d" ++ quotient) Pos.origin ≠ .ok e' := by
  let ts : List Token :=
    [⟨.mark .openBrace, "\x7b", ⟨1, 1⟩⟩, ⟨.mark .closeBrace, "\x7d", ⟨1, 2⟩⟩]
  let us : List Token := ts ++ [⟨.regex, "/ b /", ⟨1, 4⟩⟩, ⟨.identifier, "c", ⟨1, 10⟩⟩]
  have hts : tokenize "\x7b\x7d" Pos.origin = .ok ts := tokenize_of_toOption (by decide +kernel)
  have hus : tokenize ("\x7b\x7d" ++ quotient) Pos.origin = .ok us :=
    tokenize_of_toOption (by decide +kernel)
  have hparse : parseExpr "\x7b\x7d" Pos.origin = .ok _ := holeAt_eq_ok.mpr ⟨ts, [], hts, rfl, rfl⟩
  refine ⟨_, us, hparse, rfl, hus, rfl, fun e' he' ↦ ?_⟩
  obtain ⟨us', rest, hus', hexpr, hend⟩ := holeAt_eq_ok.mp he'
  obtain rfl : us = us' := Except.ok.inj (hus.symm.trans hus')
  have hobject : ∀ env, expr env us = .ok (.object (some ⟨1, 1⟩) []) (us.drop 2) := fun _ ↦ rfl
  rw [hobject] at hexpr
  cases hexpr
  cases hend

end Sources

end Grammar

end Advplc

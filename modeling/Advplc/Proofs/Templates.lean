import Advplc.Proofs.Grammar.Interpolation
import Advplc.Proofs.Strings

/-!
# Templates

A template is chunks with expressions between them, and nothing else is one
(`template_iff_interpolation`).  If the lexer has found a template, it is parsed exactly in the ways
in which its inside can be written as chunks and holes; and what is written so, from chunks that
backticks can enclose and from sources of expressions without backticks, is found by the lexer as
one template and parsed to the chunks and the expressions.

The sources have no backticks because the lexer ends a template at the first one that is not hidden,
also inside a hole.
-/

set_option autoImplicit false

namespace Advplc.Grammar

open Script Parse

open Text (Paired Enclosed)

/-- The expressions that sources stand for. -/
abbrev ParsedAll (sources : List Text) (es : List Expr) : Prop :=
  List.Forall₂ (fun source e ↦ parseExpr source Pos.origin = .ok e) sources es

/-- An interpolation stands for the template with these chunks, once their escapes are replaced, and
with the expressions of its sources. -/
def Interpolation.StandsFor (x : Interpolation) (quasis : List Text) (es : List Expr) : Prop :=
  quasis = x.chunks.map Text.unescape ∧
    ∃ hs, ParsedAll x.sources hs ∧ Expr.sameAll hs es = true

/-- The token `t`, with `rest` behind it, is parsed to the template with these chunks and
expressions. -/
def ReadsTemplate (env : Context) (t : Token) (rest : List Token) (quasis : List Text)
    (es : List Expr) : Prop :=
  ∃ e, closed primary env (t :: rest) = .ok e rest ∧ e.same (.template none quasis es) = true

section Holes

variable {sources : List Text} {es : List Expr}

theorem ParsedAnywhere.native (h : ParsedAnywhere sources es) : Expr.nativeAll es = true := by
  induction h with
  | nil => rfl
  | cons he _ ih =>
    obtain ⟨p, he⟩ := he
    rw [Expr.nativeAll, native_holeAt _ he, ih]
    rfl

/-- Sources stand for the same expressions at the beginning of a text as anywhere else. -/
theorem ParsedAnywhere.exists_parsedAll (h : ParsedAnywhere sources es) :
    ∃ es', ParsedAll sources es' ∧ Expr.bareAll es' = Expr.bareAll es := by
  induction h with
  | nil => exact ⟨[], .nil, rfl⟩
  | cons he _ ih =>
    obtain ⟨p, he⟩ := he
    obtain ⟨e', he', hbare⟩ := steady_readHole he Pos.origin
    obtain ⟨es', hes', hbares⟩ := ih
    exact ⟨e' :: es', .cons he' hes', by rw [Expr.bareAll, Expr.bareAll, hbare, hbares]⟩

theorem ParsedAll.anywhere (h : ParsedAll sources es) : ParsedAnywhere sources es :=
  h.imp fun _ _ he ↦ ⟨_, he⟩

theorem ParsedAll.exists_of_mem (h : ParsedAll sources es) :
    ∀ s ∈ sources, ∃ e, parseExpr s Pos.origin = .ok e := by
  induction h with
  | nil => exact List.forall_mem_nil _
  | cons he _ ih => exact List.forall_mem_cons.mpr ⟨⟨_, he⟩, ih⟩

end Holes

/-! ## Reading templates -/

section Reading

variable {t : Token} {b : Text} {quasis : List Text} {es : List Expr}

theorem closed_primary_template (ht : t.kind = .template) (env : Context) (rest : List Token) :
    closed primary env (t :: rest) = templateLiteral t env rest := by
  rw [closed, withSize, primary, bind_of_ok (peek_apply env _), nextKind_cons, ht]
  exact bind_of_ok (next_cons t env rest) templateLiteral

/-- A template between backticks is parsed exactly to the ways to write it as chunks and holes. -/
theorem readsTemplate_iff (ht : t.kind = .template) (hlexeme : t.lexeme = .text (literalText '`' b))
    (hb : Enclosed '`' b) (hreturn : .scalar '\r' ∉ b) (stream : List Token) (q : Pos)
    (rest : List Token) :
    ReadsTemplate (Context.of stream q) t rest quasis es ↔
      ∃ x : Interpolation, b = x.inside ∧ (∀ c ∈ x.chunks, Paired c ∧ ¬ c.OpensHole) ∧
        x.StandsFor quasis es := by
  simp only [ReadsTemplate, closed_primary_template ht, templateLiteral_eq_ok, and_true]
  constructor
  · rintro ⟨_, ⟨w, cs, hs, hw, hfilled, rfl⟩, hsame⟩
    cases hlexeme.symm.trans hw
    rw [trimEnds_literalText] at hfilled
    obtain ⟨x, rfl, hchunks, rfl, hsources⟩ := hfilled.exists_interpolation hb hreturn
    obtain ⟨hs', hparsed, hbare⟩ := ParsedAnywhere.exists_parsedAll hsources
    rw [Expr.same, Bool.and_eq_true, decide_eq_true_eq,
      Expr.sameAll_iff _ _ (ParsedAnywhere.native hsources)] at hsame
    refine ⟨x, rfl, hchunks, hsame.1.symm, hs', hparsed, ?_⟩
    rw [Expr.sameAll_iff _ _ (ParsedAnywhere.native hparsed.anywhere), hbare, hsame.2]
  · rintro ⟨x, rfl, hchunks, rfl, hs, hparsed, hsame⟩
    obtain ⟨hs', hfilled, hbare⟩ :=
      x.exists_filled hb hreturn hchunks hparsed.anywhere ⟨t.pos.line, t.pos.column + 1⟩
    have hnative : Expr.nativeAll hs' = true := hfilled.native fun _ _ _ he ↦ native_holeAt _ he
    rw [Expr.sameAll_iff _ _ (ParsedAnywhere.native hparsed.anywhere)] at hsame
    refine ⟨.template (some t.pos) (x.chunks.map Text.unescape) hs',
      ⟨_, _, hs', hlexeme, ?_, rfl⟩, ?_⟩
    · rwa [trimEnds_literalText]
    · rw [Expr.same, Bool.and_eq_true, decide_eq_true_eq, Expr.sameAll_iff _ _ hnative]
      exact ⟨rfl, hbare.trans hsame⟩

end Reading

/-! ## Writing templates -/

section Writing

variable {b : Text}

/-- A text that one rule matches as a whole is one token. -/
theorem tokenize_of_first? {w : Text} {k : Kind} (h : Rule.first? none w = some (some k, w.length))
    (hreturn : .scalar '\r' ∉ w) (p : Pos) : tokenize w p = .ok [⟨k, .text w, p⟩] := by
  have hscan : Scan.ofText none p w =
      Scan.precededBy (some ⟨k, .text w, p⟩) w.length (Scan.idle (p.advance w) none) := by
    cases w with
    | nil => exact absurd (Rule.pos_of_first? h) (Nat.lt_irrefl 0)
    | cons c w =>
      rw [Scan.ofText_of_first? p h, List.take_length, List.drop_length, Scan.ofText]
      rfl
  simp only [tokenize, scan, joinLineEnds_of_not_mem hreturn, hscan]
  rfl

/-- What backticks can enclose is scanned between backticks as one template. -/
theorem tokenize_template (hb : Enclosed '`' b) (hreturn : .scalar '\r' ∉ b) (p : Pos) :
    tokenize (literalText '`' b) p = .ok [⟨.template, .text (literalText '`' b), p⟩] := by
  refine tokenize_of_first? ?_ (by simpa [literalText] using hreturn) p
  have hlength : (literalText '`' b).length = b.length + 2 := by simp [literalText]
  rw [hlength]
  exact Rule.first?_template hb none []

theorem Interpolation.enclosed {x : Interpolation} (hchunks : ∀ c ∈ x.chunks, Enclosed '`' c)
    (hsources : ∀ s ∈ x.sources, Enclosed '`' s) : Enclosed '`' x.inside :=
  x.forall_inside (fun _ _ ↦ .append) (by decide) (by decide) hchunks hsources

theorem Interpolation.not_mem_inside {x : Interpolation}
    (hchunks : ∀ c ∈ x.chunks, .scalar '\r' ∉ c) (hsources : ∀ s ∈ x.sources, .scalar '\r' ∉ s) :
    .scalar '\r' ∉ x.inside :=
  x.forall_inside (Q := fun t ↦ .scalar '\r' ∉ t) (fun _ _ hs ht ↦ by simp [hs, ht]) (by decide)
    (by decide) hchunks hsources

end Writing

/-- **Templates are chunks and holes.**  A template of the lexer is parsed exactly in the ways in
which its inside can be written as chunks, in which no hole opens and every backslash has a partner,
with sources of expressions in holes between them.  And whatever is written so, the chunks such that
backticks can enclose them and the sources without backticks, is one template for the lexer and is
parsed to the chunks and the expressions. -/
theorem template_iff_interpolation :
    (∀ (source : Text) (p : Pos), .scalar '\r' ∉ source →
      ∀ t ∈ (scan source p).tokens, t.kind = .template →
        ∃ b, t.lexeme = .text (literalText '`' b) ∧
          ∀ (stream : List Token) (q : Pos) (rest : List Token) (quasis : List Text)
              (es : List Expr), ReadsTemplate (Context.of stream q) t rest quasis es ↔
            ∃ x : Interpolation, b = x.inside ∧ (∀ c ∈ x.chunks, Paired c ∧ ¬ c.OpensHole) ∧
              x.StandsFor quasis es) ∧
    ∀ (x : Interpolation) (quasis : List Text) (es : List Expr),
      (∀ c ∈ x.chunks, .scalar '\r' ∉ c ∧ Enclosed '`' c ∧ ¬ c.OpensHole) →
      (∀ s ∈ x.sources, .scalar '`' ∉ s ∧ .scalar '\r' ∉ s) → x.StandsFor quasis es →
        ∀ p : Pos, let t : Token := ⟨.template, .text (literalText '`' x.inside), p⟩
          tokenize (literalText '`' x.inside) p = .ok [t] ∧
          ∀ (stream : List Token) (q : Pos) (rest : List Token),
            ReadsTemplate (Context.of stream q) t rest quasis es := by
  constructor
  · intro source p hreturn t ht hkind
    obtain ⟨b, hlexeme, hb, hsubset⟩ := exists_enclosed_of_mem_scan ht hkind
    rw [joinLineEnds_of_not_mem hreturn] at hsubset
    refine ⟨b, hlexeme, fun stream q rest quasis es ↦ ?_⟩
    exact readsTemplate_iff hkind hlexeme hb (fun h ↦ hreturn (hsubset _ h)) stream q rest
  · intro x quasis es hchunks hsources hx p t
    obtain ⟨hs, hparsed, -⟩ := hx.2
    have henclosed : ∀ s ∈ x.sources, Enclosed '`' s := by
      intro s hs
      obtain ⟨hbacktick, hreturn⟩ := hsources s hs
      obtain ⟨e, he⟩ := hparsed.exists_of_mem s hs
      exact ⟨escaped_of_parseExpr he hreturn, fun h ↦ hbacktick (Text.mem_of_mem_units h)⟩
    have hinside := Interpolation.enclosed (fun c hc ↦ (hchunks c hc).2.1) henclosed
    have hreturn := Interpolation.not_mem_inside (fun c hc ↦ (hchunks c hc).1)
      fun s hs ↦ (hsources s hs).2
    refine ⟨tokenize_template hinside hreturn p, fun stream q rest ↦ ?_⟩
    refine (readsTemplate_iff rfl rfl hinside hreturn stream q rest).mpr ⟨x, rfl, ?_, hx⟩
    exact fun c hc ↦ ⟨(hchunks c hc).2.1.paired, (hchunks c hc).2.2⟩

/-- The template `` `$${{a:'}'}}\`x` ``: a dollar sign before the hole, an object with a brace in a
string in it, and a hidden backtick behind it. -/
theorem template_iff_interpolation_sample :
    let x : Interpolation := ⟨"$", [("\x7ba:'\x7d'\x7d", "\\`x")]⟩
    let text := literalText '`' x.inside
    let t : Token := ⟨.template, .text text, Pos.origin⟩
    let es : List Expr := [.object none [("a", .string none "\x7d")]]
    x.StandsFor ["$", "`x"] es ∧ t ∈ (scan text Pos.origin).tokens ∧
      tokenize text Pos.origin = .ok [t] ∧
      ReadsTemplate (Context.of [t] Pos.origin) t [] ["$", "`x"] es ∧
      ∃ b, t.lexeme = .text (literalText '`' b) ∧ ∃ y : Interpolation, b = y.inside ∧
        (∀ c ∈ y.chunks, Paired c ∧ ¬ c.OpensHole) ∧ y.StandsFor ["$", "`x"] es := by
  intro x text t es
  let ts : List Token :=
    [⟨.mark .openBrace, "\x7b", ⟨1, 1⟩⟩, ⟨.identifier, "a", ⟨1, 2⟩⟩, ⟨.mark .colon, ":", ⟨1, 3⟩⟩,
     ⟨.string, "'\x7d'", ⟨1, 4⟩⟩, ⟨.mark .closeBrace, "\x7d", ⟨1, 7⟩⟩]
  have hts : tokenize "\x7ba:'\x7d'\x7d" Pos.origin = .ok ts :=
    tokenize_of_toOption (by decide +kernel)
  have hparse : parseExpr "\x7ba:'\x7d'\x7d" Pos.origin = .ok _ :=
    holeAt_eq_ok.mpr ⟨ts, [], hts, rfl, rfl⟩
  have hx : x.StandsFor ["$", "`x"] es := ⟨by decide, _, .cons hparse .nil, by decide⟩
  obtain ⟨htokens, hreads⟩ :=
    template_iff_interpolation.2 x _ _ (by decide) (by decide) hx Pos.origin
  have hmem : t ∈ (scan text Pos.origin).tokens := by decide +kernel
  obtain ⟨b, hb, hiff⟩ := template_iff_interpolation.1 text Pos.origin (by decide) t hmem rfl
  have hread := hreads [t] Pos.origin []
  exact ⟨hx, hmem, htokens, hread, b, hb, (hiff _ _ _ _ _).mp hread⟩

end Advplc.Grammar

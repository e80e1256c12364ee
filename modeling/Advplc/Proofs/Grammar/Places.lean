import Advplc.Proofs.Grammar.Apart
import Advplc.Proofs.Grammar.Soundness.Statement

/-!
# Where a program stands is not read

The positions of tokens go into the tree and into faults, and nowhere else: token lists of the same
forms are parsed to trees that are equal once their positions are removed (`parse_recast`).

For what is written with tokens alone this is `WrittenStmt.recast`.  The holes of templates are
scanned and parsed from the positions at which they stand, so for them it has to be shown that
reading is steady (`steady_holeAt`), by induction on how deep templates nest: the source of a hole
has tokens of the same forms wherever it is scanned.
-/

set_option autoImplicit false

namespace Advplc.Grammar

open Script Parse

/-! ## Holes that are read the same everywhere -/

/-- Whether the holes that `read` reads are read by `read'` to the same expressions, at all
positions. -/
def Extends (read' read : Text → Pos → Except Fault Expr) : Prop :=
  ∀ ⦃source : Text⦄ ⦃p : Pos⦄ ⦃e : Expr⦄, read source p = .ok e →
    ∀ p' : Pos, ∃ e', read' source p' = .ok e' ∧ e'.bare = e.bare

/-- Whether holes are read to the same expressions at all positions. -/
def Steady (read : Text → Pos → Except Fault Expr) : Prop := Extends read read

/-- The sources of the holes of a template, with the positions at which they begin. -/
def Outline.holes : Outline → List (Text × Pos)
  | .hole _ source pos rest => (source, pos) :: rest.holes
  | .last _ | .unclosed _ => []

/-- The sources of the holes of a token, which has none unless it is a template. -/
def Token.holes (t : Token) : List (Text × Pos) :=
  match t.kind, t.lexeme with
  | .template, .text w =>
    (Outline.of ⟨t.pos.line, t.pos.column + 1⟩ (Text.trimEnds 1 w)).holes
  | _, _ => []

/-- The chunks of an outline and the expressions in its holes, which `read` reads. -/
inductive Filled (read : Text → Pos → Except Fault Expr) :
    Outline → List Text → List Expr → Prop where
  | last (chunk : Text) : Filled read (.last chunk) [chunk.unescape] []
  | hole (chunk : Text) {source : Text} {p : Pos} {rest : Outline} {e : Expr} {cs : List Text}
      {hs : List Expr} (he : read source p = .ok e) (h : Filled read rest cs hs) :
      Filled read (.hole chunk source p rest) (chunk.unescape :: cs) (e :: hs)

/-- The templates that are read by `read` at some position. -/
def filledTemplates (read : Text → Pos → Except Fault Expr) (w : Text) (cs : List Text)
    (hs : List Expr) : Prop :=
  ∃ p, Filled read (Outline.of p (Text.trimEnds 1 w)) cs hs

section Filling

variable {read read' : Text → Pos → Except Fault Expr} {env : Context} {cs : List Text}
  {hs : List Expr}

theorem hole_eq_ok {source : Text} {p : Pos} {e : Expr} {ts rest : List Token} :
    hole source p env ts = .ok e rest ↔ env.hole source p = .ok e ∧ ts = rest := by
  rw [hole]
  cases env.hole source p with
  | ok e' =>
    constructor
    · intro h
      cases h
      exact ⟨rfl, rfl⟩
    · rintro ⟨h, rfl⟩
      cases h
      rfl
  | error f => simp

theorem fillOutline_eq_ok {t : Token} {o : Outline} {ts rest : List Token} :
    fillOutline t o env ts = .ok (cs, hs) rest ↔ Filled env.hole o cs hs ∧ ts = rest := by
  induction o generalizing cs hs ts rest with
  | last chunk =>
    simp only [fillOutline, pure_eq_ok, Prod.mk.injEq]
    constructor
    · rintro ⟨⟨rfl, rfl⟩, rfl⟩
      exact ⟨.last chunk, rfl⟩
    · rintro ⟨h, rfl⟩
      cases h
      exact ⟨⟨rfl, rfl⟩, rfl⟩
  | hole chunk source p o ih =>
    simp only [fillOutline, bind_eq_ok, hole_eq_ok, pure_eq_ok, Prod.mk.injEq, Prod.exists, ih]
    constructor
    · rintro ⟨e, _, ⟨he, rfl⟩, cs', hs', _, ⟨h, rfl⟩, ⟨rfl, rfl⟩, rfl⟩
      exact ⟨.hole chunk he h, rfl⟩
    · rintro ⟨h, rfl⟩
      cases h with
      | hole _ he h => exact ⟨_, _, ⟨he, rfl⟩, _, _, _, ⟨h, rfl⟩, ⟨rfl, rfl⟩, rfl⟩
  | unclosed chunk =>
    constructor
    · exact fun h ↦ absurd h throw_ne_ok
    · rintro ⟨h, -⟩
      cases h

theorem templateLiteral_eq_ok {t : Token} {ts rest : List Token} {e : Expr} :
    templateLiteral t env ts = .ok e rest ↔ ∃ w cs hs, t.lexeme = .text w ∧
      Filled env.hole (Outline.of ⟨t.pos.line, t.pos.column + 1⟩ (Text.trimEnds 1 w)) cs hs ∧
      e = .template (some t.pos) cs hs ∧ ts = rest := by
  simp only [templateLiteral, bind_eq_ok, textFor_eq_ok, pure_eq_ok, Prod.exists, fillOutline_eq_ok]
  constructor
  · rintro ⟨w, _, ⟨hw, rfl⟩, cs, hs, _, ⟨h, rfl⟩, rfl, rfl⟩
    exact ⟨w, cs, hs, hw, h, rfl, rfl⟩
  · rintro ⟨w, cs, hs, hw, h, rfl, rfl⟩
    exact ⟨w, ts, ⟨hw, rfl⟩, cs, hs, ts, ⟨h, rfl⟩, rfl, rfl⟩

theorem readsOnly_filled (env : Context) : env.ReadsOnly (filledTemplates env.hole) := by
  intro t ts rest e h
  obtain ⟨w, cs, hs, hw, hfilled, rfl, rfl⟩ := templateLiteral_eq_ok.mp h
  exact ⟨rfl, w, _, cs, hs, hw, rfl, _, hfilled⟩

theorem Outline.of_last {t : Text} (h : (Outline.chunk t).2 = none) (p : Pos) :
    Outline.of p t = .last (Outline.chunk t).1 := by
  rw [Outline.of]
  split
  · rfl
  · rename_i h'
    rw [h] at h'
    cases h'

theorem Outline.of_hole {t behind text rest : Text} (h : (Outline.chunk t).2 = some behind)
    (hsource : Outline.source 0 none behind = some (text, rest)) (p : Pos) :
    ∃ start stop, Outline.of p t = .hole (Outline.chunk t).1 text start (Outline.of stop rest) := by
  rw [Outline.of]
  split
  · rename_i h'
    rw [h] at h'
    cases h'
  · rename_i h'
    rw [h] at h'
    cases h'
    simp only
    split
    · rename_i h'
      rw [hsource] at h'
      cases h'
    · rename_i h'
      rw [hsource] at h'
      cases h'
      exact ⟨_, _, rfl⟩

/-- A template has the same chunks and holes wherever it stands. -/
theorem Filled.elsewhere (hread : Extends read' read) {w : Text} {p : Pos}
    (h : Filled read (Outline.of p w) cs hs) (p' : Pos) :
    ∃ hs', Filled read' (Outline.of p' w) cs hs' ∧ Expr.bareAll hs' = Expr.bareAll hs := by
  fun_induction Outline.of p w generalizing cs hs p' with
  | case1 p t hchunk =>
    rw [Outline.of_last hchunk p']
    cases h with
    | last => exact ⟨[], .last _, rfl⟩
  | case2 => cases h
  | case3 p t behind hchunk start text rest hsource =>
    rename_i ih
    obtain ⟨start', stop', hof⟩ := Outline.of_hole hchunk hsource p'
    rw [hof]
    cases h with
    | hole _ he h =>
      obtain ⟨e', he', hbare⟩ := hread he start'
      obtain ⟨hs', hfilled, hbares⟩ := ih h stop'
      exact ⟨e' :: hs', .hole _ he' hfilled, by rw [Expr.bareAll, Expr.bareAll, hbare, hbares]⟩

theorem fills_filled (finish : Except Unusable Pos) (hread : Extends read' read) :
    Context.Fills (filledTemplates read) ⟨finish, read'⟩ := by
  rintro w cs hs ⟨p, h⟩ t hw
  obtain ⟨hs', hfilled, hbare⟩ := h.elsewhere hread ⟨t.pos.line, t.pos.column + 1⟩
  refine ⟨.template (some t.pos) cs hs', ?_, fun rest ↦ ?_⟩
  · rw [Expr.bare, Expr.bare, hbare]
  · exact templateLiteral_eq_ok.mpr ⟨w, cs, hs', hw, hfilled, rfl, rfl⟩

end Filling

/-! ## Tokens of a source -/

section Sources

variable {source : Text}

/-- The tokens of a source have the same forms wherever it is scanned. -/
theorem tokenize_elsewhere {p : Pos} {ts : List Token} (h : tokenize source p = .ok ts) (p' : Pos) :
    ∃ us, tokenize source p' = .ok us ∧ Recast us ts :=
  (tokenize_eq_ok_iff p').mp ((tokenize_eq_ok_iff p).mpr ⟨ts, h, rfl⟩)

/-- The lexer does not mark the end of a source by a token. -/
theorem eq_nil_of_tokenize {p : Pos} {used rest : List Token}
    (h : tokenize source p = .ok (used ++ rest)) (hend : nextKind rest = .endOfInput) :
    rest = [] := by
  have hscans := (tokenize_eq_ok_iff p).mpr ⟨_, h, rfl⟩
  cases rest with
  | nil => rfl
  | cons t rest =>
    have ht : t.form ∈ (used ++ t :: rest).map Token.form := by simp
    exact absurd hend (hscans.kind_ne_endOfInput _ ht)

end Sources

/-! ## Reading at other positions -/

theorem standalone_eq_ok {env : Context} {ts rest : List Token} {e : Expr} :
    standalone env ts = .ok e rest ↔ expr env ts = .ok e rest ∧ nextKind rest = .endOfInput := by
  simp only [standalone, bind_eq_ok, check_eq_ok]
  constructor
  · rintro ⟨e', mid, he, _, _, ⟨rfl, rfl⟩, h⟩
    split at h
    · rename_i hend
      obtain ⟨rfl, rfl⟩ := pure_eq_ok.mp h
      exact ⟨he, List.mem_singleton.mp (List.contains_iff_mem.mp hend)⟩
    · exact absurd h fail_ne_ok
  · rintro ⟨he, hend⟩
    refine ⟨e, rest, he, _, rest, ⟨rfl, rfl⟩, ?_⟩
    rw [hend]
    rfl

-- The equation that `rw [holeAt]` would use is slow to prove, because the scanner is unfolded.
attribute [local irreducible] tokenize standalone in
theorem holeAt_succ (n : Nat) (source : Text) (p : Pos) : holeAt (n + 1) source p =
    match tokenize source p with
    | .error e => .error (.lexical e)
    | .ok ts =>
      match standalone ⟨endPosition ts p, holeAt n⟩ ts with
      | .ok e _ => .ok e
      | .error f _ => .error f := rfl

theorem holeAt_eq_ok {n : Nat} {source : Text} {p : Pos} {e : Expr} :
    holeAt (n + 1) source p = .ok e ↔ ∃ ts rest, tokenize source p = .ok ts ∧
      expr ⟨endPosition ts p, holeAt n⟩ ts = .ok e rest ∧ nextKind rest = .endOfInput := by
  simp only [← standalone_eq_ok]
  rw [holeAt_succ]
  cases tokenize source p with
  | error f => simp
  | ok ts => cases hrun : standalone ⟨endPosition ts p, holeAt n⟩ ts <;> simp [hrun]

/-- **Holes are read to the same expressions at all positions**, also by a reader in which templates
may nest deeper. -/
theorem extends_holeAt {n m : Nat} (hnm : n ≤ m) : Extends (holeAt m) (holeAt n) := by
  induction n generalizing m with
  | zero =>
    intro source p e h
    cases h
  | succ n ih =>
    intro source p e h p'
    obtain ⟨m, rfl⟩ := Nat.exists_eq_add_of_le' hnm
    obtain ⟨ts, rest, htokens, hexpr, hend⟩ := holeAt_eq_ok.mp h
    obtain ⟨used, rfl, hused⟩ := yields_expr (readsOnly_filled _) hexpr
    obtain rfl := eq_nil_of_tokenize htokens hend
    obtain ⟨us, hus, hrecast⟩ := tokenize_elsewhere htokens p'
    rw [List.append_nil] at hrecast
    obtain ⟨-, e', hbare, htakes⟩ := (hused.recast hrecast).taken
      (fills_filled (endPosition us p') (ih (Nat.le_add_left n m)))
    have hexpr' := htakes [] (by decide)
    rw [List.append_nil] at hexpr'
    exact ⟨e', holeAt_eq_ok.mpr ⟨us, [], hus, hexpr', rfl⟩, hbare⟩

theorem steady_holeAt (n : Nat) : Steady (holeAt n) := extends_holeAt (Nat.le_refl n)

theorem steady_readHole : Steady readHole := fun _ _ _ h ↦ steady_holeAt _ h

theorem Filled.native {read : Text → Pos → Except Fault Expr} {o : Outline} {cs : List Text}
    {hs : List Expr} (hread : ∀ ⦃source p e⦄, read source p = .ok e → e.native = true)
    (h : Filled read o cs hs) : Expr.nativeAll hs = true := by
  induction h with
  | last chunk => rfl
  | hole chunk he _ ih =>
    rw [Expr.nativeAll, hread he, ih]
    rfl

/-- Holes are read to expressions that hold no foreign thing. -/
theorem native_holeAt (n : Nat) :
    ∀ ⦃source p e⦄, holeAt n source p = .ok e → e.native = true := by
  induction n with
  | zero =>
    intro source p e h
    cases h
  | succ n ih =>
    intro source p e h
    obtain ⟨ts, rest, -, hexpr, -⟩ := holeAt_eq_ok.mp h
    obtain ⟨used, -, hused⟩ := yields_expr (readsOnly_filled _) hexpr
    exact hused.native fun _ _ _ ⟨_, hfilled⟩ ↦ hfilled.native ih

/-- What is parsed holds no foreign thing. -/
theorem native_of_written {clause : Clause} {ts : List Token}
    (h : WrittenStmt (filledTemplates readHole) clause ts) : clause.native = true :=
  h.native fun _ _ _ ⟨_, hfilled⟩ ↦ hfilled.native fun _ _ _ he ↦ native_holeAt _ he

/-- A source that is parsed consists of what writes its program. -/
theorem written_of_tokenize {source : Text} {p : Pos} {ts : List Token}
    (hts : tokenize source p = .ok ts) {prog : Program} (h : parse ts = .ok prog) :
    WrittenStmt (filledTemplates readHole) (.stmts prog.body) ts := by
  obtain ⟨used, rest, rfl, hend, hwritten⟩ := written_of_parse (readsOnly_filled _) h
  obtain rfl := eq_nil_of_tokenize hts hend
  rw [List.append_nil]
  exact hwritten

/-- In a source that is parsed no identifier stands before a numeral. -/
theorem apart_of_parse {source : Text} {p : Pos} {ts : List Token}
    (hts : tokenize source p = .ok ts) {prog : Program} (h : parse ts = .ok prog) :
    (ts.map Token.form).IsChain Apart :=
  (List.isChain_map Token.form).mpr (written_of_tokenize hts h).concluded.1

/-- **Positions decide nothing but positions.**  Where tokens are parsed, others of the same forms
are parsed as well, and to the same program. -/
theorem parse_recast {source : Text} {p : Pos} {ts us : List Token}
    (hts : tokenize source p = .ok ts) (hus : Recast us ts) {prog : Program}
    (h : parse ts = .ok prog) :
    ∃ prog', parse us = .ok prog' ∧ Stmt.bareAll prog'.body = Stmt.bareAll prog.body :=
  parse_of_written ((written_of_tokenize hts h).recast hus) (fills_filled _ steady_readHole)

end Advplc.Grammar

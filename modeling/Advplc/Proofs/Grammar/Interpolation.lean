import Advplc.Proofs.Grammar.Balance
import Advplc.Proofs.Layout

/-!
# Chunks and holes

Three readers take a template apart: the lexer finds its end, `Outline.source` counts braces to find
the end of a hole, and the lexer and the grammar read what is in the hole.  This file shows that
they agree.

* `Outline.chunk_append`, `Outline.of_chunk_eq_some`, `Outline.of_chunk_eq_none`: a chunk reaches to
  the first `${` that is not hidden.
* `Outline.source_scans`: counting braces goes over a source as the lexer does, token by token.  So
  a hole ends where the expression in it does (`Outline.source_of_parseExpr`).
* `Filled.exists_interpolation` and `Interpolation.exists_filled`: what fills a template is chunks
  with expressions between them, and they always do.
-/

set_option autoImplicit false

namespace Advplc

open Text (Paired Escaped Enclosed units units_cons units_escape)

/-! ## Chunks -/

/-- A dollar sign stands before an opening brace, and neither of them is hidden. -/
def Text.OpensHole (t : Text) : Prop := [[.scalar '$'], [.scalar '\x7b']] <:+: units t

instance (t : Text) : Decidable t.OpensHole := inferInstanceAs (Decidable (_ <:+: units t))

section Chunks

open Text (OpensHole)

variable {c : CodePoint} {t : Text}

theorem not_opensHole_nil : ¬ OpensHole [] := by
  rw [OpensHole, Text.units_nil, List.infix_nil]
  exact List.cons_ne_nil _ _

theorem opensHole_escape : OpensHole (.scalar '\\' :: c :: t) ↔ OpensHole t := by
  rw [OpensHole, OpensHole, units_escape, List.infix_cons_iff, List.cons_prefix_cons]
  simp

theorem exists_of_prefix_units (h : [[.scalar '\x7b']] <+: units t) :
    ∃ u, t = .scalar '\x7b' :: u := by
  fun_cases units t with
  | case1 d rest => simp [units_escape] at h
  | case2 d rest hescape =>
    rw [units] at h
    · rw [List.cons_prefix_cons, List.singleton_inj] at h
      exact ⟨rest, by rw [h.1]⟩
    · exact hescape
  | case3 => simp at h

theorem opensHole_cons (hc : c ≠ '\\') :
    OpensHole (c :: t) ↔ (c = '$' ∧ ∃ u, t = .scalar '\x7b' :: u) ∨ OpensHole t := by
  rw [OpensHole, OpensHole, units_cons hc, List.infix_cons_iff, List.cons_prefix_cons,
    List.singleton_inj]
  refine or_congr_left (and_congr eq_comm ⟨exists_of_prefix_units, ?_⟩)
  rintro ⟨u, rfl⟩
  rw [units_cons (by decide)]
  exact List.cons_prefix_cons.mpr ⟨rfl, List.nil_prefix⟩

namespace Grammar.Outline

variable {r s behind : Text}

theorem chunk_escape (c : CodePoint) (t : Text) :
    chunk (.scalar '\\' :: c :: t) = (.scalar '\\' :: c :: (chunk t).1, (chunk t).2) := by
  rw [chunk]

theorem chunk_open (t : Text) : chunk (.scalar '$' :: .scalar '\x7b' :: t) = ([], some t) := by
  rw [chunk]

theorem chunk_cons (hc : c ≠ '\\') (hopen : ¬ (c = '$' ∧ ∃ u, t = .scalar '\x7b' :: u)) :
    chunk (c :: t) = (c :: (chunk t).1, (chunk t).2) := by
  rw [chunk]
  · intro d u h
    exact absurd h hc
  · intro u h ht
    exact hopen ⟨h, u, ht⟩

/-- A chunk goes on over everything that does not open a hole. -/
theorem chunk_append (hs : Paired s) (hopen : ¬ OpensHole s) (hr : (chunk r).1 = []) :
    chunk (s ++ r) = (s, (chunk r).2) := by
  have hbrace : ∀ u, r ≠ .scalar '\x7b' :: u := by
    rintro u rfl
    rw [chunk_cons (by decide) (by simp)] at hr
    cases hr
  revert hopen
  refine hs.induct (fun _ ↦ ?_) (fun c s ih hopen ↦ ?_) (fun c s hc ih hopen ↦ ?_)
  · rw [List.nil_append, ← hr]
  · rw [opensHole_escape] at hopen
    rw [List.cons_append, List.cons_append, chunk_escape, ih hopen]
  · rw [opensHole_cons hc, not_or] at hopen
    rw [List.cons_append, chunk_cons hc, ih hopen.2]
    rintro ⟨hdollar, u, hu⟩
    cases s with
    | nil => exact hbrace u hu
    | cons d s =>
      obtain ⟨rfl, -⟩ := List.cons.inj hu
      exact hopen.1 ⟨hdollar, s, rfl⟩

theorem chunk_eq_self (hs : Paired s) (hopen : ¬ OpensHole s) : chunk s = (s, none) := by
  have h := chunk_append (r := []) hs hopen rfl
  rwa [List.append_nil] at h

theorem chunk_append_hole (hs : Paired s) (hopen : ¬ OpensHole s) (t : Text) :
    chunk (s ++ .scalar '$' :: .scalar '\x7b' :: t) = (s, some t) := by
  rw [chunk_append hs hopen (by rw [chunk_open]), chunk_open]

/-- **A chunk before a hole** reaches to the first `${` that is not hidden. -/
theorem of_chunk_eq_some (h : (chunk t).2 = some behind) :
    t = (chunk t).1 ++ .scalar '$' :: .scalar '\x7b' :: behind ∧ Paired (chunk t).1 ∧
      ¬ OpensHole (chunk t).1 := by
  fun_induction chunk t with
  | case1 c rest ih =>
    obtain ⟨hrest, hpaired, hopen⟩ := ih h
    refine ⟨?_, Text.paired_escape.mpr hpaired, by rwa [opensHole_escape]⟩
    rw [List.cons_append, List.cons_append, ← hrest]
  | case2 rest =>
    cases h
    exact ⟨rfl, List.not_mem_nil, not_opensHole_nil⟩
  | case3 c rest hescape hopen ih =>
    obtain ⟨hrest, hpaired, hopens⟩ := ih h
    have hc : c ≠ '\\' := by
      rintro rfl
      cases rest with
      | nil => cases h
      | cons d rest => exact hescape d rest rfl rfl
    refine ⟨by rw [List.cons_append, ← hrest], (Text.paired_cons hc).mpr hpaired, ?_⟩
    rw [opensHole_cons hc, not_or]
    refine ⟨?_, hopens⟩
    rintro ⟨hdollar, u, hu⟩
    rw [hu] at hrest
    exact hopen _ hdollar hrest
  | case4 => cases h

/-- **The last chunk** is all there is, and no hole opens in it. -/
theorem of_chunk_eq_none (ht : Paired t) (h : (chunk t).2 = none) :
    (chunk t).1 = t ∧ ¬ OpensHole t := by
  revert h
  refine ht.induct (fun _ ↦ ⟨rfl, not_opensHole_nil⟩) (fun c t ih h ↦ ?_) (fun c t hc ih h ↦ ?_)
  · rw [chunk_escape] at h ⊢
    obtain ⟨heq, hopen⟩ := ih h
    rw [heq, opensHole_escape]
    exact ⟨rfl, hopen⟩
  · by_cases hdollar : c = '$' ∧ ∃ u, t = .scalar '\x7b' :: u
    · obtain ⟨rfl, u, rfl⟩ := hdollar
      cases h
    · rw [chunk_cons hc hdollar] at h ⊢
      obtain ⟨heq, hopen⟩ := ih h
      rw [heq, opensHole_cons hc, not_or]
      exact ⟨rfl, hdollar, hopen⟩

end Grammar.Outline

end Chunks

/-! ## The ends of holes -/

namespace Grammar.Outline

variable {c q : CodePoint} {d : Nat} {b s t w text behind : Text} {found : Option (Text × Text)}

/-- A hole whose source has more text in front. -/
def prepend (s : Text) (found : Option (Text × Text)) : Option (Text × Text) :=
  found.map fun (text, behind) ↦ (s ++ text, behind)

@[simp] theorem prepend_nil (found : Option (Text × Text)) : prepend [] found = found := by
  cases found <;> rfl

theorem push_eq_prepend (c : CodePoint) (found : Option (Text × Text)) :
    push c found = prepend [c] found := rfl

theorem prepend_prepend (s t : Text) (found : Option (Text × Text)) :
    prepend s (prepend t found) = prepend (s ++ t) found := by
  cases found <;> simp [prepend]

theorem source_quote (hq : q = '\'' ∨ q = '"') :
    source d none (q :: t) = push q (source d (some q) t) := by
  rw [source.eq_def]
  exact if_pos hq

theorem source_close (q : CodePoint) : source d (some q) (q :: t) = push q (source d none t) := by
  rw [source.eq_def]
  exact if_pos rfl

theorem source_escape (hq : q ≠ '\\') (c : CodePoint) :
    source d (some q) (.scalar '\\' :: c :: t) =
      push '\\' (push c (source d (some q) t)) := by
  rw [source.eq_def]
  exact (if_neg (Ne.symm hq)).trans (if_pos rfl)

theorem source_inside (hc : c ≠ q) (hescape : c ≠ '\\') :
    source d (some q) (c :: t) = push c (source d (some q) t) := by
  rw [source.eq_def]
  exact (if_neg hc).trans (if_neg hescape)

theorem source_plain_cons (hc : c ∉ special) :
    source d none (c :: t) = push c (source d none t) := by
  have hne : ∀ d ∈ special, c ≠ d := fun d hd h ↦ hc (h ▸ hd)
  rw [source.eq_def]
  refine (if_neg ?_).trans ((if_neg (hne _ (by decide))).trans (if_neg (hne _ (by decide))))
  exact not_or.mpr ⟨hne _ (by decide), hne _ (by decide)⟩

theorem source_openBrace :
    source d none (.scalar '\x7b' :: t) = push '\x7b' (source (d + 1) none t) := by
  rw [source.eq_def]
  rfl

theorem source_closeBrace :
    source (d + 1) none (.scalar '\x7d' :: t) = push '\x7d' (source d none t) := by
  rw [source.eq_def]
  rfl

theorem source_end : source 0 none (.scalar '\x7d' :: t) = some ([], t) := by
  rw [source.eq_def]
  rfl

/-- Where nothing is special nothing is counted. -/
theorem source_plain (hw : ∀ c ∈ special, c ∉ w) :
    source d none (w ++ t) = prepend w (source d none t) := by
  induction w with
  | nil => rw [prepend_nil, List.nil_append]
  | cons c w ih =>
    have hc : c ∉ special := fun hc ↦ hw c hc List.mem_cons_self
    have hrest : ∀ c ∈ special, c ∉ w := fun c hc h ↦ hw c hc (List.mem_cons_of_mem _ h)
    rw [List.cons_append, source_plain_cons hc, ih hrest, push_eq_prepend, prepend_prepend,
      List.singleton_append]

/-- Nor is anything counted inside a string literal. -/
theorem source_enclosed (hq : q ≠ '\\') (hb : Enclosed q b) :
    source d (some q) (b ++ t) = prepend b (source d (some q) t) := by
  refine hb.induct ?_ (fun c b _ ih ↦ ?_) (fun c b hc hne ih ↦ ?_)
  · rw [prepend_nil, List.nil_append]
  · rw [List.cons_append, List.cons_append, source_escape hq, ih, push_eq_prepend, push_eq_prepend,
      prepend_prepend, prepend_prepend]
    rfl
  · rw [List.cons_append, source_inside hne hc, ih, push_eq_prepend, prepend_prepend,
      List.singleton_append]

theorem source_string (hq : q = '"' ∨ q = '\'') (hb : Enclosed q b) :
    source d none (q :: b ++ [q] ++ t) = prepend (q :: b ++ [q]) (source d none t) := by
  have hescape : q ≠ '\\' := by obtain rfl | rfl := hq <;> decide
  rw [List.append_assoc, List.cons_append, source_quote hq.symm, source_enclosed hescape hb,
    List.singleton_append, source_close, push_eq_prepend, push_eq_prepend, prepend_prepend,
    prepend_prepend, List.singleton_append, List.cons_append]

/-- Counting goes over a piece of a source at once, and what it counts is what the piece opens or
closes. -/
theorem source_piece {k : Option Kind} {e : Nat} (h : Piece k w) (hfree : k.any Kind.isFree = false)
    (hw : [.scalar '`'] ∉ units (w ++ s)) (he : k.elim (some d) (nesting d) = some e) :
    source d none (w ++ t) = prepend w (source e none t) := by
  cases h with
  | plain hk hw =>
    have hsame : k.elim (some d) (nesting d) = some d := by
      cases k with
      | none => rfl
      | some k =>
        rw [Option.elim_some]
        fun_cases nesting d k with
        | case1 | case2 | case3 => cases hk
        | case4 => rfl
    obtain rfl := Option.some.inj (hsame.symm.trans he)
    exact source_plain hw
  | brace hm =>
    obtain rfl | rfl := hm
    · cases he
      exact source_openBrace
    · cases d with
      | zero => cases he
      | succ d =>
        cases he
        exact source_closeBrace
  | string hq hb =>
    cases he
    exact source_string hq hb
  | template hb =>
    rw [List.append_assoc, List.cons_append, units_cons (by decide)] at hw
    exact absurd List.mem_cons_self hw
  | free hk => exact absurd hk (Bool.eq_false_iff.mp hfree)

/-- **Counting braces follows the lexer**: behind the tokens of a text without comments, regular
expressions and templates as many braces are open as the tokens have opened. -/
theorem source_scans {before : Option Kind} {fs : List (Kind × Lexeme)} {e : Nat} {rest : Text}
    (h : Scans before t fs) (hfree : ∀ f ∈ fs, f.1.isFree = false) (ht : Enclosed '`' t)
    (he : (fs.map Prod.fst).foldlM nesting d = some e) :
    source d none (t ++ rest) = prepend t (source e none rest) := by
  -- One piece and what follows it, for blanks and tokens alike.
  have hstep : ∀ {k : Option Kind} {w u : Text} {i j : Nat}, Piece k w →
      k.any Kind.isFree = false → Enclosed '`' (w ++ u) → k.elim (some i) (nesting i) = some j →
      (Enclosed '`' u → source j none (u ++ rest) = prepend u (source e none rest)) →
      source i none (w ++ u ++ rest) = prepend (w ++ u) (source e none rest) := by
    intro k w u i j hpiece hk hwu hj ih
    have hu : Enclosed '`' u := hwu.right (hpiece.escaped hk).paired
    rw [List.append_assoc, source_piece hpiece hk hwu.bare hj, ih hu, prepend_prepend]
  induction h generalizing d with
  | done =>
    cases he
    rw [prepend_nil, List.nil_append]
  | @blank before c t n fs h hrest ih =>
    rw [← List.take_append_drop n (c :: t)] at ht ⊢
    exact hstep (Rule.piece_of_first? h) rfl ht rfl fun hu ↦ ih hfree hu he
  | @token before c t k n fs h hrest ih =>
    rw [List.forall_mem_cons] at hfree
    rw [List.map_cons, List.foldlM_cons] at he
    obtain ⟨j, hj, he⟩ := Option.bind_eq_some_iff.mp he
    rw [← List.take_append_drop n (c :: t)] at ht ⊢
    exact hstep (Rule.piece_of_first? h) hfree.1 ht hj fun hu ↦ ih hfree.2 hu he

/-- **A hole ends where the expression in it does.** -/
theorem source_of_parseExpr {e : Script.Expr} {p : Pos} (h : parseExpr s p = .ok e)
    (hreturn : .scalar '\r' ∉ s) (hs : Enclosed '`' s) (rest : Text) :
    source 0 none (s ++ .scalar '\x7d' :: rest) = some (s, rest) := by
  obtain ⟨fs, hscans, hfree, hbalanced⟩ := exists_orderly_of_parseExpr h
  rw [joinLineEnds_of_not_mem hreturn] at hscans
  rw [source_scans hscans (List.forall_mem_map.mp hfree) hs (hbalanced 0), source_end]
  simp [prepend]

end Grammar.Outline

/-! ## Templates -/

namespace Grammar

open Script Outline

/-- A chunk, and behind it holes, each with the source in it and the chunk that follows. -/
structure Interpolation where
  first : Text
  holes : List (Text × Text)

namespace Interpolation

variable {x : Interpolation}

/-- The chunks, which are one more than the holes. -/
def chunks (x : Interpolation) : List Text := x.first :: x.holes.map Prod.snd

/-- The sources in the holes. -/
def sources (x : Interpolation) : List Text := x.holes.map Prod.fst

/-- A hole as it is written, and the chunk behind it. -/
def written (hole : Text × Text) : Text := "$\x7b" ++ hole.1 ++ "\x7d" ++ hole.2

/-- What stands between the backticks of the template. -/
def inside (x : Interpolation) : Text := x.first ++ x.holes.flatMap written

theorem inside_nil (first : Text) : inside ⟨first, []⟩ = first := List.append_nil first

theorem inside_cons (first source chunk : Text) (holes : List (Text × Text)) :
    inside ⟨first, (source, chunk) :: holes⟩ =
      first ++ .scalar '$' :: .scalar '\x7b' ::
        (source ++ .scalar '\x7d' :: inside ⟨chunk, holes⟩) := by
  simp [inside, written, Text.ofString]

/-- What holds of the chunks, the sources and the marks of the holes, and passes to texts one behind
the other, holds of the whole. -/
theorem forall_inside {Q : Text → Prop} (happend : ∀ ⦃s t⦄, Q s → Q t → Q (s ++ t))
    (hopen : Q [.scalar '$', .scalar '\x7b']) (hclose : Q [.scalar '\x7d'])
    (hchunks : ∀ c ∈ x.chunks, Q c) (hsources : ∀ s ∈ x.sources, Q s) : Q x.inside := by
  obtain ⟨first, holes⟩ := x
  induction holes generalizing first with
  | nil =>
    rw [inside_nil]
    exact hchunks first List.mem_cons_self
  | cons hole holes ih =>
    obtain ⟨hfirst, hchunks⟩ := List.forall_mem_cons.mp hchunks
    obtain ⟨hsource, hsources⟩ := List.forall_mem_cons.mp hsources
    rw [inside_cons]
    exact happend hfirst
      (happend hopen (happend hsource (happend hclose (ih hole.2 hchunks hsources))))

end Interpolation

/-- The expressions that sources stand for, each at some position. -/
abbrev ParsedAnywhere (sources : List Text) (es : List Expr) : Prop :=
  List.Forall₂ (fun source e ↦ ∃ p, parseExpr source p = .ok e) sources es

/-- The source of an expression is escaped. -/
theorem escaped_of_parseExpr {source : Text} {p : Pos} {e : Expr} (h : parseExpr source p = .ok e)
    (hreturn : .scalar '\r' ∉ source) : Escaped source := by
  obtain ⟨fs, hscans, hfree, -⟩ := exists_orderly_of_parseExpr h
  rw [joinLineEnds_of_not_mem hreturn] at hscans
  exact hscans.escaped (List.forall_mem_map.mp hfree)

section Filling

variable {first source rest : Text} {cs : List Text} {hs : List Expr}

/-- If a template is enclosed, so are the source of its first hole and what stands behind the
hole. -/
theorem enclosed_hole (hfirst : Paired first) (hsource : Escaped source)
    (h : Enclosed '`'
      (first ++ .scalar '$' :: .scalar '\x7b' :: (source ++ .scalar '\x7d' :: rest))) :
    Enclosed '`' source ∧ Enclosed '`' rest := by
  have hopen : Paired [.scalar '$', .scalar '\x7b'] := by decide
  have hclose : Paired [.scalar '\x7d'] := by decide
  have hbehind : Enclosed '`' (source ++ .scalar '\x7d' :: rest) := (h.right hfirst).right hopen
  exact ⟨hbehind.left hsource, (hbehind.right hsource.paired).right hclose⟩

/-- **A template that is filled** is made of chunks and of expressions between them. -/
theorem Filled.exists_interpolation {b : Text} {p : Pos}
    (h : Filled readHole (Outline.of p b) cs hs) (hb : Enclosed '`' b)
    (hreturn : .scalar '\r' ∉ b) :
    ∃ x : Interpolation, b = x.inside ∧ (∀ c ∈ x.chunks, Paired c ∧ ¬ c.OpensHole) ∧
      cs = x.chunks.map Text.unescape ∧ ParsedAnywhere x.sources hs := by
  fun_induction Outline.of p b generalizing cs hs with
  | case1 p t hchunk =>
    obtain ⟨heq, hopen⟩ := of_chunk_eq_none hb.paired hchunk
    cases h
    rw [heq]
    refine ⟨⟨t, []⟩, (Interpolation.inside_nil t).symm, ?_, rfl, .nil⟩
    exact List.forall_mem_singleton.mpr ⟨hb.paired, hopen⟩
  | case2 => cases h
  | case3 p t behind hchunk start text rest hsource =>
    rename_i ih
    obtain ⟨ht, hpaired, hopen⟩ := of_chunk_eq_some hchunk
    rw [eq_append_of_source hsource] at ht
    generalize (chunk t).1 = first at ht hpaired hopen h
    subst ht
    cases h with
    | hole _ he h =>
      simp only [List.mem_append, List.mem_cons, not_or] at hreturn
      obtain ⟨-, -, -, hreturn, -, hreturns⟩ := hreturn
      have hescaped := escaped_of_parseExpr he hreturn
      obtain ⟨-, hrest⟩ := enclosed_hole hpaired hescaped hb
      obtain ⟨⟨chunk, holes⟩, rfl, hchunks, rfl, hsources⟩ := ih h hrest hreturns
      refine ⟨⟨first, (text, chunk) :: holes⟩, ?_, ?_, rfl, .cons ⟨_, he⟩ hsources⟩
      · rw [Interpolation.inside_cons]
      · exact List.forall_mem_cons.mpr ⟨⟨hpaired, hopen⟩, hchunks⟩

/-- **Chunks with expressions between them fill a template**, wherever it stands. -/
theorem Interpolation.exists_filled (x : Interpolation) (hx : Enclosed '`' x.inside)
    (hreturn : .scalar '\r' ∉ x.inside) (hchunks : ∀ c ∈ x.chunks, Paired c ∧ ¬ c.OpensHole)
    (hsources : ParsedAnywhere x.sources hs) (p : Pos) :
    ∃ hs', Filled readHole (Outline.of p x.inside) (x.chunks.map Text.unescape) hs' ∧
      Expr.bareAll hs' = Expr.bareAll hs := by
  obtain ⟨first, holes⟩ := x
  induction holes generalizing first hs p with
  | nil =>
    obtain ⟨hpaired, hopen⟩ := hchunks first List.mem_cons_self
    have hchunk := chunk_eq_self hpaired hopen
    cases hsources
    rw [inside_nil, Outline.of_last (congrArg Prod.snd hchunk), hchunk]
    exact ⟨[], .last first, rfl⟩
  | cons hole holes ih =>
    obtain ⟨source, next⟩ := hole
    obtain ⟨⟨hpaired, hopen⟩, hchunks⟩ := List.forall_mem_cons.mp hchunks
    obtain _ | ⟨⟨q, he⟩, hsources⟩ := hsources
    rw [inside_cons] at hx hreturn ⊢
    simp only [List.mem_append, List.mem_cons, not_or] at hreturn
    obtain ⟨-, -, -, hreturn, -, hreturns⟩ := hreturn
    have hescaped := escaped_of_parseExpr he hreturn
    obtain ⟨hsource, hrest⟩ := enclosed_hole hpaired hescaped hx
    have hhole := source_of_parseExpr he hreturn hsource (inside ⟨next, holes⟩)
    have hchunk :=
      chunk_append_hole hpaired hopen (source ++ .scalar '\x7d' :: inside ⟨next, holes⟩)
    obtain ⟨start, stop, hof⟩ := Outline.of_hole (congrArg Prod.snd hchunk) hhole p
    obtain ⟨e', he', hbare⟩ := steady_readHole he start
    obtain ⟨hs', hfilled, hbares⟩ := ih stop next hrest hreturns hchunks hsources
    rw [hof, hchunk]
    refine ⟨e' :: hs', .hole first he' hfilled, ?_⟩
    rw [Expr.bareAll, Expr.bareAll, hbare, hbares]

end Filling

end Grammar

end Advplc

import Advplc.Proofs.Grammar.Interpolation
import Advplc.Proofs.Token.Coverage

/-!
# Sources inside a source

The holes of a template are sources of their own, and there may be templates in them again.
`Stream` reaches every source that is read in the course of reading one: the source itself, and the
holes of the templates among the tokens of a source that is reached.

A hole is scanned from the position at which it begins.  `Stands` says what that should achieve: the
tokens of a hole carry the lines and columns at which their texts stand in the source as a whole,
and so does an error of the lexer (`Stream.stands_token`, `Stream.stands_error`).  Carriage returns
are dropped before line feeds whenever a source is scanned, so in a hole once more than around it;
since white space is no part of a token, no position depends on that.
-/

set_option autoImplicit false

namespace Advplc

/-! ## Line ends -/

/-- A carriage return before a line feed does not matter for what comes behind both. -/
theorem Pos.advance_joinLineEnds (p : Pos) (t : Text) : p.advance t.joinLineEnds = p.advance t := by
  fun_induction Text.joinLineEnds t generalizing p with
  | case1 rest ih => exact ih _
  | case2 c rest _ ih => exact ih _
  | case3 => rfl

theorem Text.length_joinLineEnds_le (t : Text) : t.joinLineEnds.length ≤ t.length := by
  fun_induction joinLineEnds t with
  | case1 rest ih => simp only [List.length_cons]; omega
  | case2 c rest _ ih => simp only [List.length_cons]; omega
  | case3 => exact Nat.le_refl _

/-- A token is no longer than its source. -/
theorem length_le_of_tokenize {source w : Text} {start : Pos} {ts : List Token} {t : Token}
    (h : tokenize source start = .ok ts) (ht : t ∈ ts) (hw : t.lexeme = .text w) :
    w.length ≤ source.length := by
  obtain ⟨x, w', y, hsource, hw', -⟩ := (covers_of_tokenize h).exists_part t ht
  obtain rfl := Lexeme.text.inj (hw.symm.trans hw')
  have hle := source.length_joinLineEnds_le
  rw [hsource, List.length_append, List.length_append] at hle
  omega

/-- Where a text with joined line ends is divided, the text itself can be. -/
theorem Text.exists_split {s a b : Text} (h : s.joinLineEnds = a ++ b) :
    ∃ a' b', s = a' ++ b' ∧ a'.joinLineEnds = a ∧ b'.joinLineEnds = b := by
  fun_induction Text.joinLineEnds s generalizing a with
  | case1 rest ih =>
    rcases a with _ | ⟨c, a⟩
    · exact ⟨[], _, rfl, rfl, by rw [Text.joinLineEnds]; exact h⟩
    · obtain ⟨rfl, hrest⟩ := List.cons.inj h
      obtain ⟨a', b', rfl, rfl, rfl⟩ := ih hrest
      exact ⟨.scalar '\r' :: .scalar '\n' :: a', b', rfl, by rw [Text.joinLineEnds], rfl⟩
  | case2 c rest hcrlf ih =>
    rcases a with _ | ⟨d, a⟩
    · exact ⟨[], _, rfl, rfl, by rw [Text.joinLineEnds]; exacts [h, hcrlf]⟩
    · obtain ⟨rfl, hrest⟩ := List.cons.inj h
      obtain ⟨a', b', rfl, rfl, rfl⟩ := ih hrest
      refine ⟨c :: a', b', rfl, ?_, rfl⟩
      rw [Text.joinLineEnds]
      rintro v hc rfl
      exact hcrlf _ hc rfl
  | case3 =>
    obtain ⟨rfl, rfl⟩ := List.append_eq_nil_iff.mp h.symm
    exact ⟨[], [], rfl, rfl, rfl⟩

/-- The same for a text whose line ends are joined several times. -/
theorem Text.exists_split_iterate {n : Nat} {s a b : Text} (h : joinLineEnds^[n] s = a ++ b) :
    ∃ a' b', s = a' ++ b' ∧ joinLineEnds^[n] a' = a ∧ joinLineEnds^[n] b' = b := by
  induction n generalizing s with
  | zero => exact ⟨a, b, h, rfl, rfl⟩
  | succ n ih =>
    obtain ⟨a', b', hs, rfl, rfl⟩ := ih h
    obtain ⟨a'', b'', rfl, rfl, rfl⟩ := Text.exists_split hs
    exact ⟨a'', b'', rfl, rfl, rfl⟩

theorem Pos.advance_iterate (n : Nat) (p : Pos) (t : Text) :
    p.advance (Text.joinLineEnds^[n] t) = p.advance t := by
  induction n generalizing t with
  | zero => rfl
  | succ n ih => rw [Function.iterate_succ_apply, ih, Pos.advance_joinLineEnds]

/-! ## Parts of a source -/

/-- Whether the text `w` stands in the source `s` at `p`, once carriage returns before line feeds
are dropped from it as often as it takes. -/
def Stands (s w : Text) (p : Pos) : Prop :=
  ∃ front mid back n, s = front ++ mid ++ back ∧ p = Pos.origin.behind front ∧
    Text.joinLineEnds^[n] mid = w

theorem Stands.refl (s : Text) : Stands s s Pos.origin :=
  ⟨[], s, [], 0, by rw [List.nil_append, List.append_nil], rfl, rfl⟩

section Standing

variable {s w : Text} {p : Pos}

theorem Stands.joined (h : Stands s w p) : Stands s w.joinLineEnds p := by
  obtain ⟨front, mid, back, n, hs, hp, rfl⟩ := h
  exact ⟨front, mid, back, n + 1, hs, hp, Function.iterate_succ_apply' _ n mid⟩

/-- A part of a text that stands in a source stands in the source as well. -/
theorem Stands.part {x v y : Text} (h : Stands s (x ++ v ++ y) p) : Stands s v (p.advance x) := by
  obtain ⟨front, mid, back, n, rfl, rfl, hmid⟩ := h
  obtain ⟨xv, y', rfl, hxv, -⟩ := Text.exists_split_iterate hmid
  obtain ⟨x', v', rfl, rfl, hv⟩ := Text.exists_split_iterate hxv
  refine ⟨front ++ x', v', y' ++ back, n, by simp only [List.append_assoc], ?_, hv⟩
  rw [Pos.advance_iterate, ← Pos.advance_eq_behind, ← Pos.advance_eq_behind, Pos.advance_append]

end Standing

/-! ## Streams -/

namespace Grammar

/-- A hole stands in the text of a template where the outline says. -/
theorem Outline.part_of_hole (p : Pos) (t : Text) : ∀ hole ∈ (Outline.of p t).holes,
    ∃ x y, t = x ++ hole.1 ++ y ∧ hole.2 = p.advance x := by
  fun_induction Outline.of p t with
  | case1 => simp [Outline.holes]
  | case2 => simp [Outline.holes]
  | case3 p t behind hchunk start text rest hsource ih =>
    have ht := (Outline.of_chunk_eq_some hchunk).1
    rw [Outline.eq_append_of_source hsource] at ht
    have hstart : start = p.advance ((Outline.chunk t).1 ++ "$\x7b") := rfl
    refine List.forall_mem_cons.mpr ⟨⟨(Outline.chunk t).1 ++ "$\x7b", "\x7d" ++ rest, ?_, hstart⟩,
      fun hole hhole ↦ ?_⟩
    · refine ht.trans ?_
      simp only [List.append_assoc]
      rfl
    · obtain ⟨x, y, hrest, hpos⟩ := ih hole hhole
      refine ⟨(Outline.chunk t).1 ++ "$\x7b" ++ (text ++ "\x7d") ++ x, y, ?_, ?_⟩
      · refine ht.trans ?_
        rw [hrest]
        simp only [List.append_assoc]
        rfl
      · rw [hpos, hstart]
        simp only [Pos.advance_append]

/-- A hole of a template stands in the text of the template. -/
theorem Token.part_of_hole {source : Text} {start : Pos} {ts : List Token} {t : Token}
    (hts : tokenize source start = .ok ts) (ht : t ∈ ts) : ∀ hole ∈ Token.holes t,
    ∃ w x y, t.lexeme = .text w ∧ w = x ++ hole.1 ++ y ∧ hole.2 = t.pos.advance x := by
  intro hole hhole
  have hscans := (tokenize_eq_ok_iff start).mpr ⟨ts, hts, rfl⟩
  obtain ⟨c, v, hlexeme, hstarts⟩ := hscans.exists_starts t.form (List.mem_map_of_mem ht)
  change t.lexeme = _ at hlexeme
  unfold Token.holes at hhole
  split at hhole
  · rename_i w hkind hw
    obtain rfl : w = c :: v := Lexeme.text.inj (hw.symm.trans hlexeme)
    obtain rfl : c = '`' :=
      of_decide_eq_true (hkind ▸ hstarts : Kind.starts (some .template) c = true)
    obtain ⟨x, y, hinside, hpos⟩ := Outline.part_of_hole _ _ hole hhole
    refine ⟨_, .scalar '`' :: x, y ++ v.drop (v.length + 1 - 2), hlexeme, ?_, hpos⟩
    have hbody : v.take (v.length + 1 - 2) = x ++ hole.1 ++ y := hinside
    rw [List.cons_append, List.cons_append, ← List.append_assoc, ← hbody, List.take_append_drop]
  · cases hhole

/-- The sources that are read in the course of reading one, with the positions at which they begin:
the source itself, and the holes of all templates in them. -/
inductive Stream (source : Text) : Text → Pos → Prop where
  | whole : Stream source source Pos.origin
  | hole {s : Text} {p : Pos} {ts : List Token} {t : Token} {hole : Text × Pos}
      (h : Stream source s p) (hts : tokenize s p = .ok ts) (ht : t ∈ ts)
      (hhole : hole ∈ Token.holes t) : Stream source hole.1 hole.2

section Streams

variable {source s : Text} {p : Pos}

theorem stands_of_covers {ts : List Token} {front t : Text}
    (h : Stands source (front ++ t) p) (hcovers : Covers p front ts t) :
    ∀ u ∈ ts, ∃ w, u.lexeme = .text w ∧ Stands source w u.pos := by
  intro u hu
  obtain ⟨x, w, y, rfl, hw, hpos⟩ := hcovers.exists_part u hu
  refine ⟨w, hw, ?_⟩
  rw [hpos, ← Pos.advance_eq_behind]
  rw [← List.append_assoc, ← List.append_assoc] at h
  exact h.part

/-- Each stream stands in the source. -/
theorem Stream.stands (h : Stream source s p) : Stands source.joinLineEnds s.joinLineEnds p := by
  induction h with
  | whole => exact .refl _
  | hole h hts ht hhole ih =>
    obtain ⟨w, x, y, hw, rfl, hpos⟩ := Token.part_of_hole hts ht _ hhole
    obtain ⟨w', hw', hstands⟩ := stands_of_covers ih (covers_of_tokenize hts) _ ht
    obtain rfl := Lexeme.text.inj (hw.symm.trans hw')
    rw [hpos]
    exact hstands.part.joined

/-- **The tokens of each stream stand in the source where they say.** -/
theorem Stream.stands_token (h : Stream source s p) {ts : List Token}
    (hts : tokenize s p = .ok ts) :
    ∀ t ∈ ts, ∃ w, t.lexeme = .text w ∧ Stands source.joinLineEnds w t.pos :=
  stands_of_covers h.stands (covers_of_tokenize hts)

/-- **The text that an error of the lexer shows stands in the source where the error says.** -/
theorem Stream.stands_error (h : Stream source s p) {e : LexError}
    (he : tokenize s p = .error e) :
    e.context.head? = some e.char ∧ Stands source.joinLineEnds e.context e.pos := by
  obtain ⟨-, hexplains⟩ := explains_of_tokenize he
  have hstands := h.stands
  rw [← List.take_append_drop (scan s p).taken s.joinLineEnds, ← List.take_append_drop 20
    (s.joinLineEnds.drop (scan s p).taken), ← hexplains.context, ← List.append_assoc] at hstands
  refine ⟨?_, ?_⟩
  · rw [hexplains.context, List.head?_take, if_neg (by decide)]
    exact hexplains.char
  · rw [hexplains.pos, ← Pos.advance_eq_behind]
    exact hstands.part

end Streams

end Grammar

end Advplc

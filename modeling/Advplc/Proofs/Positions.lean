import Advplc.Proofs.Grammar.Faults
import Advplc.Proofs.Grammar.Nodes

/-!
# Positions are positions in the source

While a source is read, positions are found in three places: the lexer counts lines and columns as
it goes, a fault at the end of a stream is reported where the last token ends, and a template looks
up where each of its holes begins.  Whatever is read, and however deep in the holes of templates,
all of them lead to the position in the source as a whole (`parse_positions`).

The faults are followed through the grammar by what is known of a rule that halts (`Halts`): when
the tokens of a stream run out, the fault stands wherever their end is said to be, and so this is
the stream it was raised in.
-/

set_option autoImplicit false

namespace Advplc.Grammar

open Script Parse

/-! ## The ends of streams -/

/-- Whether a parser runs out of tokens: it wants something at their end, wherever that is. -/
def RunsOut {α : Type} (p : Parse α) (read : Text → Pos → Except Fault Expr) (ts : List Token)
    (wanted : Wanted) (label : Text) : Prop :=
  ∀ q, ∃ rest, p ⟨.ok q, read⟩ ts = .error (.unexpected wanted label none q) rest

/-- In which stream of a source the tokens run out: in the source itself, which is read as a
program, or in a hole, which is read as one expression. -/
inductive RaisedAtEnd (source : Text) (wanted : Wanted) (label : Text) :
    Text → Pos → List Token → Prop where
  | whole {ts : List Token} (hts : tokenize source Pos.origin = .ok ts)
      (h : RunsOut program readHole ts wanted label) :
      RaisedAtEnd source wanted label source Pos.origin ts
  | hole {s : Text} {p : Pos} {ts us : List Token} {t : Token} {hole : Text × Pos} {n : Nat}
      (hstream : Stream source s p) (hts : tokenize s p = .ok ts) (ht : t ∈ ts)
      (hhole : hole ∈ Token.holes t) (hus : tokenize hole.1 hole.2 = .ok us)
      (h : RunsOut standalone (holeAt n) us wanted label) :
      RaisedAtEnd source wanted label hole.1 hole.2 us

/-- Whether a stream that begins at `p` and has the given tokens ends at `q`: where it begins, if it
has no tokens, and otherwise behind the text of the last of them, which is where the counters of the
lexer were right after matching that token. -/
def EndsAt (s : Text) (p : Pos) (ts : List Token) (q : Pos) : Prop :=
  match ts.getLast? with
  | none => q = p
  | some t => (∃ w, t.lexeme = .text w ∧ q = t.pos.behind w) ∧ Counted s p t q

/-- Whether a fault can be traced to a stream of the source: an error of the lexer to the one that
it is about, and a fault at the end of tokens to the one that ends there. -/
structure Fault.Traced (source : Text) (f : Fault) : Prop where
  lexical : ∀ e, f = .lexical e → ∃ s p, Stream source s p ∧ tokenize s p = .error e
  ending : f.found? = some ("end of input" : Text) → ∃ wanted label s p ts q,
    f = .unexpected wanted label none q ∧ RaisedAtEnd source wanted label s p ts ∧ EndsAt s p ts q

section Tracing

variable {source s : Text} {p : Pos} {ts : List Token} {f : Fault}

/-- A fault that is neither of the lexer nor at the end of tokens has nothing to be traced to. -/
theorem Fault.Traced.trivially (hlexical : ∀ e, f ≠ .lexical e)
    (hfound : f.found? ≠ some ("end of input" : Text)) : f.Traced source :=
  ⟨fun e h ↦ absurd h (hlexical e), fun h ↦ absurd h hfound⟩

/-- The end of a stream is found where the counters of the lexer say. -/
theorem exists_endsAt (hts : tokenize s p = .ok ts) :
    ∃ q, endPosition ts p = .ok q ∧ EndsAt s p ts q := by
  rw [endPosition]
  unfold EndsAt
  cases hlast : ts.getLast? with
  | none => exact ⟨p, rfl, rfl⟩
  | some t =>
    obtain ⟨w, hw, hcounted⟩ := counted_of_tokenize hts t (List.mem_of_getLast? hlast)
    refine ⟨t.pos.advance w, by simp only [hw], ⟨w, hw, ?_⟩, hcounted⟩
    exact Pos.advance_eq_behind t.pos w

theorem Fault.Blames.traced {t : Token} (h : f.Blames t) (ht : t.Scanned) : f.Traced source := by
  refine .trivially ?_ ?_
  · rintro e rfl
    cases h.found
  · intro hend
    exact ht.name_ne (Option.some.inj (h.found.symm.trans hend))

/-- Where a rule halts on the tokens of a stream, the fault can be traced, if those in the holes of
its templates can be, and if it is known in which stream the tokens ran out. -/
theorem Halts.traced {α : Type} {env : Context} {rule : Parse α} {L : Language Token}
    (h : Halts env rule L ts f) (hts : tokenize s p = .ok ts)
    (hfinish : env.finish = endPosition ts p)
    (hholes : ∀ t ∈ ts, ∀ hole ∈ Token.holes t, ∀ f, env.hole hole.1 hole.2 = .error f →
      f.Traced source)
    (hraised : ∀ wanted label, RunsOut rule env.hole ts wanted label →
      RaisedAtEnd source wanted label s p ts) : f.Traced source := by
  cases h with
  | token us t rest hsplit hblames =>
    exact hblames.traced ⟨s, p, ts, hts, by simp [hsplit]⟩
  | ending wanted label hf hviable hsame =>
    obtain ⟨q, hq, hends⟩ := exists_endsAt hts
    rw [faultAt_nil (hfinish.trans hq)] at hf
    subst hf
    refine ⟨fun _ h ↦ (by cases h),
      fun _ ↦ ⟨wanted, label, s, p, ts, q, rfl, hraised wanted label ?_, hends⟩⟩
    exact fun q' ↦ hsame ⟨.ok q', env.hole⟩ rfl
  | template t ht hkind hf =>
    obtain rfl | ⟨hole, hhole, hf⟩ := hf
    · exact .trivially (fun _ h ↦ by cases h) (of_decide_eq_false rfl)
    · exact hholes t ht hole hhole f hf
  | lexeme t ht hnone =>
    obtain ⟨w, hw⟩ := text_of_tokenize hts t ht
    exact absurd hw (hnone w)

/-- One expression that has to use up all tokens runs out of them if the expression does. -/
theorem RunsOut.standalone {read : Text → Pos → Except Fault Expr} {wanted : Wanted} {label : Text}
    (h : RunsOut expr read ts wanted label) : RunsOut standalone read ts wanted label := by
  intro q
  obtain ⟨rest, hrest⟩ := h q
  exact ⟨rest, bind_of_error hrest _⟩

theorem traced_standalone {read : Text → Pos → Except Fault Expr} {rest : List Token}
    (h : standalone ⟨endPosition ts p, read⟩ ts = .error f rest) (hts : tokenize s p = .ok ts)
    (hholes : ∀ t ∈ ts, ∀ hole ∈ Token.holes t, ∀ f, read hole.1 hole.2 = .error f →
      f.Traced source)
    (hraised : ∀ wanted label, RunsOut standalone read ts wanted label →
      RaisedAtEnd source wanted label s p ts) : f.Traced source := by
  obtain hexpr | ⟨e, mid, hexpr, hend⟩ := bind_eq_error.mp h
  · exact ((tracks_expr (readsOnly_filled _)).error hexpr).traced hts rfl hholes
      fun wanted label hout ↦ hraised wanted label hout.standalone
  · -- What is left over is reported at its first token.
    obtain ⟨used, rfl, -⟩ := yields_expr (readsOnly_filled _) hexpr
    obtain hcheck | ⟨b, _, hcheck, hwant⟩ := bind_eq_error.mp hend
    · cases hcheck
    obtain ⟨rfl, rfl⟩ := check_eq_ok.mp hcheck
    split at hwant
    · cases hwant
    · rename_i hmore
      cases mid with
      | nil => exact absurd rfl hmore
      | cons t mid =>
        cases hwant
        exact (⟨rfl, rfl, rfl⟩ : Fault.Blames _ t).traced ⟨s, p, _, hts, by simp⟩

/-- By induction on how deep templates nest. -/
theorem traced_holeAt (n : Nat) : ∀ {s : Text} {p : Pos} {ts : List Token} {t : Token}
    {hole : Text × Pos} {f : Fault}, Stream source s p → tokenize s p = .ok ts → t ∈ ts →
      hole ∈ Token.holes t → holeAt n hole.1 hole.2 = .error f → f.Traced source := by
  induction n with
  | zero =>
    intro s p ts t hole f _ _ _ _ h
    cases h
    exact .trivially (fun _ h ↦ by cases h) (of_decide_eq_false rfl)
  | succ n ih =>
    intro s p ts t hole f hstream hts ht hhole h
    have hinner : Stream source hole.1 hole.2 := .hole hstream hts ht hhole
    rw [holeAt_succ] at h
    split at h
    · rename_i e he
      cases h
      refine ⟨fun e' he' ↦ ?_, fun hend ↦ by cases hend⟩
      cases he'
      exact ⟨hole.1, hole.2, hinner, he⟩
    · rename_i us hus
      split at h
      · cases h
      · cases h
        exact traced_standalone ‹_› hus
          (fun u hu inside hinside f hf ↦ ih hinner hus hu hinside hf)
          fun wanted label hout ↦ .hole hstream hts ht hhole hus hout

/-- **The faults of a source can be traced.** -/
theorem traced_of_parse (hts : tokenize source Pos.origin = .ok ts) (h : parse ts = .error f) :
    f.Traced source := by
  obtain ⟨-, hhalts⟩ := halts_of_parse hts h
  refine hhalts.traced hts rfl (fun t ht hole hhole f hf ↦ ?_) fun wanted label hout ↦ ?_
  · exact traced_holeAt _ .whole hts ht hhole hf
  · refine .whole hts fun q ↦ ?_
    obtain ⟨rest, hrest⟩ := hout q
    have hrun : untilKind [.endOfInput] stmt ⟨.ok q, readHole⟩ ts = _ := hrest
    exact ⟨rest, by rw [program, hrun]⟩

end Tracing

/-- **Positions are positions in the source.**  Where the tokens of a source are parsed, every
expression stands at the first of its tokens that is not an opening parenthesis, and every statement
at its first token.  Where they are not, a fault at the end of tokens stands behind the last token
of the stream it was raised in, and an error of the lexer is one of a stream.  In every stream, the
source or a hole of a template in it, the tokens and an error of the lexer stand in the source where
they say. -/
theorem parse_positions {source : Text} {ts : List Token}
    (hts : tokenize source Pos.origin = .ok ts) :
    (match parse ts with
      | .ok prog => ∀ x ∈ prog.nodes, Node.Settled source x
      | .error f => Fault.Traced source f) ∧
    ∀ s p, Stream source s p →
      match tokenize s p with
      | .ok us => ∀ t ∈ us, ∃ w, t.lexeme = .text w ∧ Stands source.joinLineEnds w t.pos
      | .error e => e.context.head? = some e.char ∧ Stands source.joinLineEnds e.context e.pos := by
  refine ⟨?_, fun s p hstream ↦ ?_⟩
  · cases hparse : parse ts with
    | ok prog => exact settled_of_parse hts hparse
    | error f => exact traced_of_parse hts hparse
  · cases hscan : tokenize s p with
    | ok us => exact hstream.stands_token hscan
    | error e => exact hstream.stands_error hscan

/-- In the first source the call in the hole is not closed, and the tokens of the hole end in the
sixth column of the second line.  The second source is parsed; of its nodes, the last is in a hole,
and the one in the tenth column is the name of a property. -/
theorem parse_positions_sample :
    (let source : Text := "x=`a\n$\x7b f( \x7d`;"
     ∃ ts f, tokenize source Pos.origin = .ok ts ∧ parse ts = .error f ∧
      f.found? = some ("end of input" : Text) ∧ f.pos? = some ⟨2, 6⟩ ∧ Fault.Traced source f) ∧
    (let source : Text := "x=(`\n$\x7b(a)\x7d`).b;"
     ∃ ts prog, tokenize source Pos.origin = .ok ts ∧ parse ts = .ok prog ∧
      prog.nodes.map Node.pos = ([⟨1, 1⟩, ⟨1, 1⟩, ⟨1, 1⟩, ⟨1, 4⟩, ⟨2, 10⟩, ⟨1, 4⟩, ⟨2, 4⟩] :
        List Pos).map some ∧ ∀ x ∈ prog.nodes, Node.Settled source x) := by
  constructor
  · intro source
    let ts : List Token :=
      [⟨.identifier, "x", ⟨1, 1⟩⟩, ⟨.mark .assign, "=", ⟨1, 2⟩⟩,
       ⟨.template, "`a\n$\x7b f( \x7d`", ⟨1, 3⟩⟩, ⟨.mark .semicolon, ";", ⟨2, 9⟩⟩]
    have hts : tokenize source Pos.origin = .ok ts := tokenize_of_toOption (by decide +kernel)
    have hpositions := (parse_positions hts).1
    have hfault : (match parse ts with | .ok _ => none | .error f => some (f.found?, f.pos?)) =
        some (some ("end of input" : Text), some ⟨2, 6⟩) := by decide +kernel
    cases hparse : parse ts with
    | ok prog => simp [hparse] at hfault
    | error f =>
      rw [hparse] at hpositions hfault
      obtain ⟨hfound, hpos⟩ := Prod.mk.inj (Option.some.inj hfault)
      exact ⟨ts, f, hts, hparse, hfound, hpos, hpositions⟩
  · intro source
    let ts : List Token :=
      [⟨.identifier, "x", ⟨1, 1⟩⟩, ⟨.mark .assign, "=", ⟨1, 2⟩⟩, ⟨.mark .openParen, "(", ⟨1, 3⟩⟩,
       ⟨.template, "`\n$\x7b(a)\x7d`", ⟨1, 4⟩⟩, ⟨.mark .closeParen, ")", ⟨2, 8⟩⟩,
       ⟨.mark .dot, ".", ⟨2, 9⟩⟩, ⟨.identifier, "b", ⟨2, 10⟩⟩, ⟨.mark .semicolon, ";", ⟨2, 11⟩⟩]
    have hts : tokenize source Pos.origin = .ok ts := tokenize_of_toOption (by decide +kernel)
    have hpositions := (parse_positions hts).1
    have hplaces : (match parse ts with | .ok prog => prog.nodes.map Node.pos | .error _ => []) =
        ([⟨1, 1⟩, ⟨1, 1⟩, ⟨1, 1⟩, ⟨1, 4⟩, ⟨2, 10⟩, ⟨1, 4⟩, ⟨2, 4⟩] : List Pos).map some := by
      decide +kernel
    cases hparse : parse ts with
    | error f => simp [hparse] at hplaces
    | ok prog =>
      rw [hparse] at hpositions hplaces
      exact ⟨ts, prog, hts, hparse, hplaces, hpositions⟩

end Advplc.Grammar

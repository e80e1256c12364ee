import Advplc.Proofs.Grammar.Tracking.Statement

/-!
# Where parsing fails

A program is a list of statements, so parsing fails where the rules for statements fail: at the
first token with which no program goes on, or at the end of a stream that is not yet a program
(`parse_fails_first`).

A fault always says what was wanted, what was found and where, unless the lexer failed inside a
template (`reported_of_parse`).
-/

set_option autoImplicit false

namespace Advplc

/-! ## Tokens of the lexer -/

theorem Scans.forms {before : Option Kind} {t : Text} {fs : List (Kind × Lexeme)}
    (h : Scans before t fs) : ∀ f ∈ fs, f.1 ∈ Kind.known ∧ ∃ w, f.2 = .text w := by
  have hall : ∀ rule ∈ Rule.all, ∀ k ∈ rule.kind, k ∈ Kind.known := by decide +kernel
  induction h with
  | done => simp
  | blank _ _ ih => exact ih
  | token h _ ih =>
    intro f hf
    obtain rfl | hf := List.mem_cons.mp hf
    · obtain ⟨rule, hrule, hkind, -⟩ := Rule.exists_of_first? h
      exact ⟨hall rule hrule _ hkind, _, rfl⟩
    · exact ih f hf

namespace Token.Scanned

variable {t : Token}

theorem form (h : t.Scanned) : t.kind ∈ Kind.known ∧ ∃ w, t.lexeme = .text w := by
  obtain ⟨source, start, ts, htokens, ht⟩ := h
  have hscans := (tokenize_eq_ok_iff start).mpr ⟨ts, htokens, rfl⟩
  exact hscans.forms t.form (List.mem_map_of_mem ht)

theorem name_ne (h : t.Scanned) : t.kind.name ≠ "end of input" := by
  have hall : ∀ k ∈ Kind.known, k.name ≠ "end of input" := by decide +kernel
  exact hall _ h.form.1

end Token.Scanned

namespace Grammar

open Script Parse

variable {ts : List Token} {f : Fault}

/-! ## The end of a stream -/

theorem exists_endPosition (htext : ∀ t ∈ ts, ∃ w, t.lexeme = .text w) (start : Pos) :
    ∃ p, endPosition ts start = .ok p := by
  rw [endPosition]
  cases hlast : ts.getLast? with
  | none => exact ⟨start, rfl⟩
  | some t =>
    obtain ⟨w, hw⟩ := htext t (List.mem_of_getLast? hlast)
    exact ⟨_, by simp only [hw]; rfl⟩

theorem faultAt_nil {env : Context} {p : Pos} (h : env.finish = .ok p) (wanted : Wanted)
    (label : Text) : faultAt wanted label env [] = .unexpected wanted label none p := by
  rw [faultAt, h]

/-! ## Programs -/

/-- The language of programs. -/
abbrev programs : Language Token := statementLists (filledTemplates readHole)

theorem parse_of_mem (h : ts ∈ programs) : ∃ p, parse ts = .ok p := by
  obtain ⟨ss, hss⟩ := h
  obtain ⟨q, hparse, -⟩ := parse_of_written hss (fills_filled _ steady_readHole)
  exact ⟨q, hparse⟩

theorem exists_parse_of_viable (h : Viable programs ts) :
    ∃ vs p, (∀ v ∈ vs, v.Scanned) ∧ parse (ts ++ vs) = .ok p := by
  obtain ⟨vs, hvs, hscanned⟩ := h
  obtain ⟨p, hp⟩ := parse_of_mem hvs
  exact ⟨vs, p, hscanned, hp⟩

theorem parse_of_statements {rest : List Token} (hf : ∀ u, f ≠ .unusable u)
    (h : untilKind [.endOfInput] stmt (Context.of ts Pos.origin) ts = .error f rest) :
    parse ts = .error f := by
  rw [parse, program, h]
  cases f with
  | unusable u => exact absurd rfl (hf u)
  | _ => rfl

/-- Parsing fails because a rule for statements halts. -/
theorem exists_halts (h : parse ts = .error f) : ∃ f', ((∀ u, f' ≠ .unusable u) → f = f') ∧
    Halts (Context.of ts Pos.origin) (untilKind [.endOfInput] stmt) programs ts f' := by
  cases hrun : untilKind [.endOfInput] stmt (Context.of ts Pos.origin) ts with
  | ok body rest =>
    rw [parse, program, hrun] at h
    cases h
  | error f' rest =>
    refine ⟨f', fun hf ↦ ?_, (tracks_statements (readsOnly_filled _)).error hrun⟩
    rw [parse_of_statements hf hrun] at h
    exact (Except.error.inj h).symm

theorem Fault.Blames.ne_unusable {t : Token} (h : f.Blames t) (u : Unusable) : f ≠ .unusable u := by
  rintro rfl
  cases h.pos

/-- Where positions differ, a position is that of one token only. -/
theorem eq_of_pos_eq {us us' rest rest' : List Token} {t t' : Token}
    (hnodup : ((us ++ t :: rest).map Token.pos).Nodup) (hts : us ++ t :: rest = us' ++ t' :: rest')
    (hpos : t.pos = t'.pos) : us' = us := by
  have hmap := congrArg (List.map Token.pos) hts
  simp only [List.map_append, List.map_cons] at hmap hnodup
  have hnot : t'.pos ∉ us.map Token.pos ∧ t'.pos ∉ rest.map Token.pos := by
    rw [← hpos]
    have hne := List.nodup_middle.mp hnodup
    simpa [not_or] using (List.nodup_cons.mp hne).1
  have hlength := congrArg List.length ((List.append_cons_inj_of_notMem hnot.1 hnot.2).mp hmap).1
  simp only [List.length_map] at hlength
  exact (List.append_inj_left hts hlength).symm

/-- **Parsing fails at the first impossible token.**  For tokens of the lexer, none of them a
template: when a fault is reported at the end, the tokens can be completed to a program.  Otherwise
it is reported at a token, such that no list that begins with the tokens up to and including it is a
program, and some list that begins with the tokens before it is one.  If the tokens stand at
different positions, the position of the fault is that of no other token. -/
theorem parse_fails_first (ts : List Token) (f : Fault) (hscanned : ∀ t ∈ ts, t.Scanned)
    (htemplate : ∀ t ∈ ts, t.kind ≠ .template) (h : parse ts = .error f) :
    (f.found? = some "end of input" →
      ∃ vs p, vs ≠ [] ∧ (∀ v ∈ vs, v.Scanned) ∧ parse (ts ++ vs) = .ok p) ∧
    (f.found? ≠ some "end of input" → ∃ us t rest, ts = us ++ t :: rest ∧
      f.found? = some t.kind.name ∧ f.pos? = some t.pos ∧
      (∀ vs, parse (us ++ t :: vs) = .error f) ∧
      (∃ vs p, (∀ v ∈ vs, v.Scanned) ∧ parse (us ++ vs) = .ok p) ∧
      ((ts.map Token.pos).Nodup → ∀ us' t' rest', ts = us' ++ t' :: rest' →
        f.pos? = some t'.pos → us' = us)) := by
  obtain ⟨f', hf', hhalts⟩ := exists_halts h
  cases hhalts with
  | token us t rest hts hblames hviable hsame =>
    obtain rfl := hf' hblames.ne_unusable
    constructor
    · intro hend
      have ht : t.Scanned := hscanned t (by simp [hts])
      exact absurd (Option.some.inj (hblames.found.symm.trans hend)) ht.name_ne
    · intro _
      refine ⟨us, t, rest, hts, hblames.found, hblames.pos, fun vs ↦ ?_,
        exists_parse_of_viable hviable, fun hnodup us' t' rest' hts' hpos ↦ ?_⟩
      · obtain ⟨rest', hrun⟩ := hsame (Context.of (us ++ t :: vs) Pos.origin) vs rfl
        exact parse_of_statements hblames.ne_unusable hrun
      · subst hts
        exact eq_of_pos_eq hnodup hts' (Option.some.inj (hblames.pos.symm.trans hpos))
  | ending wanted label hf hviable _ =>
    obtain ⟨p, hp⟩ : ∃ p, (Context.of ts Pos.origin).finish = .ok p :=
      exists_endPosition (fun t ht ↦ (hscanned t ht).form.2) Pos.origin
    rw [faultAt_nil hp] at hf
    subst hf
    obtain rfl := hf' (by simp)
    refine ⟨fun _ ↦ ?_, fun hne ↦ absurd rfl hne⟩
    obtain ⟨vs, q, hvs, hparse⟩ := exists_parse_of_viable hviable
    refine ⟨vs, q, ?_, hvs, hparse⟩
    rintro rfl
    rw [List.append_nil, h] at hparse
    cases hparse
  | template t ht hkind _ => exact absurd hkind (htemplate t ht)
  | lexeme t ht htext =>
    obtain ⟨w, hw⟩ := (hscanned t ht).form.2
    exact absurd hw (htext w)

/-- The source `1=x;`, which fails at the operator. -/
theorem parse_fails_first_sample :
    let ts : List Token :=
      [⟨.number, "1", ⟨1, 1⟩⟩, ⟨.mark .assign, "=", ⟨1, 2⟩⟩, ⟨.identifier, "x", ⟨1, 3⟩⟩,
       ⟨.mark .semicolon, ";", ⟨1, 4⟩⟩]
    let f : Fault := .badTarget (Expr.number (some ⟨1, 1⟩) "1").shown (.mark .assign) ⟨1, 2⟩
    tokenize "1=x;" Pos.origin = .ok ts ∧ parse ts = .error f ∧
      ∃ us t rest, ts = us ++ t :: rest ∧ f.found? = some t.kind.name ∧ f.pos? = some t.pos ∧
        (∀ vs, parse (us ++ t :: vs) = .error f) ∧
        ∃ vs p, (∀ v ∈ vs, v.Scanned) ∧ parse (us ++ vs) = .ok p := by
  intro ts f
  have htokens : tokenize "1=x;" Pos.origin = .ok ts := tokenize_of_toOption (by decide +kernel)
  have hparse : parse ts = .error f := rfl
  have hfirst := (parse_fails_first ts f (fun t ht ↦ ⟨_, _, ts, htokens, ht⟩) (by decide) hparse).2
    (by decide)
  obtain ⟨us, t, rest, hts, hfound, hpos, himpossible, hviable, -⟩ := hfirst
  exact ⟨htokens, hparse, us, t, rest, hts, hfound, hpos, himpossible, hviable⟩

/-! ## What a fault says -/

/-- Whether a fault is one of the lexer, or says what was wanted, what was found and where. -/
def Fault.Reported (f : Fault) : Prop :=
  (∃ e, f = .lexical e) ∨
    f.wanted?.isSome = true ∧ f.found?.isSome = true ∧ f.pos?.isSome = true

theorem Fault.Reported.ne_unusable (h : f.Reported) (u : Unusable) : f ≠ .unusable u := by
  rintro rfl
  obtain ⟨e, he⟩ | ⟨hwanted, -⟩ := h
  · cases he
  · cases hwanted

theorem Fault.Blames.reported {t : Token} (h : f.Blames t) : f.Reported :=
  .inr ⟨h.wanted, by simp [h.found], by simp [h.pos]⟩

theorem reported_faultAt {env : Context} {p : Pos} (h : env.finish = .ok p) (wanted : Wanted)
    (label : Text) (ts : List Token) : (faultAt wanted label env ts).Reported := by
  cases ts with
  | nil =>
    rw [faultAt_nil h]
    exact .inr ⟨rfl, rfl, rfl⟩
  | cons t ts => exact .inr ⟨rfl, rfl, rfl⟩

/-- Where a rule halts, it reports a fault, provided that every token has a text and that faults in
the holes of templates are reported. -/
theorem Halts.reported {α : Type} {env : Context} {p : Parse α} {L : Language Token}
    (h : Halts env p L ts f) {finish : Pos} (hfinish : env.finish = .ok finish)
    (hholes : ∀ ⦃source pos f⦄, env.hole source pos = .error f → f.Reported)
    (htext : ∀ t ∈ ts, ∃ w, t.lexeme = .text w) : f.Reported := by
  cases h with
  | token us t rest hts hblames => exact hblames.reported
  | ending wanted label hf =>
    rw [hf]
    exact reported_faultAt hfinish wanted label []
  | template t ht hkind hf =>
    obtain rfl | ⟨hole, -, hhole⟩ := hf
    · exact .inr ⟨rfl, rfl, rfl⟩
    · exact hholes hhole
  | lexeme t ht hnone =>
    obtain ⟨w, hw⟩ := htext t ht
    exact absurd hw (hnone w)

theorem text_of_tokenize {source : Text} {start : Pos} (h : tokenize source start = .ok ts) :
    ∀ t ∈ ts, ∃ w, t.lexeme = .text w :=
  fun _ ht ↦ (Token.Scanned.form ⟨source, start, ts, h, ht⟩).2

theorem reported_standalone {env : Context} {finish : Pos} (hfinish : env.finish = .ok finish)
    (hholes : ∀ ⦃source pos f⦄, env.hole source pos = .error f → f.Reported)
    (htext : ∀ t ∈ ts, ∃ w, t.lexeme = .text w) {rest : List Token}
    (h : standalone env ts = .error f rest) : f.Reported := by
  obtain hexpr | ⟨e, mid, -, hend⟩ := bind_eq_error.mp h
  · exact ((tracks_expr (readsOnly_filled _)).error hexpr).reported hfinish hholes htext
  · obtain hcheck | ⟨b, _, -, hwant⟩ := bind_eq_error.mp hend
    · cases hcheck
    · cases b with
      | true => cases hwant
      | false =>
        cases hwant
        exact reported_faultAt hfinish _ _ _

/-- Where the source of a hole cannot be read, the fault is reported. -/
theorem reported_holeAt (n : Nat) :
    ∀ ⦃source pos f⦄, holeAt n source pos = .error f → f.Reported := by
  induction n with
  | zero =>
    intro source pos f h
    obtain rfl := Except.error.inj h
    exact .inr ⟨rfl, rfl, rfl⟩
  | succ n ih =>
    intro source pos f h
    rw [holeAt_succ] at h
    split at h
    · obtain rfl := Except.error.inj h
      exact .inl ⟨_, rfl⟩
    · rename_i ts htokens
      have htext := text_of_tokenize htokens
      obtain ⟨finish, hfinish⟩ := exists_endPosition htext pos
      split at h
      · cases h
      · obtain rfl := Except.error.inj h
        exact reported_standalone hfinish ih htext ‹_›

/-- Parsing the tokens of a source fails because a rule for statements halts, and reports the fault
of that rule. -/
theorem halts_of_parse {source : Text} {start : Pos} (htokens : tokenize source start = .ok ts)
    (h : parse ts = .error f) : f.Reported ∧
      Halts (Context.of ts Pos.origin) (untilKind [.endOfInput] stmt) programs ts f := by
  obtain ⟨f', hf', hhalts⟩ := exists_halts h
  have htext := text_of_tokenize htokens
  obtain ⟨finish, hfinish⟩ : ∃ finish, (Context.of ts Pos.origin).finish = .ok finish :=
    exists_endPosition htext Pos.origin
  have hreported := hhalts.reported hfinish (fun _ _ _ hhole ↦ reported_holeAt _ hhole) htext
  rw [hf' hreported.ne_unusable]
  exact ⟨hreported, hhalts⟩

/-- **Parsing the tokens of a source reports its faults.** -/
theorem reported_of_parse {source : Text} {start : Pos} (htokens : tokenize source start = .ok ts)
    (h : parse ts = .error f) : f.Reported := (halts_of_parse htokens h).1

end Grammar

end Advplc

import Advplc.Lowering.Session

/-!
# What a file consists of

With an indentation, and without an option that does not exist, a file is generated for a program if
and only if code is generated for its statements.  The file then consists of the lines of the header
and the lines of the code (`generate_eq_ok_iff`), each ended by a line feed, so a file may be cut
between any two of its lines (`file_append`).
-/

set_option autoImplicit false

namespace Advplc.Target

theorem render_outer (indent : Text) (t : Text) : (outer t).render indent 0 = t := by
  show (if t.isEmpty then [] else [] ++ t) = t
  split
  · exact (List.isEmpty_iff.mp ‹_›).symm
  · rfl

theorem map_render_outer (indent : Text) (ts : List Text) :
    (ts.map outer).map (Entry.render indent 0) = ts := by
  induction ts with
  | nil => rfl
  | cons t ts ih => rw [List.map_cons, List.map_cons, ih, render_outer]

/-- The lines of a file, each with a line feed behind it. -/
def body (lines : List Text) : Text := lines.flatMap fun line ↦ line ++ [.scalar '\n']

theorem file_eq_body {lines : List Text} (h : lines ≠ []) : file lines = body lines := by
  induction lines with
  | nil => exact absurd rfl h
  | cons line lines ih =>
    cases lines with
    | nil => simp [file, body, Text.joinWith, Text.ofString]
    | cons line' lines =>
      have hrest := ih (List.cons_ne_nil _ _)
      simp only [file, Text.joinWith, body, List.flatMap_cons, List.intercalate_cons_cons,
        List.append_assoc] at hrest ⊢
      rw [hrest]
      rfl

/-- **A file may be cut between its lines.** -/
theorem file_append {lines : List Text} (h : lines ≠ []) (more : List Text) :
    file (lines ++ more) = file lines ++ body more := by
  rw [file_eq_body h, file_eq_body (List.append_ne_nil_of_left_ne_nil h more), body, body,
    List.flatMap_append, body]

theorem header_ne_nil (since : Option Text) : header since ≠ [] := List.cons_ne_nil _ _

end Advplc.Target

namespace Advplc.Lowering

open Target (Code Options)

variable {options : Options} {indent : Text}

/-! ## Writing lines -/

theorem Session.write_nil (s : Session) : s.write [] = (s, .ok ()) := by
  rw [Session.write]
  split
  · rw [List.map_nil, List.append_nil]
  · simp only [List.takeWhile_nil, List.dropWhile_nil, List.map_nil, List.append_nil]

/-- The first of several lines is written, or nothing is. -/
theorem Session.write_cons (s : Session) (e : Target.Entry) (es : List Target.Entry) :
    s.write (e :: es) =
      if e.text.isEmpty ∨ s.options.indent.isSome then
        { s with lines := s.lines ++
          [Target.indented (s.options.indent.getD []) (s.level + e.depth) e.text] }.write es
      else ({ s with level := s.level + e.depth }, .error .noIndent) := by
  cases hindent : s.options.indent with
  | some indent =>
    rw [if_pos (.inr rfl)]
    simp only [Session.write, hindent, List.map_cons, Target.Entry.render, List.append_assoc]
    rfl
  | none =>
    by_cases hblank : e.isBlank = true
    · have htext : Target.indented [] (s.level + e.depth) e.text = e.text := by
        exact (if_pos hblank).trans (List.isEmpty_iff.mp hblank).symm
      rw [if_pos (.inl hblank), Option.getD_none, htext]
      simp only [Session.write, hindent, List.takeWhile_cons_of_pos hblank,
        List.dropWhile_cons_of_pos hblank, List.map_cons, List.append_assoc]
      rfl
    · have hstop : ¬(e.text.isEmpty ∨ (none : Option Text).isSome) := not_or_intro hblank nofun
      rw [if_neg hstop]
      simp only [Session.write, hindent, List.takeWhile_cons_of_neg hblank,
        List.dropWhile_cons_of_neg hblank, List.map_nil, List.append_nil]

/-! ## Files -/

/-- The lines of code at the outermost level. -/
def codeLines (indent : Text) (code : List Code) : List Text :=
  (Code.entriesAll code).map (Target.Entry.render indent 0)

theorem codeLines_append (indent : Text) (cs ds : List Code) :
    codeLines indent (cs ++ ds) = codeLines indent cs ++ codeLines indent ds := by
  rw [codeLines, Code.entriesAll_append, List.map_append, codeLines, codeLines]

theorem generate_eq_session (hknown : options.unknown = none) (p : Script.Program) :
    generate options (.program p) = (Session.generate { options } (.program p)).2 := by
  rw [generate, Session.start, hknown]
  rfl

/-- With an indentation, the header is written. -/
theorem Session.header_eq {s : Session} (hindent : s.options.indent = some indent) :
    Session.header { s with lines := [], level := 0 } =
      ({ s with lines := Target.header s.options.since, level := 0 }, .ok ()) := by
  simp only [Session.header, Session.write, hindent, Target.map_render_outer, List.nil_append]

/-- Without an indentation, the first line of the header cannot be written. -/
theorem Session.exists_header_eq {s : Session} (hindent : s.options.indent = none) :
    ∃ u, Session.header { s with lines := [], level := 0 } = (u, .error .noIndent) := by
  rw [Session.header, Session.write, hindent]
  exact ⟨_, rfl⟩

/-- A file is generated exactly where code is. -/
theorem generate_eq (hindent : options.indent = some indent) (hknown : options.unknown = none)
    (p : Script.Program) : generate options (.program p) =
      match lowerStmts options.functionWords none p.body with
      | .ok code => .ok (Target.file (Target.header options.since ++ codeLines indent code))
      | .error k => .error (.refused k.error) := by
  rw [generate_eq_session hknown, Session.generate, Session.header_eq hindent]
  simp only [Session.code, Session.writeCode]
  cases lowerStmts options.functionWords none p.body with
  | ok code => simp only [Session.write, hindent]; rfl
  | error k => simp only [Session.write, hindent]

theorem unknown_of_generate {root : Script.Root} {file : Text}
    (h : generate options root = .ok file) : options.unknown = none := by
  rw [generate, Session.start] at h
  split at h
  · cases h
  · assumption

theorem generate_noIndent (hindent : options.indent = none) (hknown : options.unknown = none)
    (p : Script.Program) : generate options (.program p) = .error .noIndent := by
  obtain ⟨s, hheader⟩ := Session.exists_header_eq (s := { options }) hindent
  rw [generate_eq_session hknown, Session.generate, hheader]

/-- The lines that are left behind where a file was generated. -/
theorem Session.lines_of_generate {s s' : Session} {p : Script.Program} {file : Text}
    (h : s.generate (.program p) = (s', .ok file)) :
    ∃ indent code, s.options.indent = some indent ∧
      lowerStmts s.options.functionWords none p.body = .ok code ∧
      s'.lines = Target.header s.options.since ++ codeLines indent code := by
  rcases hindent : s.options.indent with _ | indent
  · obtain ⟨u, hheader⟩ := Session.exists_header_eq hindent
    rw [Session.generate, hheader] at h
    cases h
  · rw [Session.generate, Session.header_eq hindent] at h
    rcases hcode : lowerStmts s.options.functionWords none p.body with k | code
    · simp only [Session.code, hcode, Session.writeCode, Session.write, hindent] at h
      cases h
    · simp only [Session.code, hcode, Session.writeCode, Session.write, hindent] at h
      cases h
      exact ⟨indent, code, rfl, rfl, rfl⟩

/-- **What is generated for a program:** the header, and the code of the statements. -/
theorem generate_eq_ok_iff {p : Script.Program} {file : Text} :
    generate options (.program p) = .ok file ↔ ∃ indent code, options.indent = some indent ∧
      options.unknown = none ∧ lowerStmts options.functionWords none p.body = .ok code ∧
      file = Target.file (Target.header options.since ++ codeLines indent code) := by
  constructor
  · intro h
    have hknown := unknown_of_generate h
    cases hindent : options.indent with
    | none =>
      rw [generate_noIndent hindent hknown] at h
      cases h
    | some indent =>
      rw [generate_eq hindent hknown] at h
      split at h
      · cases h
        exact ⟨indent, _, rfl, hknown, ‹_›, rfl⟩
      · cases h
  · rintro ⟨indent, code, hindent, hknown, hcode, rfl⟩
    rw [generate_eq hindent hknown, hcode]

end Advplc.Lowering

import Advplc.Pos

/-!
# Template literals as chunks and holes

Between its backticks a template is text with holes: `${`, an expression, `}`.  An `Outline` is how
a template falls into chunks and holes.  The chunks are still escaped, so that a backslash can hide
the dollar sign of what would otherwise be a hole; the holes are sources, with the positions at
which they begin.

A hole ends at the brace that closes it, where braces inside string literals do not count.  If there
is none, the outline ends with an open hole.
-/

set_option autoImplicit false

namespace Advplc.Grammar

/-- How a template falls into chunks and holes. -/
inductive Outline where
  /-- The last chunk. -/
  | last (chunk : Text)
  /-- A chunk, then a hole that begins at `pos`, then the rest of the template. -/
  | hole (chunk source : Text) (pos : Pos) (rest : Outline)
  /-- A chunk, then a hole that is not closed. -/
  | unclosed (chunk : Text)
deriving DecidableEq

namespace Outline

/-- The first chunk of a template and, if a hole follows it, what stands behind the `${`. -/
def chunk : Text → Text × Option Text
  | .scalar '\\' :: c :: rest => ('\\' :: c :: (chunk rest).1, (chunk rest).2)
  | .scalar '$' :: .scalar '{' :: rest => ([], some rest)
  | c :: rest => (c :: (chunk rest).1, (chunk rest).2)
  | [] => ([], none)

/-- A hole whose source has one more code point in front. -/
def push (c : CodePoint) (found : Option (Text × Text)) : Option (Text × Text) :=
  found.map fun (text, behind) ↦ (c :: text, behind)

/-- The source of a hole and what stands behind its closing brace.  `depth` braces are open inside
the hole, and `quote` is the quote of the string literal that is open, if one is. -/
def source (depth : Nat) (quote : Option CodePoint) : Text → Option (Text × Text)
  | [] => none
  | c :: rest =>
    match quote with
    | some q =>
      if c = q then push c (source depth none rest)
      else if c = '\\' then
        match rest with
        | [] => none
        | d :: rest => push c (push d (source depth (some q) rest))
      else push c (source depth (some q) rest)
    | none =>
      if c = '\'' ∨ c = '"' then push c (source depth (some c) rest)
      else if c = '{' then push c (source (depth + 1) none rest)
      else if c = '}' then
        match depth with
        | 0 => some ([], rest)
        | d + 1 => push c (source d none rest)
      else push c (source depth none rest)

theorem push_eq_some {c : CodePoint} {found : Option (Text × Text)} {text behind : Text}
    (h : push c found = some (text, behind)) :
    ∃ text', found = some (text', behind) ∧ text = c :: text' := by
  simp only [push, Option.map_eq_some_iff, Prod.mk.injEq, Prod.exists] at h
  obtain ⟨text', _, hf, rfl, rfl⟩ := h
  exact ⟨text', hf, rfl⟩

/-- What stands behind a chunk is shorter than the template. -/
theorem length_of_chunk {t behind : Text} (h : (chunk t).2 = some behind) :
    behind.length < t.length := by
  fun_induction chunk t with
  | case1 c rest ih => have := ih h; simp only [List.length_cons]; omega
  | case2 rest => simp only [Option.some.injEq] at h; subst h; simp only [List.length_cons]; omega
  | case3 c rest _ _ ih => have := ih h; simp only [List.length_cons]; omega
  | case4 => exact absurd h (by simp)

/-- A hole is closed by a brace. -/
theorem eq_append_of_source {d : Nat} {q : Option CodePoint} {t text behind : Text}
    (h : source d q t = some (text, behind)) : t = text ++ .scalar '\x7d' :: behind := by
  fun_induction source d q t generalizing text with
  | case1 | case3 => cases h
  | case8 => cases h; simp
  | case4 _ _ _ _ _ ih =>
    obtain ⟨_, hrest, rfl⟩ := push_eq_some h
    obtain ⟨_, hbehind, rfl⟩ := push_eq_some hrest
    rw [List.cons_append, List.cons_append, ← ih hbehind]
  | case2 _ _ _ ih | case5 _ _ _ _ _ _ ih | case6 _ _ _ _ ih | case7 _ _ _ ih | case9 _ _ _ _ ih
  | case10 _ _ _ _ _ _ ih =>
    obtain ⟨_, hrest, rfl⟩ := push_eq_some h
    rw [List.cons_append, ← ih hrest]

/-- A hole and what stands behind it are shorter than what they were found in. -/
theorem length_of_source {d : Nat} {q : Option CodePoint} {t text behind : Text}
    (h : source d q t = some (text, behind)) : text.length + behind.length < t.length := by
  rw [eq_append_of_source h, List.length_append, List.length_cons]
  omega

/-- The outline of a template whose text begins at `p`. -/
def of (p : Pos) (t : Text) : Outline :=
  match _ : (chunk t).2 with
  | none => .last (chunk t).1
  | some behind =>
    let start := p.advance ((chunk t).1 ++ "$\x7b")
    match _ : source 0 none behind with
    | none => .unclosed (chunk t).1
    | some (text, rest) =>
      .hole (chunk t).1 text start (Outline.of (start.advance (text ++ "\x7d")) rest)
termination_by t.length
decreasing_by
  have h₁ := length_of_chunk ‹(chunk t).2 = some behind›
  have h₂ := length_of_source ‹source 0 none behind = some (text, rest)›
  omega

end Outline

end Advplc.Grammar

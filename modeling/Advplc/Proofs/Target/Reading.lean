import Advplc.Target.Expr

/-!
# Reading string expressions

A string in generated code is a concatenation of `Operand`s: literals, which have no escapes and end
at the next quote of their own, and the constant for a line break.  `readString` reads such an
expression from its text alone, with or without parentheses around it.

What a string stands for is a sequence of `Sign`s, code points and line breaks.  `Text.signs` says
which signs a text consists of: a line feed is a line break, alone or together with a carriage
return before it.  The main result is `readString_ofText`: what is written for a text is read as
operands that stand for the signs of the text.
-/

set_option autoImplicit false

namespace Advplc.Target

/-- An operand of a concatenation of strings. -/
inductive Operand where
  | literal (quote : CodePoint) (text : Text)
  | lineBreak
deriving DecidableEq

/-- What a string consists of. -/
inductive Sign where
  | point (c : CodePoint)
  | lineBreak
deriving DecidableEq

/-- The signs of a text. -/
def signs : Text → List Sign
  | .scalar '\r' :: .scalar '\n' :: rest => .lineBreak :: signs rest
  | .scalar '\n' :: rest => .lineBreak :: signs rest
  | c :: rest => .point c :: signs rest
  | [] => []

namespace Operand

/-- The signs that an operand stands for. -/
def signs : Operand → List Sign
  | literal _ t => t.map .point
  | lineBreak => [.lineBreak]

/-- An operand as text. -/
def print : Operand → Text
  | literal q t => q :: t ++ [q]
  | lineBreak => lineBreakConstant

/-- A literal stands between quotes, which do not occur inside, and on one line. -/
def Sound : Operand → Prop
  | literal q t => (q = '"' ∨ q = '\'') ∧ q ∉ t ∧ (.scalar '\n') ∉ t
  | lineBreak => True

/-- Reads the rest of a literal, up to the next `quote`. -/
def readLiteral (quote : CodePoint) : Text → Option (Operand × Text)
  | [] => none
  | c :: rest =>
    if c = quote then some (literal quote [], rest)
    else match readLiteral quote rest with
      | some (literal q t, rest) => some (literal q (c :: t), rest)
      | _ => none

/-- Reads the operand that a text begins with. -/
def read : Text → Option (Operand × Text)
  | .scalar '"' :: rest => readLiteral '"' rest
  | .scalar '\'' :: rest => readLiteral '\'' rest
  | .scalar 'C' :: .scalar 'R' :: .scalar 'L' :: .scalar 'F' :: rest => some (lineBreak, rest)
  | _ => none

theorem length_readLiteral {quote : CodePoint} {t rest : Text} {o : Operand}
    (h : readLiteral quote t = some (o, rest)) : rest.length < t.length := by
  fun_induction readLiteral quote t generalizing o rest with
  | case1 => cases h
  | case2 => cases h; exact Nat.lt_succ_self _
  | case3 c t _ q inside rest' hinside ih =>
    cases h
    exact Nat.lt_succ_of_lt (ih hinside)
  | case4 => cases h

theorem length_read {t rest : Text} {o : Operand} (h : read t = some (o, rest)) :
    rest.length < t.length := by
  fun_cases read t with
  | case1 t | case2 t => exact Nat.lt_succ_of_lt (length_readLiteral h)
  | case3 t =>
    cases h
    simp only [List.length_cons]
    omega
  | case4 => simp_all [read]

end Operand

/-- Reads operands with plus signs between them. -/
def readSum (t : Text) : Option (List Operand) :=
  match _ : Operand.read t with
  | some (o, []) => some [o]
  | some (o, .scalar ' ' :: .scalar '+' :: .scalar ' ' :: rest) => (readSum rest).map (o :: ·)
  | _ => none
termination_by t.length
decreasing_by
  have := Operand.length_read ‹_›
  simp only [List.length_cons] at this
  omega

/-- Reads a concatenation, which may stand in parentheses. -/
def readString : Text → Option (List Operand)
  | .scalar '(' :: rest =>
    if rest.getLast? = some (.scalar ')') then readSum rest.dropLast else none
  | t => readSum t

/-! ## Reading what was written -/

section Reading

variable {o : Operand} {os : List Operand}

theorem Operand.readLiteral_append {quote : CodePoint} {t : Text} (h : quote ∉ t) (rest : Text) :
    readLiteral quote (t ++ quote :: rest) = some (literal quote t, rest) := by
  induction t with
  | nil => rw [List.nil_append, readLiteral, if_pos rfl]
  | cons c t ih =>
    rw [List.mem_cons, not_or] at h
    rw [List.cons_append, readLiteral, if_neg (Ne.symm h.1), ih h.2]

theorem Operand.read_print (h : o.Sound) (rest : Text) :
    read (o.print ++ rest) = some (o, rest) := by
  cases o with
  | lineBreak => rfl
  | literal q t =>
    have hprint : (literal q t).print ++ rest = q :: (t ++ q :: rest) := by simp [print]
    rw [hprint]
    obtain ⟨rfl | rfl, hq, -⟩ := h
    · exact readLiteral_append hq rest
    · exact readLiteral_append hq rest

theorem readSum_eq {t : Text} : readSum t = match Operand.read t with
    | some (o, []) => some [o]
    | some (o, .scalar ' ' :: .scalar '+' :: .scalar ' ' :: rest) => (readSum rest).map (o :: ·)
    | _ => none := by
  rw [readSum]
  split <;> simp_all

theorem sum_singleton (x : Text) : sum [x] = x := by
  rw [sum, Text.joinWith, List.intercalate_singleton]

theorem sum_cons_cons (x y : Text) (l : List Text) :
    sum (x :: y :: l) = x ++ .scalar ' ' :: .scalar '+' :: .scalar ' ' :: sum (y :: l) := by
  simp [sum, Text.joinWith, Text.ofString, List.intercalate_cons_cons]

/-- Operands are read back from their sum. -/
theorem readSum_sum (hne : os ≠ []) (h : ∀ o ∈ os, o.Sound) :
    readSum (sum (os.map Operand.print)) = some os := by
  induction os with
  | nil => exact absurd rfl hne
  | cons o os ih =>
    have ho : o.Sound := h o List.mem_cons_self
    cases os with
    | nil =>
      have hread := Operand.read_print ho []
      rw [List.append_nil] at hread
      rw [List.map_cons, List.map_nil, sum_singleton, readSum_eq, hread]
    | cons o' os =>
      have hrest := ih (List.cons_ne_nil _ _) fun o ho ↦ h o (List.mem_cons_of_mem _ ho)
      rw [List.map_cons, List.map_cons, sum_cons_cons, readSum_eq, Operand.read_print ho]
      simp only [← List.map_cons, hrest, Option.map_some]

/-- What begins a sum of operands does not open parentheses. -/
theorem readString_sum (hne : os ≠ []) (h : ∀ o ∈ os, o.Sound) :
    readString (sum (os.map Operand.print)) = some os := by
  rw [← readSum_sum hne h, readString]
  intro rest hrest
  have hread := readSum_sum hne h
  rw [hrest, readSum_eq] at hread
  cases hread

theorem readString_group (hne : os ≠ []) (h : ∀ o ∈ os, o.Sound) :
    readString ("(" ++ sum (os.map Operand.print) ++ ")") = some os := by
  rw [← readSum_sum hne h]
  generalize sum (os.map Operand.print) = t
  have htext : ("(" ++ t ++ ")" : Text) = .scalar '(' :: (t ++ [.scalar ')']) := by
    simp [Text.ofString]
  rw [htext, readString, List.getLast?_append, List.dropLast_concat]
  rfl

end Reading

/-! ## Cutting texts -/

section Cutting

variable {α : Type} {sep : CodePoint}

theorem splitAt_ne_nil (t : Text) : Text.splitAt sep t ≠ [] := by
  fun_cases Text.splitAt sep t <;> simp

/-- The parts of a text with the separator in between are the text. -/
theorem intercalate_splitAt (f : CodePoint → α) (x : α) (t : Text) :
    List.intercalate [x] ((Text.splitAt sep t).map (List.map f)) =
      t.map fun c ↦ if c = sep then x else f c := by
  fun_induction Text.splitAt sep t with
  | case1 => rfl
  | case2 rest ih =>
    rw [List.map_cons, List.intercalate_cons_of_ne_nil (by simpa using splitAt_ne_nil rest), ih,
      List.map_cons, if_pos rfl]
    rfl
  | case3 c rest _ hnil => exact absurd hnil (splitAt_ne_nil rest)
  | case4 c rest hc part parts hparts ih =>
    rw [hparts] at ih
    simp only [List.map_cons, if_neg hc, ← ih]
    cases parts <;> simp [List.intercalate_cons_cons]

theorem mem_splitAt {t part : Text} {c : CodePoint} (hpart : part ∈ Text.splitAt sep t)
    (hc : c ∈ part) : c ∈ t ∧ c ≠ sep := by
  fun_induction Text.splitAt sep t generalizing part with
  | case1 => simp_all
  | case2 rest ih =>
    obtain rfl | hpart := List.mem_cons.mp hpart
    · cases hc
    · exact ⟨List.mem_cons_of_mem _ (ih hpart hc).1, (ih hpart hc).2⟩
  | case3 c rest _ hnil => exact absurd hnil (splitAt_ne_nil rest)
  | case4 d rest hd first parts hparts ih =>
    rw [hparts] at ih
    obtain rfl | hpart := List.mem_cons.mp hpart
    · obtain rfl | hc := List.mem_cons.mp hc
      · exact ⟨List.mem_cons_self, hd⟩
      · exact ⟨List.mem_cons_of_mem _ (ih List.mem_cons_self hc).1, (ih List.mem_cons_self hc).2⟩
    · have hrest := ih (List.mem_cons_of_mem _ hpart) hc
      exact ⟨List.mem_cons_of_mem _ hrest.1, hrest.2⟩

/-- The signs of a text are those of its lines, with line breaks in between. -/
theorem signs_eq (t : Text) : signs t =
    List.intercalate [.lineBreak] (t.joinLineEnds.lines.map (List.map Sign.point)) := by
  rw [Text.lines, intercalate_splitAt]
  fun_induction signs t with
  | case1 rest ih => rw [Text.joinLineEnds, List.map_cons, if_pos rfl, ih]
  | case2 rest ih => rw [Text.joinLineEnds, List.map_cons, if_pos rfl, ih]; simp
  | case3 c rest hreturn hfeed ih =>
    rw [Text.joinLineEnds, List.map_cons, if_neg hfeed, ih]
    exact hreturn
  | case4 => rfl

end Cutting

/-! ## Texts as operands -/

/-- The operands that a literal is written as. -/
def quotedOperands (t : Text) : List Operand :=
  if CodePoint.scalar '"' ∉ t then [.literal '"' t]
  else if CodePoint.scalar '\'' ∉ t then [.literal '\'' t]
  else ((Text.splitAt '"' t).map (.literal '"')).intersperse (.literal '\'' "\"")

/-- The operands of a piece of text; the value of an expression is none. -/
def Piece.operands : Piece → List Operand
  | .literal t => quotedOperands t
  | .lineBreak => [.lineBreak]
  | .value _ => []

section Operands

theorem map_intersperse {α β : Type} (f : α → β) (x : α) (l : List α) :
    (l.intersperse x).map f = (l.map f).intersperse (f x) := by
  induction l with
  | nil => rfl
  | cons a l ih =>
    cases l with
    | nil => rfl
    | cons b l => simpa using ih

theorem intersperse_ne_nil {α : Type} {l : List α} (h : l ≠ []) (x : α) : l.intersperse x ≠ [] := by
  match l, h with
  | [_], _ | _ :: _ :: _, _ => simp

theorem sum_cons_of_ne_nil {l : List Text} (h : l ≠ []) (x : Text) :
    sum (x :: l) = x ++ " + " ++ sum l := List.intercalate_cons_of_ne_nil h

theorem sum_intersperse (x : Text) (l : List Text) :
    sum (l.intersperse x) = Text.joinWith (" + " ++ x ++ " + ") l := by
  induction l with
  | nil => rfl
  | cons a l ih =>
    cases l with
    | nil => rfl
    | cons b l =>
      have hne : (b :: l).intersperse x ≠ [] := intersperse_ne_nil (List.cons_ne_nil b l) x
      rw [List.intersperse_cons_cons, sum_cons_of_ne_nil (List.cons_ne_nil _ _),
        sum_cons_of_ne_nil hne, ih, Text.joinWith, Text.joinWith, List.intercalate_cons_cons]
      simp only [List.append_assoc]

theorem quotedOperands_ne_nil (t : Text) : quotedOperands t ≠ [] := by
  rw [quotedOperands]
  split
  · exact List.cons_ne_nil _ _
  · split
    · exact List.cons_ne_nil _ _
    · exact intersperse_ne_nil (by simpa using splitAt_ne_nil t) _

theorem quote_eq (t : Text) : quote t = sum ((quotedOperands t).map Operand.print) := by
  rw [quote, quotedOperands]
  split
  · simp [sum, Text.joinWith, Operand.print, Text.ofString]
  · split
    · simp [sum, Text.joinWith, Operand.print, Text.ofString]
    · rw [map_intersperse, sum_intersperse, List.map_map]
      simp [Operand.print, Text.ofString, Function.comp_def]

/-- What a literal is written as stands for the literal. -/
theorem signs_quotedOperands (t : Text) :
    (quotedOperands t).flatMap Operand.signs = t.map .point := by
  rw [quotedOperands]
  split
  · simp [Operand.signs]
  · split
    · simp [Operand.signs]
    · have hparts : Operand.signs ∘ Operand.literal '"' = List.map Sign.point := rfl
      have hquote : (Operand.literal '\'' "\"").signs = [Sign.point '"'] := rfl
      rw [List.flatMap_def, map_intersperse, List.map_map, hparts, hquote]
      refine (intercalate_splitAt Sign.point (.point '"') t).trans
        (List.map_congr_left fun c _ ↦ ?_)
      split
      · rename_i hc
        rw [hc]
      · rfl

theorem mem_intersperse {α : Type} {a x : α} {l : List α} (h : a ∈ l.intersperse x) :
    a = x ∨ a ∈ l := by
  induction l with
  | nil => cases h
  | cons b l ih =>
    cases l with
    | nil => exact .inr h
    | cons c l =>
      rw [List.intersperse_cons_cons, List.mem_cons, List.mem_cons] at h
      obtain rfl | rfl | h := h
      · exact .inr List.mem_cons_self
      · exact .inl rfl
      · exact (ih h).imp_right (List.mem_cons_of_mem b)

/-- What a text is written as are literals of parts of it, without their own quotes. -/
theorem exists_of_mem_quotedOperands {t : Text} {o : Operand} (h : o ∈ quotedOperands t) :
    ∃ q part, o = .literal q part ∧ (q = '"' ∨ q = '\'') ∧ q ∉ part ∧ part ⊆ t := by
  rw [quotedOperands] at h
  split at h
  · exact ⟨_, _, List.mem_singleton.mp h, .inl rfl, ‹_›, List.Subset.refl t⟩
  · split at h
    · exact ⟨_, _, List.mem_singleton.mp h, .inr rfl, ‹_›, List.Subset.refl t⟩
    · rename_i hquote _
      obtain rfl | h := mem_intersperse h
      · refine ⟨_, _, rfl, .inr rfl, by decide, fun c hc ↦ ?_⟩
        rw [List.mem_singleton.mp hc]
        exact Decidable.not_not.mp hquote
      · obtain ⟨part, hpart, rfl⟩ := List.mem_map.mp h
        exact ⟨_, _, rfl, .inl rfl, fun hc ↦ (mem_splitAt hpart hc).2 rfl,
          fun c hc ↦ (mem_splitAt hpart hc).1⟩

/-- What a line is written as are literals without their own quotes. -/
theorem sound_quotedOperands {t : Text} (h : (.scalar '\n') ∉ t) :
    ∀ o ∈ quotedOperands t, o.Sound := by
  intro o ho
  obtain ⟨q, part, rfl, hquote, hq, hpart⟩ := exists_of_mem_quotedOperands ho
  exact ⟨hquote, hq, fun hfeed ↦ h (hpart hfeed)⟩

/-- Whether a piece is text, and not the value of an expression. -/
def Piece.isText : Piece → Bool
  | .literal _ | .lineBreak => true
  | .value _ => false

theorem Piece.operands_ne_nil {p : Piece} (h : p.isText = true) : p.operands ≠ [] := by
  cases p with
  | literal t => exact quotedOperands_ne_nil t
  | lineBreak => exact List.cons_ne_nil _ _
  | value e => cases h

theorem Piece.print_eq {p : Piece} (h : p.isText = true) :
    p.print = sum (p.operands.map Operand.print) := by
  cases p with
  | literal t => rw [print, quote_eq, operands]
  | lineBreak => exact (sum_singleton _).symm
  | value e => cases h

theorem sum_append {l l' : List Text} (h : l ≠ []) (h' : l' ≠ []) :
    sum (l ++ l') = sum l ++ " + " ++ sum l' := by
  induction l with
  | nil => exact absurd rfl h
  | cons x l ih =>
    cases l with
    | nil =>
      rw [List.singleton_append, sum_cons_of_ne_nil h', sum_singleton]
    | cons y l =>
      rw [List.cons_append, sum_cons_of_ne_nil (by simp), ih (List.cons_ne_nil y l),
        sum_cons_of_ne_nil (List.cons_ne_nil y l)]
      simp only [List.append_assoc]

/-- A sum of pieces is the sum of what each of them is a sum of. -/
theorem sum_printAll_eq {f : Piece → List Text} {ps : List Piece}
    (h : ∀ p ∈ ps, f p ≠ [] ∧ p.print = sum (f p)) :
    sum (Piece.printAll ps) = sum (ps.flatMap f) := by
  induction ps with
  | nil => rfl
  | cons p ps ih =>
    obtain ⟨⟨hne, hp⟩, hps⟩ := List.forall_mem_cons.mp h
    rw [Piece.printAll, List.flatMap_cons]
    rcases ps with _ | ⟨q, qs⟩
    · rw [Piece.printAll, sum_singleton, hp, List.flatMap_nil, List.append_nil]
    · have hrest : (q :: qs).flatMap f ≠ [] := by
        simp [(hps q List.mem_cons_self).1]
      rw [sum_cons_of_ne_nil (by simp [Piece.printAll]), ih hps, hp, sum_append hne hrest]

theorem sum_printAll {ps : List Piece} (h : ∀ p ∈ ps, p.isText = true) :
    sum (Piece.printAll ps) = sum ((ps.flatMap Piece.operands).map Operand.print) := by
  rw [List.map_flatMap]
  refine sum_printAll_eq fun p hp ↦ ⟨fun hnil ↦ ?_, Piece.print_eq (h p hp)⟩
  exact Piece.operands_ne_nil (h p hp) (List.map_eq_nil_iff.mp hnil)

/-- **A concatenation of texts is read as the operands of its pieces.** -/
theorem readString_concat {ps : List Piece} (hne : ps ≠ []) (h : ∀ p ∈ ps, p.isText = true)
    (hsound : ∀ o ∈ ps.flatMap Piece.operands, o.Sound) :
    readString (Expr.concat ps).print = some (ps.flatMap Piece.operands) := by
  match ps with
  | [] => exact absurd rfl hne
  | [p] =>
    have hp := h p (List.mem_singleton_self p)
    rw [List.flatMap_singleton] at hsound ⊢
    rw [Expr.print, Piece.printAll, Piece.printAll, groupedSum, Piece.print_eq hp,
      readString_sum (Piece.operands_ne_nil hp) hsound]
  | p :: q :: ps =>
    have hoperands : (p :: q :: ps).flatMap Piece.operands ≠ [] := by
      simp [Piece.operands_ne_nil (h p List.mem_cons_self)]
    have hgroup : groupedSum (Piece.printAll (p :: q :: ps)) =
        "(" ++ sum (Piece.printAll (p :: q :: ps)) ++ ")" := rfl
    rw [Expr.print, hgroup, sum_printAll h, readString_group hoperands hsound]

theorem flatMap_intercalate {α β : Type} (f : α → List β) (sep : List α) (ls : List (List α)) :
    (List.intercalate sep ls).flatMap f =
      List.intercalate (sep.flatMap f) (ls.map (List.flatMap f)) := by
  induction ls with
  | nil => rfl
  | cons l ls ih =>
    cases ls with
    | nil => simp
    | cons l' ls =>
      simp only [List.intercalate_cons_cons, List.flatMap_append, ih, List.map_cons]

theorem mem_intercalate {α : Type} {a x : α} {ls : List (List α)}
    (h : a ∈ List.intercalate [x] ls) : a = x ∨ ∃ l ∈ ls, a ∈ l := by
  rw [List.intercalate, List.mem_flatten] at h
  obtain ⟨l, hl, ha⟩ := h
  obtain rfl | hl := mem_intersperse hl
  · exact .inl (List.mem_singleton.mp ha)
  · exact .inr ⟨l, hl, ha⟩

/-- A piece of a text is a literal on one line, or a line break. -/
theorem mem_ofText {t : Text} {p : Piece} (h : p ∈ Piece.ofText t) :
    p = .lineBreak ∨ ∃ line, p = .literal line ∧ (.scalar '\n') ∉ line := by
  have hline : ∀ line ∈ t.joinLineEnds.lines, (.scalar '\n') ∉ line :=
    fun line hline hc ↦ (mem_splitAt hline hc).2 rfl
  rw [Piece.ofText] at h
  split at h
  · rename_i line hlines
    rw [List.mem_singleton.mp h]
    exact .inr ⟨line, rfl, hline line (hlines ▸ List.mem_singleton_self line)⟩
  · obtain rfl | ⟨_, hl, hp⟩ := mem_intercalate h
    · exact .inl rfl
    · obtain ⟨line, hmem, rfl⟩ := List.mem_map.mp hl
      rw [Piece.ofLine] at hp
      split at hp
      · cases hp
      · exact .inr ⟨line, List.mem_singleton.mp hp, hline line hmem⟩

theorem ofText_ne_nil (t : Text) : Piece.ofText t ≠ [] := by
  rw [Piece.ofText]
  split
  · exact List.cons_ne_nil _ _
  · rename_i hlines
    match hlines' : t.joinLineEnds.lines with
    | [] => exact absurd hlines' (splitAt_ne_nil _)
    | [line] => exact absurd hlines' (hlines line)
    | l :: l' :: ls => simp [List.intercalate_cons_cons]

/-- The pieces of a text stand for its signs. -/
theorem signs_ofText (t : Text) :
    ((Piece.ofText t).flatMap Piece.operands).flatMap Operand.signs = signs t := by
  have hliteral : ∀ line, (Piece.literal line).operands.flatMap Operand.signs = line.map .point :=
    signs_quotedOperands
  have hline : ∀ line, (Piece.ofLine line).flatMap (fun p ↦ p.operands.flatMap Operand.signs) =
      line.map .point := by
    intro line
    rw [Piece.ofLine]
    split
    · rename_i hempty
      rw [List.isEmpty_iff.mp hempty]
      rfl
    · rw [List.flatMap_singleton, hliteral]
  rw [List.flatMap_assoc, signs_eq, Piece.ofText]
  split
  · rename_i line hlines
    rw [hlines, List.flatMap_singleton, hliteral]
    simp
  · rw [flatMap_intercalate, List.map_map]
    congr 1
    exact List.map_congr_left fun line _ ↦ hline line

/-- **A text is read back from the expression that is written for it**, in operands none of which
contains its own quote or a line feed. -/
theorem readString_ofText (t : Text) : ∃ os, readString (Expr.ofText t).print = some os ∧
    os.flatMap Operand.signs = signs t ∧ ∀ o ∈ os, o.Sound := by
  have hsound : ∀ o ∈ (Piece.ofText t).flatMap Piece.operands, o.Sound := by
    intro o ho
    obtain ⟨p, hp, ho⟩ := List.mem_flatMap.mp ho
    obtain rfl | ⟨line, rfl, hline⟩ := mem_ofText hp
    · rw [List.mem_singleton.mp ho]
      exact trivial
    · exact sound_quotedOperands hline o ho
  have htext : ∀ p ∈ Piece.ofText t, p.isText = true := by
    intro p hp
    obtain rfl | ⟨line, rfl, -⟩ := mem_ofText hp <;> rfl
  exact ⟨_, readString_concat (ofText_ne_nil t) htext hsound, signs_ofText t, hsound⟩

end Operands

end Advplc.Target

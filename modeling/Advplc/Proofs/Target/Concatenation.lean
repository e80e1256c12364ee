import Advplc.Proofs.Target.Reading
import Mathlib.Data.List.Basic

/-!
# Reading concatenations with values

A string that is put together from texts and values is a concatenation of literals, constants for
line breaks and calls that convert a value to a string.  `readConcat` reads such a concatenation
from its text alone, once it is settled where the argument of a call ends.

That can be settled in two ways.  The length of each argument may be `told` in advance.  Or the
reader looks for the parenthesis that closes the call and skips nested parentheses and literals,
which finds the end of every `Closed` argument (`argumentEnd_of_closed`).  A text that is read as
the same contents in both ways `Denotes` them, and `denotes_concat` says what the pieces of a string
denote.
-/

set_option autoImplicit false

namespace Advplc.Target

/-! ## Contents -/

/-- What a string is made of: signs, and values, each by the text of its expression. -/
inductive Content where
  | sign (s : Sign)
  | value (text : Text)
deriving DecidableEq

/-- What a text is made of. -/
def contents (t : Text) : List Content := (signs t).map .sign

/-- The values among some contents. -/
def values (cs : List Content) : List Text :=
  cs.filterMap fun
    | .sign _ => none
    | .value t => some t

/-- An operand of a concatenation. -/
inductive Term where
  /-- A literal or a line break. -/
  | operand (o : Operand)
  /-- A call that converts the value of the expression with this text. -/
  | value (text : Text)
deriving DecidableEq

namespace Term

/-- An operand as text. -/
def print : Term → Text
  | operand o => o.print
  | value t => callText toStringFunction [t]

/-- What an operand stands for. -/
def contents : Term → List Content
  | operand o => o.signs.map .sign
  | value t => [.value t]

end Term

/-! ## Reading -/

/-- How a call that converts a value begins. -/
def callStart : Text := toStringFunction ++ "("

section Reading

variable {σ : Type} (argument : σ → Text → Option (Nat × σ))

/-- Reads the rest of a call, whose argument is `n` code points long. -/
def Term.readCall (n : Nat) (t : Text) : Option (Term × Text) :=
  match t.drop n with
  | .scalar ')' :: rest => some (.value (t.take n), rest)
  | _ => none

/-- Reads the operand that a text begins with.  `argument` tells how long the argument is. -/
def Term.read (s : σ) (t : Text) : Option (Term × σ × Text) :=
  if callStart.isPrefixOf t then
    match argument s (t.drop callStart.length) with
    | some (n, s') => (readCall n (t.drop callStart.length)).map fun (x, rest) ↦ (x, s', rest)
    | none => none
  else (Operand.read t).map fun (o, rest) ↦ (.operand o, s, rest)

variable {argument} {s s' : σ} {t rest : Text} {x : Term}

theorem Term.length_readCall {n : Nat} (h : readCall n t = some (x, rest)) :
    rest.length < t.length := by
  rw [readCall] at h
  split at h
  · rename_i hdrop
    cases h
    have hlength := congrArg List.length hdrop
    rw [List.length_drop, List.length_cons] at hlength
    omega
  · cases h

theorem Term.length_read (h : read argument s t = some (x, s', rest)) :
    rest.length < t.length := by
  rw [read] at h
  split at h
  · split at h
    · obtain ⟨⟨y, r⟩, hcall, hy⟩ := Option.map_eq_some_iff.mp h
      cases hy
      have hlength := length_readCall hcall
      rw [List.length_drop] at hlength
      omega
    · cases h
  · obtain ⟨⟨o, r⟩, hoperand, ho⟩ := Option.map_eq_some_iff.mp h
    cases ho
    exact Operand.length_read hoperand

variable (argument) in
/-- Reads operands with plus signs between them. -/
def readTerms (s : σ) (t : Text) : Option (List Term) :=
  match _ : Term.read argument s t with
  | some (x, _, []) => some [x]
  | some (x, s', .scalar ' ' :: .scalar '+' :: .scalar ' ' :: rest) =>
    (readTerms s' rest).map (x :: ·)
  | _ => none
termination_by t.length
decreasing_by
  have := Term.length_read ‹_›
  simp only [List.length_cons] at this
  omega

/-- A text without the parentheses that it stands in. -/
def ungrouped : Text → Text
  | .scalar '(' :: rest =>
    if rest.getLast? = some (.scalar ')') then rest.dropLast else .scalar '(' :: rest
  | t => t

variable (argument) in
/-- Reads what a concatenation is made of.  It may stand in parentheses. -/
def readConcat (s : σ) (t : Text) : Option (List Content) :=
  (readTerms argument s (ungrouped t)).map (List.flatMap Term.contents)

end Reading

/-! ## Arguments -/

/-- The length of the next argument, if the lengths of all arguments are given. -/
def told : List Nat → Text → Option (Nat × List Nat)
  | n :: ns, _ => some (n, ns)
  | [], _ => none

/-- The length of a text up to the parenthesis that closes a call, with `depth` parentheses open in
it and possibly inside a literal between `quote`s. -/
def argumentEnd : Nat → Option CodePoint → Text → Option Nat
  | _, _, [] => none
  | depth, some quote, c :: rest =>
    (argumentEnd depth (if c = quote then none else some quote) rest).map (· + 1)
  | depth, none, c :: rest =>
    if c = '"' ∨ c = '\'' then (argumentEnd depth (some c) rest).map (· + 1)
    else if c = '(' then (argumentEnd (depth + 1) none rest).map (· + 1)
    else if c = ')' then
      if depth = 0 then some 0 else (argumentEnd (depth - 1) none rest).map (· + 1)
    else (argumentEnd depth none rest).map (· + 1)

/-- The length of the next argument, if it ends where the call is closed. -/
def balanced (s : Unit) (t : Text) : Option (Nat × Unit) := (argumentEnd 0 none t).map (·, s)

/-- The code points that parentheses and literals begin or end with. -/
def delimiting : Text := "()\"'"

/-- Every parenthesis and every literal in the text is closed in it. -/
inductive Closed : Text → Prop where
  | nil : Closed []
  | cons {c : CodePoint} {t : Text} (hc : c ∉ delimiting) (ht : Closed t) : Closed (c :: t)
  | literal {quote : CodePoint} {s t : Text} (hquote : quote = '"' ∨ quote = '\'') (hs : quote ∉ s)
      (ht : Closed t) : Closed (quote :: (s ++ quote :: t))
  | group {s t : Text} (hs : Closed s) (ht : Closed t) :
      Closed (.scalar '(' :: (s ++ .scalar ')' :: t))

/-- The text is read as these contents: if it is told how long the arguments are, and also if it is
not told but they are closed. -/
def Denotes (t : Text) (cs : List Content) : Prop :=
  readConcat told ((values cs).map List.length) t = some cs ∧
    ((∀ v ∈ values cs, Closed v) → readConcat balanced () t = some cs)

/-! ## Finding the end of an argument -/

section Arguments

variable {v s t : Text}

theorem Closed.append (hs : Closed s) (ht : Closed t) : Closed (s ++ t) := by
  induction hs with
  | nil => exact ht
  | cons hc _ ih => exact .cons hc ih
  | literal hquote hs _ ih => simpa using Closed.literal hquote hs ih
  | group hs _ _ ih => simpa using Closed.group hs ih

theorem closed_of_forall (h : ∀ c ∈ t, c ∉ delimiting) : Closed t := by
  induction t with
  | nil => exact .nil
  | cons c t ih =>
    rw [List.forall_mem_cons] at h
    exact .cons h.1 (ih h.2)

theorem map_argumentEnd (x : Option Nat) (m n : Nat) :
    (x.map (· + m)).map (· + n) = x.map (· + (m + n)) := by
  rcases x with _ | k
  · rfl
  · exact congrArg some (Nat.add_assoc k m n)

/-- A literal is skipped. -/
theorem argumentEnd_literal {quote : CodePoint} (hs : quote ∉ s) (depth : Nat) (t : Text) :
    argumentEnd depth (some quote) (s ++ quote :: t) =
      (argumentEnd depth none t).map (· + (s.length + 1)) := by
  induction s with
  | nil => rw [List.nil_append, argumentEnd, if_pos rfl]; rfl
  | cons c s ih =>
    rw [List.mem_cons, not_or] at hs
    rw [List.cons_append, argumentEnd, if_neg (Ne.symm hs.1), ih hs.2, map_argumentEnd,
      List.length_cons]

/-- **A text in which everything is closed is skipped** at every depth. -/
theorem argumentEnd_append (hv : Closed v) (depth : Nat) (t : Text) :
    argumentEnd depth none (v ++ t) = (argumentEnd depth none t).map (· + v.length) := by
  induction hv generalizing depth t with
  | nil => simp
  | @cons c v hc _ ih =>
    have hplain : c ≠ '"' ∧ c ≠ '\'' ∧ c ≠ '(' ∧ c ≠ ')' := by
      refine ⟨?_, ?_, ?_, ?_⟩ <;> (rintro rfl; exact hc (by decide))
    rw [List.cons_append, argumentEnd, if_neg (by simp [hplain]), if_neg hplain.2.2.1,
      if_neg hplain.2.2.2, ih, map_argumentEnd, List.length_cons]
  | @literal quote s v hquote hs _ ih =>
    have hlength : (quote :: (s ++ quote :: v)).length = v.length + (s.length + 1) + 1 := by
      simp only [List.length_cons, List.length_append]
      omega
    rw [List.cons_append, List.append_assoc, List.cons_append, argumentEnd, if_pos hquote,
      argumentEnd_literal hs, ih, map_argumentEnd, map_argumentEnd, hlength]
    rfl
  | @group s v _ _ ihs ih =>
    have hlength : (.scalar '(' :: (s ++ .scalar ')' :: v) : Text).length =
        v.length + 1 + s.length + 1 := by
      simp only [List.length_cons, List.length_append]
      omega
    have hclose : argumentEnd (depth + 1) none (.scalar ')' :: (v ++ t)) =
        (argumentEnd depth none (v ++ t)).map (· + 1) := by
      rw [argumentEnd, if_neg (by decide), if_neg (by decide), if_pos rfl,
        if_neg (Nat.succ_ne_zero depth), Nat.add_sub_cancel]
    rw [List.cons_append, List.append_assoc, List.cons_append, argumentEnd, if_neg (by decide),
      if_pos rfl, ihs, hclose, ih, map_argumentEnd, map_argumentEnd, map_argumentEnd, hlength]
    simp only [Nat.add_assoc]

/-- The end of a closed argument is found. -/
theorem argumentEnd_of_closed (hv : Closed v) (rest : Text) :
    argumentEnd 0 none (v ++ .scalar ')' :: rest) = some v.length := by
  rw [argumentEnd_append hv]
  exact congrArg some (Nat.zero_add _)

end Arguments

/-! ## Reading what was written -/

section Written

variable {σ : Type} {argument : σ → Text → Option (Nat × σ)}

/-- From `s` on, the lengths of the arguments are found, and the literals among the operands can be
read. -/
def Finds (argument : σ → Text → Option (Nat × σ)) : σ → List Term → Prop
  | _, [] => True
  | s, .operand o :: xs => o.Sound ∧ Finds argument s xs
  | s, .value v :: xs => ∃ s', (∀ rest, argument s (v ++ .scalar ')' :: rest) =
      some (v.length, s')) ∧ Finds argument s' xs

theorem Term.read_value {s s' : σ} {v : Text} {rest : Text}
    (h : argument s (v ++ .scalar ')' :: rest) = some (v.length, s')) :
    read argument s ((Term.value v).print ++ rest) = some (.value v, s', rest) := by
  have hprint : (Term.value v).print ++ rest = callStart ++ (v ++ .scalar ')' :: rest) := by
    simp [print, callText, commaList, Text.joinWith, callStart, Text.ofString]
  rw [hprint, read, if_pos (List.isPrefixOf_iff_prefix.mpr (List.prefix_append _ _)),
    List.drop_left, h]
  simp [readCall]

theorem Term.read_operand {o : Operand} (ho : o.Sound) (s : σ) (rest : Text) :
    read argument s ((Term.operand o).print ++ rest) = some (.operand o, s, rest) := by
  have hstart : callStart.isPrefixOf ((Term.operand o).print ++ rest) = false := by
    rcases o with ⟨q, t⟩ | _
    · obtain ⟨rfl | rfl, -⟩ := ho <;> rfl
    · rfl
  rw [read, if_neg (by simp [hstart]), print, Operand.read_print ho]
  rfl

theorem readTerms_eq {s : σ} {t : Text} : readTerms argument s t =
    match Term.read argument s t with
    | some (x, _, []) => some [x]
    | some (x, s', .scalar ' ' :: .scalar '+' :: .scalar ' ' :: rest) =>
      (readTerms argument s' rest).map (x :: ·)
    | _ => none := by
  rw [readTerms]
  split <;> simp_all

/-- The first operand is read, and those behind it are left. -/
theorem Finds.exists_read {s : σ} {x : Term} {xs : List Term} (h : Finds argument s (x :: xs)) :
    ∃ s', Finds argument s' xs ∧
      ∀ rest, Term.read argument s (x.print ++ rest) = some (x, s', rest) := by
  rcases x with o | v
  · exact ⟨s, h.2, Term.read_operand h.1 s⟩
  · obtain ⟨s', hargument, hrest⟩ := h
    exact ⟨s', hrest, fun rest ↦ Term.read_value (hargument rest)⟩

/-- Operands are read back from their sum. -/
theorem readTerms_sum {s : σ} {xs : List Term} (hne : xs ≠ []) (h : Finds argument s xs) :
    readTerms argument s (sum (xs.map Term.print)) = some xs := by
  induction xs generalizing s with
  | nil => exact absurd rfl hne
  | cons x xs ih =>
    obtain ⟨s', hrest, hread⟩ := h.exists_read
    rcases xs with _ | ⟨y, xs⟩
    · have hlast := hread []
      rw [List.append_nil] at hlast
      rw [List.map_singleton, sum_singleton, readTerms_eq, hlast]
    · rw [List.map_cons, List.map_cons, sum_cons_cons, readTerms_eq, hread]
      simp only [← List.map_cons, ih (List.cons_ne_nil _ _) hrest, Option.map_some]

/-- A sum of operands is read, in parentheses or without. -/
theorem readConcat_sum {s : σ} {xs : List Term} (hne : xs ≠ []) (h : Finds argument s xs) :
    readConcat argument s (sum (xs.map Term.print)) = some (xs.flatMap Term.contents) ∧
      readConcat argument s ("(" ++ sum (xs.map Term.print) ++ ")") =
        some (xs.flatMap Term.contents) := by
  have hread := readTerms_sum hne h
  generalize sum (xs.map Term.print) = t at hread
  have hopen : ungrouped t = t := by
    fun_cases ungrouped t with
    | case1 rest =>
      rw [readTerms_eq] at hread
      cases hread
    | case2 | case3 => rfl
  have hgroup : ungrouped ("(" ++ t ++ ")") = t := by
    have htext : ("(" ++ t ++ ")" : Text) = .scalar '(' :: (t ++ [.scalar ')']) := by
      simp [Text.ofString]
    rw [htext, ungrouped, List.getLast?_concat, if_pos rfl, List.dropLast_concat]
  exact ⟨by rw [readConcat, hopen, hread]; rfl, by rw [readConcat, hgroup, hread]; rfl⟩

end Written

/-! ## What pieces denote -/

/-- Whether the operand can be read, wherever it stands. -/
def Term.Sound : Term → Prop
  | operand o => o.Sound
  | value _ => True

/-- The operands that a piece of a string is written as. -/
def Piece.terms : Piece → List Term
  | .literal t => (quotedOperands t).map .operand
  | .lineBreak => [.operand .lineBreak]
  | .value e => [.value e.print]

/-- What a piece of a string stands for. -/
def Piece.contents : Piece → List Content
  | .literal t => t.map fun c ↦ .sign (.point c)
  | .lineBreak => [.sign .lineBreak]
  | .value e => [.value e.print]

section Pieces

variable {x : Term} {xs : List Term} {p : Piece} {ps : List Piece}

theorem values_append (cs ds : List Content) : values (cs ++ ds) = values cs ++ values ds :=
  List.filterMap_append

theorem values_sign (ss : List Sign) : values (ss.map .sign) = [] := by
  rw [values, List.filterMap_map, List.filterMap_eq_nil_iff]
  exact fun _ _ ↦ rfl

theorem finds_told (h : ∀ x ∈ xs, x.Sound) :
    Finds told ((values (xs.flatMap Term.contents)).map List.length) xs := by
  induction xs with
  | nil => trivial
  | cons x xs ih =>
    obtain ⟨hx, hxs⟩ := List.forall_mem_cons.mp h
    rw [List.flatMap_cons, values_append]
    rcases x with o | v
    · rw [Term.contents, values_sign]
      exact ⟨hx, ih hxs⟩
    · exact ⟨_, fun rest ↦ rfl, ih hxs⟩

theorem finds_balanced (h : ∀ x ∈ xs, x.Sound)
    (hclosed : ∀ v ∈ values (xs.flatMap Term.contents), Closed v) : Finds balanced () xs := by
  induction xs with
  | nil => trivial
  | cons x xs ih =>
    obtain ⟨hx, hxs⟩ := List.forall_mem_cons.mp h
    rw [List.flatMap_cons, values_append, List.forall_mem_append] at hclosed
    rcases x with o | v
    · exact ⟨hx, ih hxs hclosed.2⟩
    · have hv : Closed v := hclosed.1 v (List.mem_singleton_self v)
      exact ⟨(), fun rest ↦ by rw [balanced, argumentEnd_of_closed hv]; rfl, ih hxs hclosed.2⟩

/-- **A sum of operands denotes what they stand for**, in parentheses or without. -/
theorem denotes_sum (hne : xs ≠ []) (h : ∀ x ∈ xs, x.Sound) :
    Denotes (sum (xs.map Term.print)) (xs.flatMap Term.contents) ∧
      Denotes ("(" ++ sum (xs.map Term.print) ++ ")") (xs.flatMap Term.contents) := by
  have htold := readConcat_sum hne (finds_told h)
  have hbalanced := fun hclosed ↦ readConcat_sum hne (finds_balanced h hclosed)
  exact ⟨⟨htold.1, fun hclosed ↦ (hbalanced hclosed).1⟩,
    ⟨htold.2, fun hclosed ↦ (hbalanced hclosed).2⟩⟩

theorem Piece.terms_ne_nil (p : Piece) : p.terms ≠ [] := by
  rcases p with t | _ | e
  · simpa [terms] using quotedOperands_ne_nil t
  · exact List.cons_ne_nil _ _
  · exact List.cons_ne_nil _ _

theorem Piece.print_eq_terms (p : Piece) : p.print = sum (p.terms.map Term.print) := by
  rcases p with t | _ | e
  · rw [print, quote_eq, terms, List.map_map]
    rfl
  · exact (sum_singleton _).symm
  · exact (sum_singleton _).symm

theorem Piece.contents_eq (p : Piece) : p.terms.flatMap Term.contents = p.contents := by
  rcases p with t | _ | e
  · have hsigns := congrArg (List.map Content.sign) (signs_quotedOperands t)
    rw [List.map_flatMap, List.map_map] at hsigns
    rw [terms, List.flatMap_map]
    exact hsigns
  · rfl
  · rfl

theorem Piece.sound_terms (hp : ∀ line, p = .literal line → (.scalar '\n') ∉ line) :
    ∀ x ∈ p.terms, x.Sound := by
  rcases p with t | _ | e
  · intro x hx
    obtain ⟨o, ho, rfl⟩ := List.mem_map.mp hx
    exact sound_quotedOperands (hp t rfl) o ho
  · exact List.forall_mem_singleton.mpr trivial
  · exact List.forall_mem_singleton.mpr trivial

theorem sum_printAll_terms (ps : List Piece) :
    sum (Piece.printAll ps) = sum ((ps.flatMap Piece.terms).map Term.print) := by
  rw [List.map_flatMap]
  refine sum_printAll_eq fun p _ ↦ ⟨fun hnil ↦ ?_, p.print_eq_terms⟩
  exact p.terms_ne_nil (List.map_eq_nil_iff.mp hnil)

/-- **Pieces of a string denote what they stand for**, where no line feed is left in them. -/
theorem denotes_concat (hne : ps ≠ [])
    (h : ∀ line, .literal line ∈ ps → (.scalar '\n') ∉ line) :
    Denotes (sum (Piece.printAll ps)) (ps.flatMap Piece.contents) ∧
      Denotes (Expr.concat ps).print (ps.flatMap Piece.contents) := by
  have hterms : ps.flatMap Piece.terms ≠ [] := by
    obtain ⟨p, ps, rfl⟩ := List.exists_cons_of_ne_nil hne
    simp [p.terms_ne_nil]
  have hsound : ∀ x ∈ ps.flatMap Piece.terms, x.Sound := by
    intro x hx
    obtain ⟨p, hp, hx⟩ := List.mem_flatMap.mp hx
    exact Piece.sound_terms (fun line hline ↦ h line (hline ▸ hp)) x hx
  have hcontents : (ps.flatMap Piece.terms).flatMap Term.contents = ps.flatMap Piece.contents := by
    rw [List.flatMap_assoc]
    exact List.flatMap_congr fun p _ ↦ p.contents_eq
  have hdenotes := denotes_sum hterms hsound
  rw [hcontents, ← sum_printAll_terms] at hdenotes
  refine ⟨hdenotes.1, ?_⟩
  rcases ps with _ | ⟨p, _ | ⟨q, ps⟩⟩
  · exact absurd rfl hne
  · rw [Expr.print, Piece.printAll, Piece.printAll, groupedSum, ← sum_singleton p.print]
    exact hdenotes.1
  · exact hdenotes.2

/-- The pieces of a text stand for what it is made of. -/
theorem contents_ofText (t : Text) : (Piece.ofText t).flatMap Piece.contents = contents t := by
  have hpiece : ∀ p ∈ Piece.ofText t,
      p.contents = (p.operands.flatMap Operand.signs).map Content.sign := by
    intro p hp
    obtain rfl | ⟨line, rfl, -⟩ := mem_ofText hp
    · rfl
    · rw [Piece.operands, signs_quotedOperands, List.map_map]
      rfl
  rw [contents, ← signs_ofText, List.flatMap_assoc, List.map_flatMap]
  exact List.flatMap_congr hpiece

end Pieces

end Advplc.Target

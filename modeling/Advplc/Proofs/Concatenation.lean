import Advplc.Proofs.Lowering.Closed

/-!
# Templates and output are concatenations

A template becomes a concatenation of its chunks and the values of its holes, and so do several
arguments of an output statement.  Empty chunks and empty lines are left out on the way, quotes are
taken apart and line breaks become operands of their own; what the text that is written denotes is
still everything in its order, with one call for each value (`concatenates_in_order`).
-/

set_option autoImplicit false

namespace Advplc.Lowering

open Target (Closed Content Denotes contents)

/-! ## What is written, by what it stands for -/

/-- What the pieces of a template stand for: each chunk, and behind it the value of its hole, if it
has one. -/
def templateContents : List Text → List Script.Expr → Except Error (List Content)
  | cs, [] => .ok (cs.flatMap contents)
  | [], _ :: _ => .ok []
  | c :: cs, e :: es => do
    let e' ← lower e
    return contents c ++ .value e'.print :: (← templateContents cs es)

/-- What an argument of an output statement stands for: a string or a template for its contents, and
everything else for its value. -/
def argumentContents : Script.Expr → Except Error (List Content)
  | .string _ v => .ok (contents v)
  | .template _ cs hs => templateContents cs hs
  | e => do return [.value (← lower e).print]

/-- What the arguments of an output statement stand for. -/
def outputContents : List Script.Expr → Except Error (List Content)
  | [] => .ok []
  | e :: es => do
    let cs ← argumentContents e
    return cs ++ (← outputContents es)

/-- Whether an expression is a string or a template. -/
def IsText : Script.Expr → Prop
  | .string _ _ | .template _ _ _ => True
  | _ => False

/-- The expressions in the holes of a template. -/
def holesOf : Script.Expr → List Script.Expr
  | .template _ _ hs => hs
  | _ => []

/-- What some pieces stand for. -/
abbrev said (ps : List Target.Piece) : List Content := ps.flatMap Target.Piece.contents

theorem Yields.trivial {α : Type} (x : Except Error α) : Yields x fun _ ↦ True :=
  fun _ _ ↦ True.intro

/-- Whether no line feed is left in the pieces. -/
def OneLined (ps : List Target.Piece) : Prop := ∀ line, .literal line ∈ ps → (.scalar '\n') ∉ line

section Pieces

variable {ps qs : List Target.Piece}

theorem OneLined.nil : OneLined [] := fun _ hline ↦ absurd hline List.not_mem_nil

theorem OneLined.append (hps : OneLined ps) (hqs : OneLined qs) : OneLined (ps ++ qs) :=
  fun line hline ↦ (List.mem_append.mp hline).elim (hps line) (hqs line)

theorem OneLined.value (e : Target.Expr) (h : OneLined ps) : OneLined (.value e :: ps) :=
  fun line hline ↦ h line (by simpa using hline)

theorem oneLined_ofText (t : Text) : OneLined (Target.Piece.ofText t) := by
  intro line hline
  rcases Target.mem_ofText hline with h | ⟨line, h, hfeed⟩
  · cases h
  · cases h
    exact hfeed

theorem oneLined_orEmpty (h : OneLined ps) : OneLined (orEmpty ps) := by
  rcases ps with _ | ⟨p, ps⟩
  · intro line hline
    cases List.mem_singleton.mp hline
    exact List.not_mem_nil
  · exact h

theorem said_orEmpty (ps : List Target.Piece) : said (orEmpty ps) = said ps := by
  rcases ps with _ | ⟨p, ps⟩ <;> rfl

theorem orEmpty_ne_nil (ps : List Target.Piece) : orEmpty ps ≠ [] := by
  rcases ps with _ | ⟨p, ps⟩ <;> exact List.cons_ne_nil _ _

theorem said_chunkPieces (chunk : Text) : said (chunkPieces chunk) = contents chunk := by
  rw [chunkPieces]
  split
  · rename_i hempty
    rw [List.isEmpty_iff.mp hempty]
    rfl
  · exact Target.contents_ofText chunk

theorem oneLined_chunkPieces (chunk : Text) : OneLined (chunkPieces chunk) := by
  rw [chunkPieces]
  split
  · exact .nil
  · exact oneLined_ofText chunk

end Pieces

/-! ## Templates -/

/-- The pieces of a template stand for what it stands for. -/
theorem templateContents_eq (cs : List Text) (hs : List Script.Expr) :
    templateContents cs hs = (lowerTemplate cs hs).map said := by
  induction hs generalizing cs with
  | nil =>
    rw [templateContents, lowerTemplate, Except.map, said, List.flatMap_assoc]
    exact congrArg Except.ok (List.flatMap_congr fun c _ ↦ (said_chunkPieces c).symm)
  | cons e hs ih =>
    rcases cs with _ | ⟨c, cs⟩
    · rw [templateContents, lowerTemplate]
      rfl
    · rw [templateContents, lowerTemplate, ih]
      rcases lower e with f | e'
      · rfl
      · rcases lowerTemplate cs hs with f | ps
        · rfl
        · have hsaid : said (chunkPieces c ++ .value e' :: ps) =
              contents c ++ .value e'.print :: said ps := by
            rw [said, List.flatMap_append, ← said_chunkPieces c]
            rfl
          exact congrArg Except.ok hsaid.symm

theorem lowerTemplate_oneLined (cs : List Text) (hs : List Script.Expr) :
    Yields (lowerTemplate cs hs) OneLined := by
  induction hs generalizing cs with
  | nil =>
    rw [lowerTemplate]
    refine .ok fun line hline ↦ ?_
    obtain ⟨c, -, hc⟩ := List.mem_flatMap.mp hline
    exact oneLined_chunkPieces c line hc
  | cons e hs ih =>
    rcases cs with _ | ⟨c, cs⟩
    · rw [lowerTemplate]
      exact .ok .nil
    · rw [lowerTemplate]
      exact (Yields.trivial (lower e)).both (ih cs) fun e' ps _ hps ↦
        (oneLined_chunkPieces c).append (hps.value e')

/-- What a template with one chunk more than holes stands for. -/
theorem templateContents_cons {chunks : List Text} {holes : List Script.Expr}
    (h : chunks.length = holes.length) (chunk : Text) :
    templateContents (chunk :: chunks) holes = (lowerAll holes).map fun es ↦ contents chunk ++
      (es.zip chunks).flatMap fun x ↦ .value x.1.print :: contents x.2 := by
  induction holes generalizing chunk chunks with
  | nil =>
    rw [List.length_eq_zero_iff.mp h, templateContents, lowerAll]
    simp [Except.map]
  | cons e hs ih =>
    rcases chunks with _ | ⟨c, cs⟩
    · cases h
    · rw [templateContents, lowerAll, ih (Nat.succ.inj h)]
      rcases lower e with f | e'
      · rfl
      · rcases lowerAll hs with f | es <;> rfl

/-! ## Output -/

theorem argumentContents_eq (e : Script.Expr) :
    argumentContents e = (outputPieces e).map said := by
  cases e with
  | string p v => exact congrArg Except.ok (Target.contents_ofText v).symm
  | template p cs hs =>
    rw [argumentContents, templateContents_eq, outputPieces]
    rcases lowerTemplate cs hs with f | ps
    · rfl
    · exact congrArg Except.ok (said_orEmpty ps).symm
  | _ =>
    rw [outputPieces_value (by simp) (by simp), argumentContents]
    · rcases lower _ with f | e' <;> rfl
    all_goals simp

theorem outputPieces_oneLined (e : Script.Expr) :
    Yields (outputPieces e) fun ps ↦ OneLined ps ∧ ps ≠ [] := by
  cases e with
  | string p v => exact .ok ⟨oneLined_ofText v, Target.ofText_ne_nil v⟩
  | template p cs hs =>
    rw [outputPieces]
    exact (lowerTemplate_oneLined cs hs).map fun ps hps ↦ ⟨oneLined_orEmpty hps, orEmpty_ne_nil ps⟩
  | _ =>
    rw [outputPieces_value (by simp) (by simp)]
    exact (Yields.trivial _).map fun e' _ ↦ ⟨OneLined.nil.value e', List.cons_ne_nil _ _⟩

theorem outputContents_eq (es : List Script.Expr) :
    outputContents es = (outputAll es).map said := by
  induction es with
  | nil => rfl
  | cons e es ih =>
    rw [outputContents, outputAll, ih, argumentContents_eq]
    rcases outputPieces e with f | ps
    · rfl
    · rcases outputAll es with f | qs
      · rfl
      · exact congrArg Except.ok List.flatMap_append.symm

theorem outputAll_oneLined {es : List Script.Expr} (hne : es ≠ []) :
    Yields (outputAll es) fun ps ↦ OneLined ps ∧ ps ≠ [] := by
  have hall (es : List Script.Expr) : Yields (outputAll es) OneLined := by
    induction es with
    | nil => exact .ok .nil
    | cons e es ih =>
      rw [outputAll]
      exact (outputPieces_oneLined e).both ih fun ps qs hps hqs ↦ hps.1.append hqs
  obtain ⟨e, es, rfl⟩ := List.exists_cons_of_ne_nil hne
  rw [outputAll]
  exact (outputPieces_oneLined e).both (hall es) fun ps qs hps hqs ↦
    ⟨hps.1.append hqs, List.append_ne_nil_of_left_ne_nil hps.2 qs⟩

/-- Several arguments, or one that is text, are written one behind another. -/
theorem lowerOutput_eq {es : List Script.Expr} (hne : es ≠ []) (h : ∀ e, es = [e] → IsText e) :
    lowerOutput es = (outputAll es).map Output.pieces := by
  let written (ps : List Target.Piece) : Except Error Output := .ok (.pieces ps)
  match es with
  | e :: e' :: es =>
    rw [lowerOutput_several]
    rcases outputAll (e :: e' :: es) with f | ps <;> rfl
  | [e] =>
    have htext := h e rfl
    cases e with
    | string p v => exact congrArg written (List.append_nil _).symm
    | template p cs hs =>
      rw [lowerOutput, outputAll, outputPieces]
      rcases lowerTemplate cs hs with f | ps
      · rfl
      · exact congrArg written (List.append_nil _).symm
    | _ => cases htext

/-- What can be read is not empty. -/
theorem ne_nil_of_denotes {t : Text} {cs : List Content} (h : Denotes t cs) : t ≠ [] := by
  rintro rfl
  have hread := h.1
  have hopen : Target.ungrouped [] = [] := rfl
  rw [Target.readConcat, hopen, Target.readTerms_eq] at hread
  cases hread

/-! ## Everything in its order -/

/-- A template denotes its first chunk, and then the value of a hole and a chunk in turns. -/
theorem lower_template_denotes (p : Option Pos) (chunk : Text) {chunks : List Text}
    {holes : List Script.Expr} (hcount : chunks.length = holes.length) :
    match lowerAll holes with
    | .ok es => ∃ e, lower (.template p (chunk :: chunks) holes) = .ok e ∧
        Denotes e.print (contents chunk ++
          (es.zip chunks).flatMap fun x ↦ .value x.1.print :: contents x.2)
    | .error f => lower (.template p (chunk :: chunks) holes) = .error f := by
  have hcontents := (templateContents_eq (chunk :: chunks) holes).symm.trans
    (templateContents_cons hcount chunk)
  have hpieces := lowerTemplate_oneLined (chunk :: chunks) holes
  rw [lower]
  generalize lowerTemplate (chunk :: chunks) holes = lowered at hcontents hpieces ⊢
  generalize lowerAll holes = values at hcontents ⊢
  rcases lowered with f | ps <;> rcases values with g | es
  · cases hcontents
    rfl
  · cases hcontents
  · cases hcontents
  · have hsaid : said (orEmpty ps) = contents chunk ++
        (es.zip chunks).flatMap fun x ↦ .value x.1.print :: contents x.2 :=
      (said_orEmpty ps).trans (Except.ok.inj hcontents)
    have hdenotes : Denotes (Target.Expr.concat (orEmpty ps)).print (said (orEmpty ps)) :=
      (Target.denotes_concat (orEmpty_ne_nil ps) (oneLined_orEmpty (hpieces ps rfl))).2
    rw [hsaid] at hdenotes
    exact ⟨_, rfl, hdenotes⟩

/-- Output denotes the contents of the arguments, unless a single value is written. -/
theorem lowerOutput_denotes {arguments : List Script.Expr}
    (htext : ∀ e, arguments = [e] → IsText e) :
    match outputContents arguments with
    | .ok cs => ∃ o, lowerOutput arguments = .ok o ∧ o.print ≠ [] ∧ Denotes o.print cs
    | .error f => lowerOutput arguments = .error f := by
  by_cases hne : arguments = []
  · subst hne
    have hdenotes := (Target.denotes_concat (orEmpty_ne_nil []) (oneLined_orEmpty .nil)).1
    exact ⟨_, rfl, ne_nil_of_denotes hdenotes, hdenotes⟩
  · rw [outputContents_eq, lowerOutput_eq hne htext]
    have hpieces := outputAll_oneLined hne
    generalize outputAll arguments = written at hpieces ⊢
    rcases written with f | ps
    · rfl
    · obtain ⟨hlines, hsome⟩ := hpieces ps rfl
      have hdenotes := (Target.denotes_concat hsome hlines).1
      exact ⟨_, rfl, ne_nil_of_denotes hdenotes, hdenotes⟩

/-- The holes of a template that was parsed are closed. -/
theorem closed_holesOf {source : Text} {p : Pos} {e : Script.Expr}
    (hparse : Grammar.parseExpr source p = .ok e) :
    Yields (lowerAll (holesOf e)) fun es ↦ ∀ e' ∈ es, ClosedAt e' := by
  have hworded := worded_of_parseExpr hparse
  cases e with
  | template q chunks holes =>
    rw [Worded, Script.Expr.has_template, Bool.or_eq_false_iff] at hworded
    exact lowerAll_closed holes hworded.2
  | _ => exact .ok (List.forall_mem_nil _)

/-- **Templates and output are concatenations of their parts, in order.**  A template with one chunk
more than holes is written as a text that denotes the first chunk, and then the value of a hole and
a chunk in turns.  What an output statement writes, unless it is a single value, is never empty and
denotes the contents of all arguments.  Where a part is refused, so is the whole.  And where an
expression was parsed, its text is closed, and so are the texts of the holes if it is a template, so
that the reader need not be told where they end. -/
theorem concatenates_in_order :
    (∀ p chunk chunks holes, chunks.length = holes.length →
      match lowerAll holes with
      | .ok es => ∃ e, lower (.template p (chunk :: chunks) holes) = .ok e ∧
          Denotes e.print (contents chunk ++
            (es.zip chunks).flatMap fun x ↦ .value x.1.print :: contents x.2)
      | .error f => lower (.template p (chunk :: chunks) holes) = .error f) ∧
    (∀ arguments, (∀ e, arguments = [e] → IsText e) →
      match outputContents arguments with
      | .ok cs => ∃ o, lowerOutput arguments = .ok o ∧ o.print ≠ [] ∧ Denotes o.print cs
      | .error f => lowerOutput arguments = .error f) ∧
    ∀ source p e, Grammar.parseExpr source p = .ok e →
      Yields (lower e) ClosedAt ∧
        Yields (lowerAll (holesOf e)) fun es ↦ ∀ e' ∈ es, ClosedAt e' :=
  ⟨fun p chunk _ _ hcount ↦ lower_template_denotes p chunk hcount, fun _ ↦ lowerOutput_denotes,
    fun _ _ _ hparse ↦ ⟨closed_of_parseExpr hparse, closed_holesOf hparse⟩⟩

/-- A template whose first chunk is two quotes and a line feed and whose last is empty, the output
of an empty string and a value, and the source of a template with a parenthesis in a literal. -/
theorem concatenates_in_order_sample :
    let hole : Script.Expr := .name none "x"
    let source : Text := "`a$\x7bf(')')\x7d`"
    (∃ e, lower (.template none ["\"'\n", []] [hole]) = .ok e ∧
      Denotes e.print (contents "\"'\n" ++ [.value "x"])) ∧
    (∃ o, lowerOutput [.string none [], hole] = .ok o ∧ o.print ≠ [] ∧
      Denotes o.print [.value "x"]) ∧
    ∃ e, Grammar.parseExpr source Pos.origin = .ok e ∧ (holesOf e).length = 1 ∧
      Yields (lower e) ClosedAt ∧
        Yields (lowerAll (holesOf e)) fun es ↦ ∀ e' ∈ es, ClosedAt e' := by
  intro hole source
  have hone : (Grammar.parseExpr source Pos.origin).toOption.map (fun e ↦ (holesOf e).length) =
      some 1 := by decide +kernel
  have htwo : ∀ e, [.string none [], hole] = [e] → IsText e := by
    intro e he
    cases he
  have hcontents : outputContents [.string none [], hole] = .ok [.value "x"] := rfl
  have houtput := concatenates_in_order.2.1 [.string none [], hole] htwo
  rw [hcontents] at houtput
  refine ⟨concatenates_in_order.1 none "\"'\n" [[]] [hole] rfl, houtput, ?_⟩
  rcases hparse : Grammar.parseExpr source Pos.origin with f | e <;> rw [hparse] at hone
  · cases hone
  · exact ⟨e, rfl, Option.some.inj hone, concatenates_in_order.2.2 source Pos.origin e hparse⟩

end Advplc.Lowering

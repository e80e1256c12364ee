import Advplc.Proofs.Grammar.Inside
import Advplc.Proofs.Lowering.Contribution

/-!
# Effects of a statement

The calls, constructions, updates and assignments in a statement should be evaluated once each, in
the order in which they are written.

The code for a statement has an open place for each of those that are left open in the source, and
whatever is written in their stead, only the places change (`effects_in_order`).  In most statements
the places of the code are those of the source.  There are three exceptions.  Arguments that the
function for a method does not take are passed over, the start of a `substring` with an end stands
in two places (`substring_start_repeated`), and where several elements are appended to an array, the
array stands in each of the lines.  Where these are nested, the copies of the outer one are copies
of all copies of the inner one, and what is passed over is passed over with all that is in it.
-/

set_option autoImplicit false

namespace Advplc.Lowering

open Script

open Target (Pattern)

/-! ## Statements with open places -/

/-- The open places of the lines for an expression that is a statement. -/
def linePlaces : Expr → List (List Foreign)
  | .call p (.member q o n r) as =>
    if appendsSeveral (.call p (.member q o n r) as) then (placesEach as).map (places o ++ ·)
    else [places (.call p (.member q o n r) as)]
  | c => [places c]

/-- Whether a statement appends several elements to an array with open places. -/
def repeatsReceiver : Expr → Bool
  | .call p (.member q o n r) as =>
    appendsSeveral (.call p (.member q o n r) as) && !o.openings.isEmpty
  | _ => false

theorem linePlaces_of_one {c : Expr} (h : appendsSeveral c = false) :
    linePlaces c = [places c] := by
  cases c with
  | call p f as =>
    cases f with
    | member q o n r => rw [linePlaces, h]; rfl
    | _ => rfl
  | _ => rfl

/-- Where nothing is repeated or passed over, the lines have the open places of the statement. -/
theorem flatten_linePlaces {c : Expr} (h : c.has rearranges = false)
    (hreceiver : repeatsReceiver c = false) : (linePlaces c).flatten = c.openings := by
  cases hseveral : appendsSeveral c with
  | false => rw [linePlaces_of_one hseveral, List.flatten_singleton, places_eq_openings c h]
  | true =>
    cases c with
    | call p f as =>
      cases f with
      | member q o n r =>
        rw [repeatsReceiver, hseveral, Bool.true_and, Bool.not_eq_false', List.isEmpty_iff]
          at hreceiver
        rw [Expr.has_call, Expr.has_member, Bool.or_eq_false_iff, Bool.or_eq_false_iff,
          Bool.or_eq_false_iff] at h
        have hnothing : ([] ++ · : List Foreign → List Foreign) = id := rfl
        rw [linePlaces, hseveral, if_pos rfl, places_eq_openings o h.2.1.2, hreceiver, hnothing,
          List.map_id, placesEach_eq_openings as h.2.2, Expr.flatten_openings, Expr.openings,
          Expr.openings, hreceiver, List.nil_append]
      | _ => cases hseveral
    | _ => cases hseveral

section Emits

variable {σ : Foreign → Expr} {fs : List Foreign} {c : Expr}

/-- What is filled in does not make a statement into one that appends several elements. -/
theorem appendsSeveral_fill (hc : ∀ f, c ≠ .foreign f)
    (h : ∀ f ∈ c.openings, (σ f).effect?.isSome = true) :
    appendsSeveral (c.fill σ) = appendsSeveral c := by
  cases c with
  | foreign f => exact absurd rfl (hc f)
  | call p f as =>
    cases f with
    | foreign f =>
      have hf := h f List.mem_cons_self
      rw [Expr.fill, Expr.fill]
      cases hσ : σ f with
      | member => rw [hσ] at hf; cases hf
      | _ => rfl
    | member q o n r =>
      simp only [Expr.fill, appendsSeveral, isPush, Expr.length_fillAll]
    | _ => rfl
  | _ => rfl

theorem lowerExprStmt_of_one {e : Expr} (h : appendsSeveral e = false) :
    lowerExprStmt e = do return [.line (← value (lowerStatement e))] := by
  cases e with
  | call p f as =>
    cases f with
    | member q o n r => rw [lowerExprStmt, if_neg (Bool.eq_false_iff.mp h)]
    | _ => rfl
  | _ => rfl

/-- An assignment that is a statement is the same code without parentheses. -/
theorem lowerStatement_emits (hc : ∀ f, c ≠ .foreign f) (hfs : c.openings ⊆ fs)
    (h : (c.fill σ).has faulty = false) :
    Emits σ fs (fun τ ↦ lowerStatement (c.fill τ)) (places c) := by
  cases c with
  | foreign f => exact absurd rfl (hc f)
  | assign p op t v =>
    rw [Expr.fill, Expr.has_assign, Bool.or_eq_false_iff, Bool.or_eq_false_iff] at h
    rw [Expr.openings, List.append_subset] at hfs
    obtain ⟨o, ho⟩ := exists_of_isNone (Bool.or_eq_false_iff.mp h.1).1
    refine ((lower_emits t hfs.1 h.2.1).both (lower_emits v hfs.2 h.2.2) (h := .assign o) []
      (" " ++ o ++ " ") [] fun x y ↦ ?_).congr fun τ hτ ↦ ?_
    · simp [Target.Expr.print]
    · rw [Expr.fill, lowerStatement, lowerAssign, ho]
  | _ => exact lower_emits _ hfs h

/-- The array stands in each of the lines. -/
theorem lowerPushes_emits {as : List Expr} (h : ∀ a ∈ as, Emitting σ fs a) (R : Pattern Foreign) :
    ∃ Ps : List (Pattern Foreign),
      Ps.map Pattern.openings = (placesEach as).map (R.openings ++ ·) ∧
      ∀ τ, Alike σ τ fs → lowerPushes (R.fill (codeIn τ)) (Expr.fillAll τ as) =
        .ok (Ps.map fun P ↦ .line (P.fill (codeIn τ))) := by
  induction as with
  | nil => exact ⟨[], rfl, fun _ _ ↦ rfl⟩
  | cons a as ih =>
    rw [List.forall_mem_cons] at h
    obtain ⟨P, hP, ha⟩ := h.1
    obtain ⟨Ps, hPs, has⟩ := ih h.2
    refine ⟨(.of (Method.push.function ++ "(") ++ .join ", " [R, P] ++ .of ")") :: Ps, ?_,
      fun τ hτ ↦ ?_⟩
    · simp [placesEach, hP, hPs]
    · obtain ⟨x, hx, hxP⟩ := ha τ hτ
      have hline : Target.callText Method.push.function [R.fill (codeIn τ), x.print] = Pattern.fill
          (codeIn τ) (.of (Method.push.function ++ "(") ++ .join ", " [R, P] ++ .of ")") := by
        simp [Target.callText, Target.commaList, hxP]
      simp only [Expr.fillAll, lowerPushes, has τ hτ, hx, List.map_cons, ← hline]
      rfl

theorem any_faulty {es : List Expr} (hregular : es.any Expr.unusable = false)
    (hcounts : es.any (Expr.miscounts false) = false) : es.any faulty = false := by
  rw [List.any_eq_false] at hregular hcounts ⊢
  intro e he
  simp [faulty, hregular e he, hcounts e he]

/-- Where there is code for a statement, nothing in it is at fault, except that it may append
several elements itself. -/
theorem faultless_of_lowerExprStmt {e : Expr} (hregular : e.Regular) {code : List Target.Code}
    (hcode : lowerExprStmt e = .ok code) :
    e.inside.any faulty = false ∧ (appendsSeveral e = false → e.has faulty = false) := by
  have hjudged := lowerExprStmt_judged (p := none) hregular
  rw [hcode, Stmt.refused_expr] at hjudged
  generalize hb : (e.miscounts true || e.inside.any (Expr.miscounts false)) = b at hjudged
  cases hjudged
  rw [Bool.or_eq_false_iff] at hb
  obtain ⟨hself, hparts⟩ := Bool.or_eq_false_iff.mp hregular
  have hinside := any_faulty hparts hb.2
  refine ⟨hinside, fun hone ↦ Bool.or_eq_false_iff.mpr ⟨?_, hinside⟩⟩
  have hcounts : e.miscounts true = e.miscounts false := by
    refine Expr.miscounts_alone fun p q o n r as he hseveral ↦ ?_
    exact Bool.false_ne_true (hone.symm.trans (he ▸ appendsSeveral_call.mpr hseveral))
  exact Bool.or_eq_false_iff.mpr ⟨hself, hcounts ▸ hb.1⟩

theorem exists_lower_of_faultless {e : Expr} (h : e.has faulty = false) :
    ∃ x, lower e = .ok x := by
  have hparts := List.any_eq_false.mp h
  have hregular : e.Regular := List.any_eq_false.mpr fun x hx hunusable ↦
    hparts x hx (Bool.or_eq_true_iff.mpr (.inl hunusable))
  have hcounts : e.refused = false := List.any_eq_false.mpr fun x hx hmiscounts ↦
    hparts x hx (Bool.or_eq_true_iff.mpr (.inr hmiscounts))
  have hjudged := lower_judged e hregular
  rw [hcounts] at hjudged
  generalize lower e = r at hjudged ⊢
  cases hjudged with
  | ok x => exact ⟨x, rfl⟩

/-- Where there is code for a statement, there is code for what is filled in. -/
theorem exists_lower_of_fill (hc : ∀ f, c ≠ .foreign f)
    (hσ : ∀ f ∈ c.openings, (σ f).effect?.isSome = true) (hregular : (c.fill σ).Regular)
    {code : List Target.Code} (hcode : lowerExprStmt (c.fill σ) = .ok code) :
    ∀ f ∈ c.openings, ∃ x, lower (σ f) = .ok x := by
  obtain ⟨hinside, hself⟩ := faultless_of_lowerExprStmt hregular hcode
  rw [appendsSeveral_fill hc hσ] at hself
  intro f hf
  refine exists_lower_of_faultless ?_
  cases hseveral : appendsSeveral c with
  | false => exact Expr.has_fill c (hself hseveral) f hf
  | true =>
    cases c with
    | call p g as =>
      cases g with
      | member q o n r =>
        rw [Expr.fill, Expr.fill, Expr.inside, List.any_append, Bool.or_eq_false_iff] at hinside
        obtain hf | hf := List.mem_append.mp hf
        · exact Expr.has_fill o (Bool.or_eq_false_iff.mp hinside.1).2 f hf
        · exact Expr.someHas_fillAll as hinside.2 f hf
      | _ => cases hseveral
    | _ => cases hseveral

/-- **The lines for a statement have the open places of `linePlaces`.** -/
theorem lowerExprStmt_emits (hc : ∀ f, c ≠ .foreign f) (hfs : c.openings ⊆ fs)
    (hσ : ∀ f ∈ c.openings, (σ f).effect?.isSome = true) (hregular : (c.fill σ).Regular)
    {code : List Target.Code} (hcode : lowerExprStmt (c.fill σ) = .ok code) :
    ∃ Ps : List (Pattern Foreign), Ps.map Pattern.openings = linePlaces c ∧
      ∀ τ, Alike σ τ fs →
        lowerExprStmt (c.fill τ) = .ok (Ps.map fun P ↦ .line (P.fill (codeIn τ))) := by
  obtain ⟨hinside, hself⟩ := faultless_of_lowerExprStmt hregular hcode
  rw [appendsSeveral_fill hc hσ] at hself
  cases hseveral : appendsSeveral c with
  | false =>
    obtain ⟨P, hP, hemits⟩ := lowerStatement_emits hc hfs (hself hseveral)
    refine ⟨[P], ?_, fun τ hτ ↦ ?_⟩
    · rw [linePlaces_of_one hseveral, List.map_singleton, hP]
    · obtain ⟨x, hx, hxP⟩ := hemits τ hτ
      have hone : appendsSeveral (c.fill τ) = false :=
        (appendsSeveral_fill hc (hτ.effects hfs)).trans hseveral
      simp only [lowerExprStmt_of_one hone, hx, List.map_singleton, ← hxP]
      rfl
  | true =>
    cases c with
    | call p f as =>
      cases f with
      | member q o n r =>
        rw [Expr.fill, Expr.fill, Expr.inside, List.any_append, Bool.or_eq_false_iff] at hinside
        rw [Expr.openings, List.append_subset] at hfs
        have ho := lower_emits o hfs.1 (Bool.or_eq_false_iff.mp hinside.1).2
        obtain ⟨R, hR, ho⟩ := ho
        obtain ⟨Ps, hPs, has⟩ := lowerPushes_emits (lowerAll_emitting as hfs.2 hinside.2) R
        refine ⟨Ps, ?_, fun τ hτ ↦ ?_⟩
        · rw [linePlaces, if_pos hseveral, hPs, hR]
        · obtain ⟨x, hx, hxR⟩ := ho τ hτ
          have hpush : appendsSeveral (.call p (.member q (o.fill τ) n r) (Expr.fillAll τ as)) :=
            appendsSeveral_call.mpr
              ((Expr.length_fillAll τ as).symm ▸ appendsSeveral_call.mp hseveral)
          rw [Expr.fill, Expr.fill, lowerExprStmt, if_pos hpush, ← has τ hτ, ← hxR]
          simp only [hx]
          rfl
      | _ => cases hseveral
    | _ => cases hseveral

end Emits

/-! ## Statements of a program -/

/-- **The effects in a statement are evaluated in the places of `linePlaces`.**  There is one for
each of them, in the order of the source, unless a method rearranges its arguments or several
elements are appended to an array with effects.

A statement that does not append several elements is a single line.  Each expression inside the
statement can be left open, and together with it others.  If the expressions `σ` that are left open
are effects, then there is code for each of them, and with any others `τ` of the same sorts the code
is the same, except for what stands in the open places. -/
theorem effects_in_order {source : Text} {ts : List Token} {prog : Program}
    (hts : tokenize source Pos.origin = .ok ts) (hparse : Grammar.parse ts = .ok prog)
    {p : Option Pos} {e : Expr} (he : .expr p e ∈ Stmt.insideAll prog.body) {words : Text}
    {update : Option Text} {code : List Target.Code}
    (hcode : lowerStmt words update (.expr p e) = .ok code) :
    (appendsSeveral e = false → ∃ x, lowerStatement e = .ok x ∧ code = [.line x.print]) ∧
    (∀ x ∈ e.inside, ∀ f, ∃ c, (∀ g, c ≠ .foreign g) ∧ Expr.IsFrame f x c e) ∧
    ∀ (c : Expr) (σ : Foreign → Expr), c.fill σ = e → (∀ f, c ≠ .foreign f) →
      (∀ f ∈ c.openings, (σ f).effect?.isSome = true) →
      Alike σ σ c.openings ∧
      ∃ Ps : List (Pattern Foreign), Ps.map Pattern.openings = linePlaces c ∧
        (c.has rearranges = false → repeatsReceiver c = false →
          Ps.flatMap Pattern.openings = c.openings) ∧
        ∀ τ, Alike σ τ c.openings → lowerStmt words update (.expr p (c.fill τ)) =
          .ok (Ps.map fun P ↦ .line (P.fill (codeIn τ))) := by
  rw [lowerStmt] at hcode
  obtain ⟨ajar, us, hspelled, hwritten⟩ := Grammar.written_of_inside hts hparse he
  have hregular : e.Regular := Stmt.regular_expr.mp
    (hwritten.regular (fun _ _ _ ⟨_, hfilled⟩ ↦ hfilled.regular fun _ _ _ h ↦
      Grammar.regular_holeAt _ h) hspelled)
  refine ⟨fun hone ↦ ?_, fun x hx f ↦ Expr.exists_frame e hregular hx, ?_⟩
  · rw [lowerExprStmt_of_one hone] at hcode
    cases hx : lowerStatement e with
    | error err =>
      rw [hx] at hcode
      cases hcode
    | ok x =>
      rw [hx] at hcode
      cases hcode
      exact ⟨x, rfl, rfl⟩
  · rintro c σ rfl hc hσ
    have hlower := exists_lower_of_fill hc hσ hregular hcode
    obtain ⟨Ps, hPs, hemits⟩ := lowerExprStmt_emits hc (List.Subset.refl _) hσ hregular hcode
    refine ⟨fun f hf ↦ ⟨hσ f hf, rfl, hlower f hf⟩, Ps, hPs, fun hrearranges hreceiver ↦ ?_,
      fun τ hτ ↦ ?_⟩
    · rw [← flatten_linePlaces hrearranges hreceiver, ← hPs, List.flatMap_def]
    · rw [lowerStmt, hemits τ hτ]

/-- In `s.substring(t.substring(□, 1), 2);` the open place stands four times. -/
example (f : Foreign) :
    linePlaces (.call none (.member none (.name none "s") "substring" none)
      [.call none (.member none (.name none "t") "substring" none) [.foreign f, .number none "1"],
       .number none "2"]) = [[f, f, f, f]] := rfl

/-- In `x = f(i++, s.substring(1, g()));` the update and the inner call are evaluated in this
order. -/
theorem effects_in_order_sample :
    let source : Text := "x=f(i++,s.substring(1,g()));"
    let a : Foreign := ⟨"a", none, [], [], none⟩
    let b : Foreign := ⟨"b", none, [], [], none⟩
    let σ : Foreign → Expr := fun f ↦ if f = a
      then .update (some ⟨1, 5⟩) "++" .after (.name (some ⟨1, 5⟩) "i")
      else .call (some ⟨1, 23⟩) (.name (some ⟨1, 23⟩) "g") []
    let c : Expr := .assign (some ⟨1, 1⟩) "=" (.name (some ⟨1, 1⟩) "x")
      (.call (some ⟨1, 3⟩) (.name (some ⟨1, 3⟩) "f") [.foreign a,
        .call (some ⟨1, 9⟩) (.member (some ⟨1, 9⟩) (.name (some ⟨1, 9⟩) "s") "substring"
          (some ⟨1, 11⟩)) [.number (some ⟨1, 21⟩) "1", .foreign b]])
    ∃ ts prog p code, tokenize source Pos.origin = .ok ts ∧ Grammar.parse ts = .ok prog ∧
      .expr p (c.fill σ) ∈ Stmt.insideAll prog.body ∧
      lowerStmt "User Function" none (.expr p (c.fill σ)) = .ok code ∧
      ∃ P : Pattern Foreign, P.openings = [a, b] ∧ code = [.line (P.fill (codeIn σ))] := by
  intro source a b σ c
  let ts : List Token :=
    [⟨.identifier, "x", ⟨1, 1⟩⟩, ⟨.mark .assign, "=", ⟨1, 2⟩⟩, ⟨.identifier, "f", ⟨1, 3⟩⟩,
     ⟨.mark .openParen, "(", ⟨1, 4⟩⟩, ⟨.identifier, "i", ⟨1, 5⟩⟩, ⟨.mark .increment, "++", ⟨1, 6⟩⟩,
     ⟨.mark .comma, ",", ⟨1, 8⟩⟩, ⟨.identifier, "s", ⟨1, 9⟩⟩, ⟨.mark .dot, ".", ⟨1, 10⟩⟩,
     ⟨.identifier, "substring", ⟨1, 11⟩⟩, ⟨.mark .openParen, "(", ⟨1, 20⟩⟩,
     ⟨.number, "1", ⟨1, 21⟩⟩, ⟨.mark .comma, ",", ⟨1, 22⟩⟩, ⟨.identifier, "g", ⟨1, 23⟩⟩,
     ⟨.mark .openParen, "(", ⟨1, 24⟩⟩, ⟨.mark .closeParen, ")", ⟨1, 25⟩⟩,
     ⟨.mark .closeParen, ")", ⟨1, 26⟩⟩, ⟨.mark .closeParen, ")", ⟨1, 27⟩⟩,
     ⟨.mark .semicolon, ";", ⟨1, 28⟩⟩]
  have hts : tokenize source Pos.origin = .ok ts := tokenize_of_toOption (by decide +kernel)
  have hparse : Grammar.parse ts =
      .ok ⟨some Pos.origin, [.expr (some ⟨1, 1⟩) (c.fill σ)]⟩ := rfl
  have he : Stmt.expr (some ⟨1, 1⟩) (c.fill σ) ∈
      Stmt.insideAll [.expr (some ⟨1, 1⟩) (c.fill σ)] := List.mem_cons_self
  have hcode : lowerStmt "User Function" none (.expr (some ⟨1, 1⟩) (c.fill σ)) =
      .ok [.line "x := f(i++, SubStr(s, 2, (g() - 1)))"] := rfl
  obtain ⟨-, -, hframes⟩ := effects_in_order hts hparse he hcode
  obtain ⟨hself, Ps, hPs, -, hfill⟩ := hframes c σ rfl nofun (by decide)
  have hone : Ps.length = 1 := (List.length_map _).symm.trans (congrArg List.length hPs)
  obtain ⟨P, rfl⟩ := List.length_eq_one_iff.mp hone
  refine ⟨ts, _, _, _, hts, hparse, he, hcode, P, List.singleton_inj.mp hPs, ?_⟩
  exact Except.ok.inj (hcode.symm.trans (hfill σ hself))

/-- A call in the start of a `substring` with an end cannot be evaluated once: whatever is written
in its stead is written twice. -/
theorem substring_start_repeated :
    let source : Text := "s.substring(f(),g());"
    let a : Foreign := ⟨"a", none, [], [], none⟩
    let call (name : Text) : Expr :=
      .call (some ⟨1, 13⟩) (.name (some ⟨1, 13⟩) (.text name)) []
    let c : Expr := .call (some ⟨1, 1⟩) (.member (some ⟨1, 1⟩) (.name (some ⟨1, 1⟩) "s") "substring"
      (some ⟨1, 3⟩)) [.foreign a, .call (some ⟨1, 17⟩) (.name (some ⟨1, 17⟩) "g") []]
    let e : Expr := c.fill fun _ ↦ call "f"
    (∃ ts prog p, tokenize source Pos.origin = .ok ts ∧ Grammar.parse ts = .ok prog ∧
      .expr p e ∈ Stmt.insideAll prog.body) ∧
    lowerExprStmt e = .ok [.line "SubStr(s, (f() + 1), (g() - f()))"] ∧
    call "f" ∈ e.inside ∧
    ¬ ∃ Ps : List (Pattern Foreign), Ps.flatMap Pattern.openings = [a] ∧
      ∀ τ, Alike (fun _ ↦ call "f") τ c.openings →
        lowerExprStmt (c.fill τ) = .ok (Ps.map fun P ↦ .line (P.fill (codeIn τ))) := by
  intro source a call c e
  let ts : List Token :=
    [⟨.identifier, "s", ⟨1, 1⟩⟩, ⟨.mark .dot, ".", ⟨1, 2⟩⟩, ⟨.identifier, "substring", ⟨1, 3⟩⟩,
     ⟨.mark .openParen, "(", ⟨1, 12⟩⟩, ⟨.identifier, "f", ⟨1, 13⟩⟩,
     ⟨.mark .openParen, "(", ⟨1, 14⟩⟩, ⟨.mark .closeParen, ")", ⟨1, 15⟩⟩,
     ⟨.mark .comma, ",", ⟨1, 16⟩⟩, ⟨.identifier, "g", ⟨1, 17⟩⟩, ⟨.mark .openParen, "(", ⟨1, 18⟩⟩,
     ⟨.mark .closeParen, ")", ⟨1, 19⟩⟩, ⟨.mark .closeParen, ")", ⟨1, 20⟩⟩,
     ⟨.mark .semicolon, ";", ⟨1, 21⟩⟩]
  have hts : tokenize source Pos.origin = .ok ts := tokenize_of_toOption (by decide +kernel)
  have hparse : Grammar.parse ts = .ok ⟨some Pos.origin, [.expr (some ⟨1, 1⟩) e]⟩ := rfl
  refine ⟨⟨ts, _, _, hts, hparse, List.mem_cons_self⟩, rfl, ?_, ?_⟩
  · exact List.mem_cons_of_mem _ (List.mem_cons_of_mem _ List.mem_cons_self)
  · rintro ⟨Ps, hopenings, hfill⟩
    -- The statement is one line, which has one open place.
    have halike (name : Text) : Alike (fun _ ↦ call "f") (fun _ ↦ call name) c.openings :=
      fun f _ ↦ ⟨rfl, rfl, _, rfl⟩
    have hshort := Except.ok.inj (hfill _ (halike "f"))
    have hlong := Except.ok.inj (hfill _ (halike "ff"))
    have hone : Ps.length = 1 := by simpa using (congrArg List.length hshort).symm
    obtain ⟨P, rfl⟩ := List.length_eq_one_iff.mp hone
    have hP : P.openings = [a] := by simpa using hopenings
    injection List.singleton_inj.mp hshort with hshort
    injection List.singleton_inj.mp hlong with hlong
    -- A longer name there should make it longer by one character, and makes it longer by two.
    have hlength := P.length_fill (codeIn fun _ ↦ call "f") (codeIn fun _ ↦ call "ff")
    rw [hP, ← hshort, ← hlong] at hlength
    revert hlength
    decide

end Advplc.Lowering

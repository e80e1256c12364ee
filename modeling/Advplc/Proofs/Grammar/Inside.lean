import Advplc.Proofs.Grammar.Regular

/-!
# The statements inside a program

`Stmt.insideAll` lists the statements of a program, at any depth.  Each of them is written by some
of the tokens of the program (`WrittenStmt.of_inside`), so what is known of the writings of a
statement is known of every statement that is parsed (`written_of_inside`).
-/

set_option autoImplicit false

namespace Advplc

namespace Script

mutual

/-- The statements inside a statement, at any depth. -/
def Stmt.inside : Stmt → List Stmt
  | .exportDecl _ s _ _ => s :: s.inside
  | .function _ _ _ b | .ifThen _ _ b | .forLoop _ _ _ _ b | .whileLoop _ _ b => Stmt.insideAll b
  | .ifElse _ _ y n => Stmt.insideAll y ++ Stmt.insideAll n
  | _ => []

/-- The statements of a list and those inside them. -/
def Stmt.insideAll : List Stmt → List Stmt
  | [] => []
  | s :: ss => (s :: s.inside) ++ Stmt.insideAll ss

end

end Script

namespace Grammar

open Script

/-- The statements of a clause, at any depth. -/
def Clause.statements : Clause → List Stmt
  | .stmt _ s => s :: s.inside
  | .stmts ss | .body _ ss => Stmt.insideAll ss

section Inside

variable {templates : Text → List Text → List Expr → Prop} {ts : List Token} {s : Stmt}

/-- **A statement of a clause is written by some of its tokens.** -/
theorem WrittenStmt.of_inside {clause : Clause} (h : WrittenStmt templates clause ts)
    (hs : s ∈ clause.statements) :
    ∃ ajar us, us ⊆ ts ∧ WrittenStmt templates (.stmt ajar s) us := by
  -- Either the statement is the clause itself, or it lies in one of the parts.
  have hself : ∀ {ajar : Bool} {s' : Stmt} {us : List Token},
      WrittenStmt templates (.stmt ajar s') us → (s ∈ s'.inside →
        ∃ ajar vs, vs ⊆ us ∧ WrittenStmt templates (.stmt ajar s) vs) → s ∈ s' :: s'.inside →
      ∃ ajar vs, vs ⊆ us ∧ WrittenStmt templates (.stmt ajar s) vs := by
    intro ajar s' us hwritten hinside hs
    obtain rfl | hs := List.mem_cons.mp hs
    · exact ⟨ajar, us, List.Subset.refl us, hwritten⟩
    · exact hinside hs
  have hpart : ∀ {us vs : List Token}, us ⊆ vs →
      (∃ ajar ws, ws ⊆ us ∧ WrittenStmt templates (.stmt ajar s) ws) →
      ∃ ajar ws, ws ⊆ vs ∧ WrittenStmt templates (.stmt ajar s) ws := by
    rintro us vs hsub ⟨ajar, ws, hws, hwritten⟩
    exact ⟨ajar, ws, List.Subset.trans hws hsub, hwritten⟩
  induction h with
  | nil => cases hs
  | cons hfirst hrest ihfirst ihrest =>
    obtain hs | hs := List.mem_append.mp hs
    · exact hpart (List.subset_append_left _ _) (ihfirst hs)
    · exact hpart (List.subset_append_right _ _) (ihrest hs)
  | braces l r hl hr _ ih =>
    exact hpart (fun t ht ↦ by simp [ht]) (ih hs)
  | single _ _ ih => exact ih (by simpa [Clause.statements, Stmt.insideAll] using hs)
  | exportDefaultFunction p q x d hx hd h ih =>
    refine hself (.exportDefaultFunction p q x d hx hd h) (fun hs ↦ ?_) hs
    exact hpart (fun t ht ↦ by simp [ht]) (ih hs)
  | exportFunction p q x hx h ih =>
    refine hself (.exportFunction p q x hx h) (fun hs ↦ ?_) hs
    exact hpart (fun t ht ↦ by simp [ht]) (ih hs)
  | exportVariable p x e hx he h =>
    refine hself (.exportVariable p x e hx he h) (fun hs ↦ ?_) hs
    obtain rfl := List.mem_singleton.mp hs
    exact ⟨false, _, List.subset_cons_self x _, .variable e he h⟩
  | function p f n l r o c hf hn hl hr ho hc hps hss ih =>
    refine hself (.function p f n l r o c hf hn hl hr ho hc hps hss) (fun hs ↦ ?_) hs
    exact hpart (fun t ht ↦ by simp [ht]) (ih hs)
  | ifThen p w l r hw hl hr htest hyes ih =>
    refine hself (.ifThen p w l r hw hl hr htest hyes) (fun hs ↦ ?_) hs
    exact hpart (fun t ht ↦ by simp [ht]) (ih hs)
  | ifElse p w l r x hw hl hr hx htest hyes hno ihyes ihno =>
    refine hself (.ifElse p w l r x hw hl hr hx htest hyes hno) (fun hs ↦ ?_) hs
    obtain hs | hs := List.mem_append.mp hs
    · exact hpart (fun t ht ↦ by simp [ht]) (ihyes hs)
    · exact hpart (fun t ht ↦ by simp [ht]) (ihno hs)
  | forLoop p w l m e r hw hl hm he hr hinit htest hupdate hss ih =>
    refine hself (.forLoop p w l m e r hw hl hm he hr hinit htest hupdate hss) (fun hs ↦ ?_) hs
    exact hpart (fun t ht ↦ by simp [ht]) (ih hs)
  | whileLoop p w l r hw hl hr htest hss ih =>
    refine hself (.whileLoop p w l r hw hl hr htest hss) (fun hs ↦ ?_) hs
    exact hpart (fun t ht ↦ by simp [ht]) (ih hs)
  | lineComment p t w ht hw => exact hself (.lineComment p t w ht hw) nofun hs
  | blockComment p t w ht hw => exact hself (.blockComment p t w ht hw) nofun hs
  | importFrom p i m e w hi hm hw he h =>
    exact hself (.importFrom p i m e w hi hm hw he h) nofun hs
  | exportDefault p x d e hx hd he h => exact hself (.exportDefault p x d e hx hd he h) nofun hs
  | exportNames p x l r e hx hl hr he h =>
    exact hself (.exportNames p x l r e hx hl hr he h) nofun hs
  | «variable» e he h => exact hself (.variable e he h) nofun hs
  | print p w e hw he h => exact hself (.print p w e hw he h) nofun hs
  | console p w l r e hw hl hr he h => exact hself (.console p w l r e hw hl hr he h) nofun hs
  | ret p w e hw he h => exact hself (.ret p w e hw he h) nofun hs
  | breakLoop p w e hw he => exact hself (.breakLoop p w e hw he) nofun hs
  | continueLoop p w e hw he => exact hself (.continueLoop p w e hw he) nofun hs
  | expr p e he h => exact hself (.expr p e he h) nofun hs

end Inside

/-- Every statement of a source that is parsed is written with tokens of the source. -/
theorem written_of_inside {source : Text} {p : Pos} {ts : List Token} {prog : Program}
    (hts : tokenize source p = .ok ts) (h : parse ts = .ok prog) {s : Stmt}
    (hs : s ∈ Stmt.insideAll prog.body) :
    ∃ ajar us, (∀ t ∈ us, t.Spelled) ∧
      WrittenStmt (filledTemplates readHole) (.stmt ajar s) us := by
  obtain ⟨ajar, us, hus, hwritten⟩ := (written_of_tokenize hts h).of_inside hs
  exact ⟨ajar, us, fun t ht ↦ spelled_of_tokenize hts t (hus ht), hwritten⟩

end Grammar

end Advplc

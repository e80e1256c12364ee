import Advplc.Target.Expr

/-!
# Texts with open places

A `Pattern` is a text that is known except for what stands in its open places.  The places have
labels, and a label may stand in several of them.  `Pattern.fill` puts texts into the places, and
`Pattern.openings` lists their labels in order, each as often as it occurs.
-/

set_option autoImplicit false

namespace Advplc.Target

/-- A text with open places that are labelled with members of `α`. -/
abbrev Pattern (α : Type) := List (Text ⊕ α)

namespace Pattern

variable {α : Type}

/-- The text without open places. -/
def of (t : Text) : Pattern α := [.inl t]

/-- An open place. -/
def place (a : α) : Pattern α := [.inr a]

/-- Patterns one after another, with `sep` between neighbours. -/
def join (sep : Text) (Ps : List (Pattern α)) : Pattern α := List.intercalate (of sep) Ps

/-- The text with its open places filled. -/
def fill (ρ : α → Text) (P : Pattern α) : Text := P.flatMap (Sum.elim id ρ)

/-- The labels of the open places, in order. -/
def openings (P : Pattern α) : List α := P.flatMap (Sum.elim (fun _ ↦ []) fun a ↦ [a])

section Lemmas

variable (ρ : α → Text)

@[simp] theorem fill_append (P Q : Pattern α) : fill ρ (P ++ Q) = fill ρ P ++ fill ρ Q :=
  List.flatMap_append

@[simp] theorem fill_of (t : Text) : fill ρ (of t) = t := List.append_nil t

@[simp] theorem fill_place (a : α) : fill ρ (place a) = ρ a := List.append_nil (ρ a)

@[simp] theorem fill_join (sep : Text) (Ps : List (Pattern α)) :
    fill ρ (join sep Ps) = Text.joinWith sep (Ps.map (fill ρ)) := by
  induction Ps with
  | nil => rfl
  | cons P Ps ih =>
    cases Ps with
    | nil => simp [join, Text.joinWith]
    | cons Q Ps =>
      simp only [join, Text.joinWith, List.map_cons, List.intercalate_cons_cons, fill_append,
        fill_of] at ih ⊢
      rw [ih]

@[simp] theorem openings_append (P Q : Pattern α) :
    openings (P ++ Q) = openings P ++ openings Q :=
  List.flatMap_append

@[simp] theorem openings_of (t : Text) : openings (of t : Pattern α) = [] := rfl

@[simp] theorem openings_place (a : α) : openings (place a) = [a] := rfl

@[simp] theorem openings_join (sep : Text) (Ps : List (Pattern α)) :
    openings (join sep Ps) = Ps.flatMap openings := by
  induction Ps with
  | nil => rfl
  | cons P Ps ih =>
    cases Ps with
    | nil => simp [join]
    | cons Q Ps =>
      simp only [join, List.intercalate_cons_cons, openings_append, openings_of,
        List.flatMap_cons, List.append_nil] at ih ⊢
      rw [ih]

/-- The text becomes longer by what the open places become longer by. -/
theorem length_fill (ρ ρ' : α → Text) (P : Pattern α) :
    (fill ρ P).length + (P.openings.flatMap ρ').length =
      (fill ρ' P).length + (P.openings.flatMap ρ).length := by
  induction P with
  | nil => rfl
  | cons x P ih =>
    cases x with
    | inl t =>
      simp only [fill, openings, List.flatMap_cons, Sum.elim_inl, List.length_append, id,
        List.nil_append] at ih ⊢
      omega
    | inr a =>
      simp only [fill, openings, List.flatMap_cons, Sum.elim_inr, List.length_append,
        List.singleton_append] at ih ⊢
      omega

end Lemmas

/-- Whether what is made of texts can be made of patterns, with their open places in order. -/
def Lifts (F : List Text → Text) : Prop :=
  ∀ (α : Type) (Ps : List (Pattern α)), ∃ P : Pattern α, P.openings = Ps.flatMap openings ∧
    ∀ ρ, P.fill ρ = F (Ps.map (fill ρ))

theorem lifts_enclosed (before sep after : Text) :
    Lifts fun ts ↦ before ++ Text.joinWith sep ts ++ after :=
  fun _ Ps ↦ ⟨of before ++ join sep Ps ++ of after, by simp, by simp⟩

/-- What is made of no texts, or of one, may be another thing. -/
theorem Lifts.of_eq {F G : List Text → Text} (hF : Lifts F) (hnone : ∃ t, G [] = t)
    (hone : (∀ t, G [t] = t) ∨ ∀ t, G [t] = F [t])
    (h : ∀ t u ts, G (t :: u :: ts) = F (t :: u :: ts)) : Lifts G := by
  intro α Ps
  obtain ⟨t, ht⟩ := hnone
  match Ps with
  | [] => exact ⟨of t, rfl, by simp [ht]⟩
  | [P] =>
    obtain hone | hone := hone
    · exact ⟨P, by simp, by simp [hone]⟩
    · simpa [hone] using hF α [P]
  | P :: Q :: Ps => simpa [h] using hF α (P :: Q :: Ps)

end Pattern

end Advplc.Target

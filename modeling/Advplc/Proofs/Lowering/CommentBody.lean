import Advplc.Lowering.Comment
import Advplc.Proofs.Text.Blanks
import Mathlib.Data.List.Forall2

/-!
# What a block comment says

Of every line of a block comment the generator keeps what it `Says`, and of the lines it leaves out
the empty ones at both ends (`saysAll_commentBody`).  Nothing is said that does not stand somewhere
in a line of the comment as it is (`Says.isInfix`).
-/

set_option autoImplicit false

namespace Advplc

/-- What a line of a block comment says: the line without the blanks at its ends, and if it begins
with a star, without the star and one blank behind it. -/
inductive Says (line : Text) : Text → Prop
  | plain (h : line.trim.head? ≠ some (.scalar '*')) : Says line line.trim
  | star {said : Text} (h : line.trim = .scalar '*' :: said)
      (hsaid : ∀ c ∈ said.head?, c.isBlank = false) : Says line said
  | gutter {c : CodePoint} {said : Text} (h : line.trim = .scalar '*' :: c :: said)
      (hc : c.isBlank = true) : Says line said

/-- What several lines say, without the empty lines at the beginning and at the end. -/
structure SaysAll (lines said : List Text) : Prop where
  first : said.head? ≠ some []
  last : said.getLast? ≠ some []
  between : ∃ i j, List.Forall₂ Says lines (List.replicate i [] ++ said ++ List.replicate j [])

section Lines

variable {line said : Text}

theorem Says.isSuffix (h : Says line said) : said <:+ line.trim := by
  rcases h with _ | ⟨h, -⟩ | ⟨h, -⟩
  · exact List.suffix_rfl
  · exact h ▸ List.suffix_cons _ _
  · exact h ▸ ⟨[_, _], rfl⟩

theorem Says.isInfix (h : Says line said) : said <:+: line :=
  h.isSuffix.isInfix.trans (Text.isInfix_trim line)

/-- What a line says is empty or ends with no blank. -/
theorem Says.not_blank (h : Says line said) : ∀ c ∈ said.getLast?, c.isBlank = false := by
  intro c hc
  refine Text.not_blank_of_getLast?_trim line c ?_
  obtain ⟨front, hfront⟩ := h.isSuffix
  obtain ⟨hne, -⟩ := List.mem_getLast?_eq_getLast hc
  rw [← hfront, List.getLast?_append_of_ne_nil _ hne]
  exact hc

theorem says_withoutGutter (line : Text) : Says line (Lowering.withoutGutter line.trim) := by
  generalize hline : line.trim = w
  fun_cases Lowering.withoutGutter w with
  | case1 c rest hc => exact .gutter hline hc
  | case2 c rest hc => exact .star hline (by simpa using hc)
  | case3 => exact .star hline (by simp)
  | case4 w hgutter hstar =>
    refine hline ▸ .plain fun hhead ↦ ?_
    obtain ⟨rest, hrest⟩ := List.head?_eq_some_iff.mp hhead
    rcases rest with _ | ⟨c, rest⟩
    · exact hstar (hline.symm.trans hrest)
    · exact hgutter c rest (hline.symm.trans hrest)

end Lines

/-- The empty lines at the beginning, and the others. -/
theorem exists_dropEmpty (ls : List Text) :
    ∃ i, ls = List.replicate i [] ++ Lowering.dropEmpty ls := by
  refine ⟨(ls.takeWhile List.isEmpty).length, ?_⟩
  have hempty : ls.takeWhile List.isEmpty = List.replicate (ls.takeWhile List.isEmpty).length [] :=
    List.eq_replicate_of_mem fun l hl ↦ List.isEmpty_iff.mp (List.mem_takeWhile_imp hl)
  rw [← hempty]
  exact List.takeWhile_append_dropWhile.symm

theorem head?_dropEmpty (ls : List Text) : (Lowering.dropEmpty ls).head? ≠ some [] := by
  intro h
  have hstop := List.head?_dropWhile_not List.isEmpty ls
  rw [← Lowering.dropEmpty, h] at hstop
  cases hstop

theorem saysAll_commentBody (ls : List Text) : SaysAll ls (Lowering.commentBody ls) := by
  let ms := ls.map fun line ↦ Lowering.withoutGutter line.trim
  have hsays : List.Forall₂ Says ls ms :=
    List.forall₂_map_right_iff.mpr (List.forall₂_same.mpr fun line _ ↦ says_withoutGutter line)
  obtain ⟨i, hi⟩ := exists_dropEmpty ms
  obtain ⟨j, hj⟩ := exists_dropEmpty (Lowering.dropEmpty ms).reverse
  have hfront : Lowering.dropEmpty ms = Lowering.commentBody ls ++ List.replicate j [] := by
    have hreverse := congrArg List.reverse hj
    rwa [List.reverse_reverse, List.reverse_append, List.reverse_replicate] at hreverse
  refine ⟨fun h ↦ head?_dropEmpty ms ?_, ?_, i, j, ?_⟩
  · rw [hfront, List.head?_append, h, Option.some_or]
  · rw [Lowering.commentBody, List.getLast?_reverse]
    exact head?_dropEmpty _
  · rw [List.append_assoc, ← hfront, ← hi]
    exact hsays

/-- Everything that is said is said by some line. -/
theorem SaysAll.exists_line {lines ls : List Text} (h : SaysAll lines ls) :
    ∀ said ∈ ls, ∃ line ∈ lines, Says line said := by
  obtain ⟨-, -, i, j, hbetween⟩ := h
  have hall : ∀ {ls ms : List Text}, List.Forall₂ Says ls ms → ∀ m ∈ ms, ∃ l ∈ ls, Says l m := by
    intro ls ms h
    induction h with
    | nil => simp
    | cons h _ ih =>
      refine List.forall_mem_cons.mpr ⟨⟨_, List.mem_cons_self, h⟩, fun m hm ↦ ?_⟩
      obtain ⟨l, hl, hsays⟩ := ih m hm
      exact ⟨l, List.mem_cons_of_mem _ hl, hsays⟩
  exact fun said hsaid ↦ hall hbetween said (by simp [hsaid])

end Advplc

import Advplc.Text.Basic

/-!
# Units of escaped texts

In an escaped text a backslash belongs to the code point behind it.  `Text.units` takes such a text
apart from the left, into backslashes with their partners and code points that stand alone, so that
a quote or a brace in it can be told from one that a backslash hides.

Only a backslash at the very end has no partner.  Texts without one (`Text.Paired`) can be taken
apart piece by piece (`Text.units_append`).
-/

set_option autoImplicit false

namespace Advplc.Text

/-- The units of an escaped text: a backslash together with the code point behind it, or a code
point alone. -/
def units : Text → List Text
  | .scalar '\\' :: c :: rest => ['\\', c] :: units rest
  | c :: rest => [c] :: units rest
  | [] => []

/-- Every backslash has a partner behind it. -/
def Paired (t : Text) : Prop := [.scalar '\\'] ∉ units t

/-- Every backslash has a partner behind it, which is not a line feed. -/
structure Escaped (t : Text) : Prop where
  paired : Paired t
  unbroken : [.scalar '\\', .scalar '\n'] ∉ units t

/-- A text that can stand between two `quote`s: no quote in it is bare, and every backslash has a
partner, which is not a line feed. -/
structure Enclosed (quote : CodePoint) (t : Text) : Prop extends Escaped t where
  bare : [quote] ∉ units t

instance (t : Text) : Decidable (Paired t) := inferInstanceAs (Decidable (_ ∉ units t))

instance (t : Text) : Decidable (Escaped t) :=
  decidable_of_iff (Paired t ∧ [.scalar '\\', .scalar '\n'] ∉ units t)
    ⟨fun h ↦ ⟨h.1, h.2⟩, fun h ↦ ⟨h.1, h.2⟩⟩

instance (quote : CodePoint) (t : Text) : Decidable (Enclosed quote t) :=
  decidable_of_iff (Escaped t ∧ [quote] ∉ units t) ⟨fun h ↦ ⟨h.1, h.2⟩, fun h ↦ ⟨h.1, h.2⟩⟩

/-! ## Taking texts apart -/

variable {quote c : CodePoint} {s t : Text}

@[simp] theorem units_nil : units [] = [] := rfl

@[simp] theorem units_escape (c : CodePoint) (t : Text) :
    units (.scalar '\\' :: c :: t) = [.scalar '\\', c] :: units t := by rw [units]

theorem units_cons (hc : c ≠ '\\') (t : Text) : units (c :: t) = [c] :: units t := by
  rw [units]
  intro d rest h
  exact absurd h hc

/-- Without a backslash every code point stands alone. -/
theorem units_of_not_mem (h : .scalar '\\' ∉ t) : units t = t.map fun c ↦ [c] := by
  induction t with
  | nil => rfl
  | cons c t ih =>
    rw [List.mem_cons, not_or] at h
    rw [units_cons (Ne.symm h.1), ih h.2, List.map_cons]

theorem mem_of_mem_units (h : [c] ∈ units t) : c ∈ t := by
  fun_induction units t with
  | case1 d rest ih =>
    obtain h | h := List.mem_cons.mp h
    · simp at h
    · exact List.mem_cons_of_mem _ (List.mem_cons_of_mem _ (ih h))
  | case2 d rest _ ih =>
    obtain h | h := List.mem_cons.mp h
    · rw [List.singleton_inj.mp h]
      exact List.mem_cons_self
    · exact List.mem_cons_of_mem _ (ih h)
  | case3 => cases h

theorem paired_escape : Paired (.scalar '\\' :: c :: t) ↔ Paired t := by
  rw [Paired, Paired, units_escape, List.mem_cons]
  simp

theorem paired_cons (hc : c ≠ '\\') : Paired (c :: t) ↔ Paired t := by
  rw [Paired, Paired, units_cons hc, List.mem_cons, List.singleton_inj]
  simp [Ne.symm hc]

/-- A text in which every backslash has a partner is put together from the left. -/
@[elab_as_elim]
theorem Paired.induct {motive : Text → Prop} (h : Paired t) (nil : motive [])
    (escape : ∀ (c : CodePoint) (t : Text), motive t → motive (.scalar '\\' :: c :: t))
    (cons : ∀ (c : CodePoint) (t : Text), c ≠ '\\' → motive t → motive (c :: t)) : motive t := by
  fun_induction units t with
  | case1 c rest ih => exact escape c rest (ih (paired_escape.mp h))
  | case2 c rest hescape ih =>
    by_cases hc : c = '\\'
    · subst hc
      cases rest with
      | nil => exact absurd (by decide) h
      | cons d rest => exact absurd rfl (hescape d rest rfl)
    · exact cons c rest hc (ih ((paired_cons hc).mp h))
  | case3 => exact nil

/-- Behind a text in which every backslash has a partner, the next one is read as if it stood
alone. -/
theorem units_append (hs : Paired s) (t : Text) : units (s ++ t) = units s ++ units t := by
  refine hs.induct rfl (fun c s ih ↦ ?_) (fun c s hc ih ↦ ?_)
  · rw [List.cons_append, List.cons_append, units_escape, units_escape, ih, List.cons_append]
  · rw [List.cons_append, units_cons hc, units_cons hc, ih, List.cons_append]

/-- The units of a whole are those of its parts. -/
theorem mem_units_append (hs : Paired s) {u : Text} :
    u ∈ units (s ++ t) ↔ u ∈ units s ∨ u ∈ units t := by
  rw [units_append hs, List.mem_append]

/-! ## Escaped and enclosed texts -/

namespace Escaped

theorem of_not_mem (h : .scalar '\\' ∉ t) : Escaped t := by
  refine ⟨?_, ?_⟩
  · rw [Paired, units_of_not_mem h]
    simpa using h
  · rw [units_of_not_mem h]
    simp

theorem append (hs : Escaped s) (ht : Escaped t) : Escaped (s ++ t) := by
  refine ⟨?_, ?_⟩
  · rw [Paired, mem_units_append hs.paired, not_or]
    exact ⟨hs.paired, ht.paired⟩
  · rw [mem_units_append hs.paired, not_or]
    exact ⟨hs.unbroken, ht.unbroken⟩

end Escaped

namespace Enclosed

theorem of_not_mem (hescape : .scalar '\\' ∉ t) (hquote : quote ∉ t) : Enclosed quote t := by
  refine ⟨.of_not_mem hescape, ?_⟩
  rw [units_of_not_mem hescape]
  simpa using hquote

theorem append (hs : Enclosed quote s) (ht : Enclosed quote t) : Enclosed quote (s ++ t) := by
  refine ⟨hs.toEscaped.append ht.toEscaped, ?_⟩
  rw [mem_units_append hs.paired, not_or]
  exact ⟨hs.bare, ht.bare⟩

theorem left (hs : Escaped s) (h : Enclosed quote (s ++ t)) : Enclosed quote s :=
  ⟨hs, fun hquote ↦ h.bare ((mem_units_append hs.paired).mpr (.inl hquote))⟩

theorem right (hs : Paired s) (h : Enclosed quote (s ++ t)) : Enclosed quote t := by
  obtain ⟨⟨hpaired, hunbroken⟩, hbare⟩ := h
  rw [Paired, mem_units_append hs, not_or] at hpaired
  rw [mem_units_append hs, not_or] at hbare hunbroken
  exact ⟨⟨hpaired.2, hunbroken.2⟩, hbare.2⟩

theorem nil (quote : CodePoint) : Enclosed quote [] := .of_not_mem List.not_mem_nil List.not_mem_nil

theorem escape (hc : c ≠ '\n') (h : Enclosed quote t) :
    Enclosed quote (.scalar '\\' :: c :: t) := by
  obtain ⟨⟨hpaired, hunbroken⟩, hbare⟩ := h
  refine ⟨⟨paired_escape.mpr hpaired, ?_⟩, ?_⟩
  · rw [units_escape, List.mem_cons, not_or]
    exact ⟨by simpa using Ne.symm hc, hunbroken⟩
  · rw [units_escape, List.mem_cons, not_or]
    exact ⟨by simp, hbare⟩

theorem cons (hc : c ≠ '\\') (hquote : c ≠ quote) (h : Enclosed quote t) :
    Enclosed quote (c :: t) :=
  append (s := [c]) (of_not_mem (by simpa using Ne.symm hc) (by simpa using Ne.symm hquote)) h

/-- What can stand between two quotes is put together from the left. -/
@[elab_as_elim]
theorem induct {motive : Text → Prop} (h : Enclosed quote t) (nil : motive [])
    (escape : ∀ (c : CodePoint) (t : Text), c ≠ '\n' → motive t → motive (.scalar '\\' :: c :: t))
    (cons : ∀ (c : CodePoint) (t : Text), c ≠ '\\' → c ≠ quote → motive t → motive (c :: t)) :
    motive t := by
  have hunits : [.scalar '\\', .scalar '\n'] ∉ units t ∧ [quote] ∉ units t → motive t := by
    refine h.paired.induct (fun _ ↦ nil) (fun c t ih ↦ ?_) (fun c t hc ih ↦ ?_)
    · rw [units_escape, List.mem_cons, List.mem_cons, not_or, not_or]
      rintro ⟨⟨hc, hunbroken⟩, -, hbare⟩
      exact escape c t (by rintro rfl; exact hc rfl) (ih ⟨hunbroken, hbare⟩)
    · rw [units_cons hc, List.mem_cons, List.mem_cons, not_or, not_or]
      rintro ⟨⟨-, hunbroken⟩, hquote, hbare⟩
      exact cons c t hc (by rintro rfl; exact hquote rfl) (ih ⟨hunbroken, hbare⟩)
  exact hunits ⟨h.unbroken, h.bare⟩

end Enclosed

end Advplc.Text

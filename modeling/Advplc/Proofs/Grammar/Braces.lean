import Advplc.Proofs.Grammar.Written

/-!
# The braces of an expression

In an expression braces belong to objects, so there are as many of them in every writing of the
expression as there are objects in it (`Written.marks`).  Semicolons there are none.

A mark could be taken for the name of a property if its text were a name; the marks of a source are
spelled as marks.
-/

set_option autoImplicit false

namespace Advplc

/-! ## Objects -/

namespace Script

mutual

/-- The number of objects in an expression, those in the holes of templates not counted. -/
def Expr.objects : Expr → Nat
  | .object _ ps => Expr.objectsProperties ps + 1
  | .array _ es => Expr.objectsAll es
  | .binary _ _ l r => l.objects + r.objects
  | .unary _ _ e | .update _ _ _ e => e.objects
  | .assign _ _ t v => t.objects + v.objects
  | .conditional _ t y n => t.objects + (y.objects + n.objects)
  | .member _ o _ _ => o.objects
  | .index _ o k => o.objects + k.objects
  | .call _ f as | .new _ f as => f.objects + Expr.objectsAll as
  | _ => 0

/-- The number of objects in expressions. -/
def Expr.objectsAll : List Expr → Nat
  | [] => 0
  | e :: es => e.objects + Expr.objectsAll es

/-- The number of objects in the values of properties. -/
def Expr.objectsProperties : List (Lexeme × Expr) → Nat
  | [] => 0
  | (_, e) :: ps => e.objects + Expr.objectsProperties ps

end

mutual

/-- The number of objects does not depend on positions. -/
theorem Expr.objects_bare (e : Expr) : e.bare.objects = e.objects := by
  cases e with
  | object p ps => rw [Expr.bare, Expr.objects, Expr.objects, Expr.objectsProperties_bare ps]
  | array p es => rw [Expr.bare, Expr.objects, Expr.objects, Expr.objectsAll_bare es]
  | binary p op l r =>
    rw [Expr.bare, Expr.objects, Expr.objects, Expr.objects_bare l, Expr.objects_bare r]
  | unary p op e => rw [Expr.bare, Expr.objects, Expr.objects, Expr.objects_bare e]
  | update p op side e => rw [Expr.bare, Expr.objects, Expr.objects, Expr.objects_bare e]
  | assign p op t v =>
    rw [Expr.bare, Expr.objects, Expr.objects, Expr.objects_bare t, Expr.objects_bare v]
  | conditional p t y n =>
    rw [Expr.bare, Expr.objects, Expr.objects, Expr.objects_bare t, Expr.objects_bare y,
      Expr.objects_bare n]
  | member p o n q => rw [Expr.bare, Expr.objects, Expr.objects, Expr.objects_bare o]
  | index p o k =>
    rw [Expr.bare, Expr.objects, Expr.objects, Expr.objects_bare o, Expr.objects_bare k]
  | call p f as =>
    rw [Expr.bare, Expr.objects, Expr.objects, Expr.objects_bare f, Expr.objectsAll_bare as]
  | new p f as =>
    rw [Expr.bare, Expr.objects, Expr.objects, Expr.objects_bare f, Expr.objectsAll_bare as]
  | _ => rfl

theorem Expr.objectsAll_bare (es : List Expr) :
    Expr.objectsAll (Expr.bareAll es) = Expr.objectsAll es := by
  cases es with
  | nil => rfl
  | cons e es =>
    rw [Expr.bareAll, Expr.objectsAll, Expr.objectsAll, Expr.objects_bare e,
      Expr.objectsAll_bare es]

theorem Expr.objectsProperties_bare (ps : List (Lexeme × Expr)) :
    Expr.objectsProperties (Expr.bareProperties ps) = Expr.objectsProperties ps := by
  cases ps with
  | nil => rfl
  | cons p ps =>
    obtain ⟨k, e⟩ := p
    rw [Expr.bareProperties, Expr.objectsProperties, Expr.objectsProperties, Expr.objects_bare e,
      Expr.objectsProperties_bare ps]

end

end Script

/-! ## Marks -/

namespace Grammar

open Script

variable {templates : Text → List Text → List Expr → Prop} {ts us : List Token} {t u : Token}

/-- The number of tokens that are a given mark. -/
def marks (m : Mark) (ts : List Token) : Nat := ts.countP fun t ↦ t.kind = .mark m

@[simp] theorem marks_nil (m : Mark) : marks m [] = 0 := rfl

@[simp] theorem marks_append (m : Mark) (ts us : List Token) :
    marks m (ts ++ us) = marks m ts + marks m us := List.countP_append

theorem marks_cons_of_eq {m : Mark} (h : t.kind = .mark m) (ts : List Token) :
    marks m (t :: ts) = marks m ts + 1 :=
  List.countP_cons_of_pos (by simpa using h)

theorem marks_cons_of_ne {m : Mark} (h : t.kind ≠ .mark m) (ts : List Token) :
    marks m (t :: ts) = marks m ts :=
  List.countP_cons_of_neg (by simpa using h)

/-- No mark among the tokens has the form of a name. -/
def MarksSpelled (ts : List Token) : Prop :=
  ∀ t ∈ ts, ∀ m : Mark, t.kind = .mark m → ¬ Token.NamesProperty t

/-- The number of objects in a phrase. -/
def Phrase.objects : Phrase → Nat
  | .expr _ e | .callee e | .property _ e => e.objects
  | .arguments es | .items es | .elements es => Expr.objectsAll es
  | .properties ps => Expr.objectsProperties ps

/-- There are `n` opening braces among the tokens and no semicolons, as long as marks are not taken
for names. -/
def Tallies (n : Nat) (ts : List Token) : Prop :=
  MarksSpelled ts → marks .openBrace ts = n ∧ marks .semicolon ts = 0

/-- The kinds that are tallied. -/
def tallied : List Kind := [.mark .openBrace, .mark .semicolon]

section Tallying

variable {n k : Nat}

theorem MarksSpelled.of_subset (hts : MarksSpelled ts) (h : us ⊆ ts) : MarksSpelled us :=
  fun t ht ↦ hts t (h ht)

theorem Tallies.nil : Tallies 0 [] := fun _ ↦ ⟨rfl, rfl⟩

/-- Counts add up where tokens stand side by side. -/
theorem Tallies.append (hts : Tallies n ts) (hus : Tallies k us) : Tallies (n + k) (ts ++ us) := by
  intro h
  obtain ⟨hbraces, hsemicolons⟩ := hts (h.of_subset (List.subset_append_left ts us))
  obtain ⟨hbraces', hsemicolons'⟩ := hus (h.of_subset (List.subset_append_right ts us))
  rw [marks_append, marks_append, hbraces, hbraces', hsemicolons, hsemicolons']
  exact ⟨rfl, rfl⟩

theorem Tallies.one (ht : t.kind ∉ tallied) : Tallies 0 [t] := by
  intro _
  simp only [tallied, List.mem_cons, List.not_mem_nil, or_false, not_or] at ht
  exact ⟨marks_cons_of_ne ht.1 [], marks_cons_of_ne ht.2 []⟩

theorem Tallies.cons (ht : t.kind ∉ tallied) (hts : Tallies n ts) : Tallies n (t :: ts) := by
  have h := Tallies.append (.one ht) hts
  rwa [Nat.zero_add, List.singleton_append] at h

/-- A token that is not counted may stand between. -/
theorem Tallies.divided (ht : t.kind ∉ tallied) (hts : Tallies n ts) (hus : Tallies k us) :
    Tallies (n + k) (ts ++ t :: us) := .append hts (.cons ht hus)

theorem Tallies.closed (ht : t.kind ∉ tallied) (hts : Tallies n ts) : Tallies n (ts ++ [t]) :=
  .divided ht hts .nil

theorem Tallies.braces (ht : t.kind = .mark .openBrace) (hu : u.kind = .mark .closeBrace)
    (hts : Tallies n ts) : Tallies (n + 1) (t :: (ts ++ [u])) := by
  intro h
  have hinside : u.kind ∉ tallied := by
    rw [hu]
    decide
  have hsemicolon : t.kind ≠ .mark .semicolon := by
    rw [ht]
    decide
  obtain ⟨hbraces, hsemicolons⟩ := hts.closed hinside (h.of_subset (List.subset_cons_self t _))
  rw [marks_cons_of_eq ht, marks_cons_of_ne hsemicolon, hbraces, hsemicolons]
  exact ⟨rfl, rfl⟩

/-- The name of a property is no brace, as far as marks are spelled as marks. -/
theorem Tallies.name (ht : Token.NamesProperty t) : Tallies 0 [t] := by
  intro h
  have hmark : ∀ m : Mark, t.kind ≠ .mark m := fun m hm ↦ h t List.mem_cons_self m hm ht
  exact ⟨marks_cons_of_ne (hmark _) [], marks_cons_of_ne (hmark _) []⟩

theorem Tallies.key {key : Lexeme} (ht : WritesKey t key) : Tallies 0 [t] := by
  cases ht with
  | string w ht hw => exact .one (by rw [ht]; decide)
  | number ht => exact .one (by rw [ht]; decide)
  | name ht hkind => exact .name ht

end Tallying

/-- **A writing of an expression has as many opening braces as the expression has objects, and no
semicolons.** -/
theorem Written.tallies {phrase : Phrase} (h : Written templates phrase ts) :
    Tallies phrase.objects ts := by
  have hkind : ∀ {t : Token} {k : Kind}, t.kind = k → k ∉ tallied → t.kind ∉ tallied :=
    fun h hk ↦ h ▸ hk
  have hmem : ∀ {t : Token} {ks : List Kind}, t.kind ∈ ks → (∀ k ∈ ks, k ∉ tallied) →
      t.kind ∉ tallied := fun ht hks ↦ hks _ ht
  -- Whatever is written, the tokens of a rule itself are of kinds that are not counted, but for the
  -- brace of an object.
  have hlevels : ∀ ops ∈ binaryLevels, ∀ k ∈ ops, k ∉ tallied := by decide
  induction h with
  | number p t ht => exact .one (hkind ht (by decide))
  | string p t w ht hw => exact .one (hkind ht (by decide))
  | template p t w chunks holes ht hw hholes => exact .one (hkind ht (by decide))
  | trueWord p t ht hw => exact .one (hkind ht (by decide))
  | falseWord p t ht hw => exact .one (hkind ht (by decide))
  | nullWord p t ht hw => exact .one (hkind ht (by decide))
  | name p t ht hw => exact .one (hkind ht (by decide))
  | thisWord p t ht => exact .one (hkind ht (by decide))
  | calleeName p t ht => exact .one (hkind ht (by decide))
  | shorthand p t ht => exact .one (hkind ht (by decide))
  | noArguments | noElements | noProperties => exact .nil
  | object p l r hl hr _ ih => exact .braces hl hr ih
  | array p l r hl hr _ ih =>
    exact .cons (hkind hl (by decide)) (.closed (hkind hr (by decide)) ih)
  | parentheses l r hl hr _ ih =>
    exact .cons (hkind hl (by decide)) (.closed (hkind hr (by decide)) ih)
  | new p n l r hn hl hr _ _ ihe ihes =>
    exact .cons (hkind hn (by decide))
      (.divided (hkind hl (by decide)) ihe (.closed (hkind hr (by decide)) ihes))
  | newBare p n hn _ ih => exact .cons (hkind hn (by decide)) ih
  | member p q d n hd hn _ ih => exact .divided (hkind hd (by decide)) ih (.name hn)
  | calleeMember p q d n hd hn _ ih => exact .divided (hkind hd (by decide)) ih (.name hn)
  | index p l r hl hr _ _ ihe ihk =>
    exact .divided (hkind hl (by decide)) ihe (.closed (hkind hr (by decide)) ihk)
  | call p l r hl hr _ _ ihe ihes =>
    exact .divided (hkind hl (by decide)) ihe (.closed (hkind hr (by decide)) ihes)
  | updateAfter p op hop _ ih => exact .closed (hmem hop (by decide)) ih
  | updateBefore p op hop _ ih => exact .cons (hmem hop (by decide)) ih
  | unary p op hop _ ih => exact .cons (hmem hop (by decide)) ih
  | binary p op hsuffix hop _ _ ihl ihr =>
    exact .divided (hmem hop (hlevels _ (hsuffix.subset List.mem_cons_self))) ihl ihr
  | conditional p q c hq hc _ _ _ iht ihy ihn =>
    exact .divided (hkind hq (by decide)) iht (.divided (hkind hc (by decide)) ihy ihn)
  | assign p op hop htarget _ _ ihl ihv => exact .divided (hmem hop (by decide)) ihl ihv
  | moreItems c hc _ _ ih ihs => exact .divided (hkind hc (by decide)) ih ihs
  | moreElements c hc _ _ ih ihs => exact .divided (hkind hc (by decide)) ih ihs
  | moreProperties c hc _ _ ih ihs => exact .divided (hkind hc (by decide)) ih ihs
  | keyed k c hc hk _ ih =>
    have h := (Tallies.key hk).divided (hkind hc (by decide)) ih
    rwa [Nat.zero_add] at h
  | toAssignment _ ih | toConditional _ ih | toBinary _ _ ih | toUnary _ ih | toSuffixed _ ih
  | toIndexed _ ih | toChained _ ih | someArguments _ ih | lastItem _ ih | lastElement _ ih
  | lastProperty _ ih => exact ih

end Grammar

end Advplc

import Advplc.Proofs.Grammar.Inside
import Advplc.Proofs.Lowering.Refusal
import Advplc.Proofs.Script.Frame
import Advplc.Proofs.Target.Pattern
import Advplc.Lowering.Stmt

/-!
# What an effect contributes to the code

An expression with open places is turned into code with open places: whatever effects are filled in,
the code around them is the same, and each of them is put where its text belongs.  So the places of
the code tell how often, and in which order, the effects of a statement are evaluated.
-/

set_option autoImplicit false

namespace Advplc.Lowering

open Script

open Target (Pattern)

/-! ## Places -/

/-- The method that an expression selects, if it is a member with the name of one. -/
def method? : Expr → Option Method
  | .member _ _ n _ => Method.ofName? n
  | _ => none

/-- What the arguments of a method contribute to a call of the function that takes its place.  The
functions for `toUpperCase` and `toLowerCase` take no arguments, and that for `substring` takes two.
There the start is also subtracted from the end. -/
def arranged {α : Type} : Option Method → List (List α) → List α
  | some .toUpperCase, _ | some .toLowerCase, _ | some .substring, [] => []
  | some .substring, [s] => s
  | some .substring, s :: l :: _ => s ++ (l ++ s)
  | _, gs => gs.flatten

theorem arranged_none {α : Type} (gs : List (List α)) : arranged none gs = gs.flatten := rfl

mutual

/-- The open places of the code for an expression, each as often as it occurs. -/
def places : Expr → List Foreign
  | .foreign f => [f]
  | .template _ _ hs => (placesEach hs).flatten
  | .binary _ _ l r | .assign _ _ l r | .index _ l r => places l ++ places r
  | .unary _ _ e | .update _ _ _ e | .member _ e _ _ => places e
  | .conditional _ t y n => places t ++ places y ++ places n
  | .object _ ps => (placesValues ps).flatten
  | .array _ es => (placesEach es).flatten
  | .call _ f as => places f ++ arranged (method? f) (placesEach as)
  | .new _ f as => places f ++ (placesEach as).flatten
  | _ => []

/-- The open places of the code for each of several expressions. -/
def placesEach : List Expr → List (List Foreign)
  | [] => []
  | e :: es => places e :: placesEach es

/-- The open places of the code for each value of some properties. -/
def placesValues : List (Lexeme × Expr) → List (List Foreign)
  | [] => []
  | (_, v) :: ps => places v :: placesValues ps

end

/-- Whether the arguments of a method do not contribute once each: those that are not taken, and the
start of a `substring` with an end, must contribute nothing if they are to. -/
def unevenly {α : Type} : Option Method → List (List α) → Bool
  | some .toUpperCase, gs | some .toLowerCase, gs => !gs.flatten.isEmpty
  | some .substring, s :: _ :: more => !(s ++ more.flatten).isEmpty
  | _, _ => false

/-- Whether an expression is a call that does not evaluate what is in its arguments once each. -/
def rearranges : Expr → Bool
  | .call _ f as => unevenly (method? f) (as.map Expr.openings)
  | _ => false

theorem arranged_eq_flatten {α : Type} {m : Option Method} {gs : List (List α)}
    (h : unevenly m gs = false) : arranged m gs = gs.flatten := by
  cases m with
  | none => rfl
  | some m =>
    cases m with
    | push | indexOf => rfl
    | toUpperCase | toLowerCase => exact (by simpa [unevenly] using h : gs.flatten = []).symm
    | substring =>
      match gs with
      | [] => rfl
      | [s] => exact (List.append_nil s).symm
      | s :: l :: more =>
        have hnone : s = [] ∧ more.flatten = [] := by simpa [unevenly] using h
        rw [arranged, List.flatten_cons, List.flatten_cons, hnone.1, hnone.2]

mutual

/-- Where no call rearranges its arguments, the code has its open places in the order of the
source. -/
theorem places_eq_openings (c : Expr) (h : c.has rearranges = false) : places c = c.openings := by
  cases c with
  | template q cs hs =>
    rw [Expr.has_template, Bool.or_eq_false_iff] at h
    rw [places, Expr.openings, placesEach_eq_openings hs h.2, Expr.flatten_openings]
  | binary q op l r =>
    rw [Expr.has_binary, Bool.or_eq_false_iff, Bool.or_eq_false_iff] at h
    rw [places, Expr.openings, places_eq_openings l h.2.1, places_eq_openings r h.2.2]
  | unary q op e =>
    rw [Expr.has_unary, Bool.or_eq_false_iff] at h
    rw [places, Expr.openings, places_eq_openings e h.2]
  | update q op side e =>
    rw [Expr.has_update, Bool.or_eq_false_iff] at h
    rw [places, Expr.openings, places_eq_openings e h.2]
  | assign q op t v =>
    rw [Expr.has_assign, Bool.or_eq_false_iff, Bool.or_eq_false_iff] at h
    rw [places, Expr.openings, places_eq_openings t h.2.1, places_eq_openings v h.2.2]
  | conditional q t y n =>
    rw [Expr.has_conditional, Bool.or_eq_false_iff, Bool.or_eq_false_iff,
      Bool.or_eq_false_iff] at h
    rw [places, Expr.openings, places_eq_openings t h.2.1, places_eq_openings y h.2.2.1,
      places_eq_openings n h.2.2.2]
  | object q ps =>
    rw [Expr.has_object, Bool.or_eq_false_iff] at h
    rw [places, Expr.openings, placesValues_eq_openings ps h.2, Expr.flatten_openings,
      Expr.openings_values]
  | array q es =>
    rw [Expr.has_array, Bool.or_eq_false_iff] at h
    rw [places, Expr.openings, placesEach_eq_openings es h.2, Expr.flatten_openings]
  | member q o n r =>
    rw [Expr.has_member, Bool.or_eq_false_iff] at h
    rw [places, Expr.openings, places_eq_openings o h.2]
  | index q o k =>
    rw [Expr.has_index, Bool.or_eq_false_iff, Bool.or_eq_false_iff] at h
    rw [places, Expr.openings, places_eq_openings o h.2.1, places_eq_openings k h.2.2]
  | call q f as =>
    rw [Expr.has_call, Bool.or_eq_false_iff, Bool.or_eq_false_iff] at h
    rw [places, Expr.openings, places_eq_openings f h.2.1, placesEach_eq_openings as h.2.2,
      arranged_eq_flatten h.1, Expr.flatten_openings]
  | new q f as =>
    rw [Expr.has_new, Bool.or_eq_false_iff, Bool.or_eq_false_iff] at h
    rw [places, Expr.openings, places_eq_openings f h.2.1, placesEach_eq_openings as h.2.2,
      Expr.flatten_openings]
  | _ => rfl

theorem placesEach_eq_openings (cs : List Expr) (h : Expr.someHas rearranges cs = false) :
    placesEach cs = cs.map Expr.openings := by
  cases cs with
  | nil => rfl
  | cons c cs =>
    rw [Expr.someHas_cons, Bool.or_eq_false_iff] at h
    rw [placesEach, List.map_cons, places_eq_openings c h.1, placesEach_eq_openings cs h.2]

theorem placesValues_eq_openings (ps : List (Lexeme × Expr))
    (h : Expr.someHas rearranges (ps.map Prod.snd) = false) :
    placesValues ps = (ps.map Prod.snd).map Expr.openings := by
  cases ps with
  | nil => rfl
  | cons x ps =>
    obtain ⟨k, v⟩ := x
    rw [List.map_cons, Expr.someHas_cons, Bool.or_eq_false_iff] at h
    rw [placesValues, List.map_cons, List.map_cons, places_eq_openings v h.1,
      placesValues_eq_openings ps h.2]

end

theorem places_of_isThis {c : Expr} (h : isThis c = true) : places c = [] := by
  cases c with
  | this => rfl
  | _ => cases h

/-! ## Code with open places -/

/-- In each of the places, `τ` has an effect of the same sort as `σ`, and there is code for it. -/
def Alike (σ τ : Foreign → Expr) (fs : List Foreign) : Prop :=
  ∀ f ∈ fs, (σ f).effect?.isSome = true ∧ (τ f).effect? = (σ f).effect? ∧ ∃ x, lower (τ f) = .ok x

/-- The text of the code for what `τ` has in a place. -/
def codeIn (τ : Foreign → Expr) (f : Foreign) : Text :=
  match lower (τ f) with
  | .ok x => x.print
  | .error _ => []

/-- Whatever is filled in, there is code, and around what is filled in it is the same text.  It has
the open places `gs`. -/
def Emits (σ : Foreign → Expr) (fs : List Foreign)
    (g : (Foreign → Expr) → Except Error Target.Expr) (gs : List Foreign) : Prop :=
  ∃ P : Pattern Foreign, P.openings = gs ∧
    ∀ τ, Alike σ τ fs → ∃ x, g τ = .ok x ∧ x.print = P.fill (codeIn τ)

/-- The same of what is written as several texts. -/
def EmitsAll {α : Type} (σ : Foreign → Expr) (fs : List Foreign) (texts : α → List Text)
    (g : (Foreign → Expr) → Except Error α) (gs : List Foreign) : Prop :=
  ∃ Ps : List (Pattern Foreign), Ps.flatMap Pattern.openings = gs ∧
    ∀ τ, Alike σ τ fs → ∃ x, g τ = .ok x ∧ texts x = Ps.map (Pattern.fill (codeIn τ))

section Emits

variable {σ : Foreign → Expr} {fs gs hs : List Foreign}
  {g g' : (Foreign → Expr) → Except Error Target.Expr}

theorem Alike.effects {τ : Foreign → Expr} (h : Alike σ τ fs) {c : Expr} (hc : c.openings ⊆ fs) :
    ∀ f ∈ c.openings, (τ f).effect?.isSome = true := by
  intro f hf
  obtain ⟨hσ, hτ, -⟩ := h f (hc hf)
  rw [hτ, hσ]

theorem Alike.startsWithOperator {τ : Foreign → Expr} (h : Alike σ τ fs) {c : Expr}
    (hc : c.openings ⊆ fs) :
    startsWithOperator (c.fill τ) = startsWithOperator (c.fill σ) :=
  Expr.startsWithOperator_fill fun f hf ↦ ⟨(h f (hc hf)).1, (h f (hc hf)).2.1⟩

theorem Emits.congr (hg : Emits σ fs g gs) (h : ∀ τ, Alike σ τ fs → g' τ = g τ) :
    Emits σ fs g' gs := by
  obtain ⟨P, hP, hg⟩ := hg
  refine ⟨P, hP, fun τ hτ ↦ ?_⟩
  rw [h τ hτ]
  exact hg τ hτ

theorem Emits.exists_ok (hg : Emits σ fs g gs) {τ : Foreign → Expr} (hτ : Alike σ τ fs) :
    ∃ x, g τ = .ok x := by
  obtain ⟨P, -, hg⟩ := hg
  obtain ⟨x, hx, -⟩ := hg τ hτ
  exact ⟨x, hx⟩

theorem EmitsAll.exists_ok {α : Type} {texts : α → List Text}
    {gl : (Foreign → Expr) → Except Error α} (hgl : EmitsAll σ fs texts gl gs)
    {τ : Foreign → Expr} (hτ : Alike σ τ fs) : ∃ xs, gl τ = .ok xs := by
  obtain ⟨Ps, -, hgl⟩ := hgl
  obtain ⟨xs, hxs, -⟩ := hgl τ hτ
  exact ⟨xs, hxs⟩

/-- Code that is the same whatever is filled in has no open places. -/
theorem Emits.fixed (x : Target.Expr) (h : ∀ τ, Alike σ τ fs → g τ = .ok x) : Emits σ fs g [] :=
  ⟨.of x.print, rfl, fun τ hτ ↦ ⟨x, h τ hτ, (Pattern.fill_of _ _).symm⟩⟩

/-- An open place is one of the code. -/
theorem Emits.place {f : Foreign} (hf : f ∈ fs) : Emits σ fs (fun τ ↦ lower (τ f)) [f] := by
  refine ⟨.place f, rfl, fun τ hτ ↦ ?_⟩
  obtain ⟨-, -, x, hx⟩ := hτ f hf
  refine ⟨x, hx, ?_⟩
  rw [Pattern.fill_place, codeIn, hx]

/-- Code around the code of one part. -/
theorem Emits.around (hg : Emits σ fs g gs) {h : Target.Expr → Target.Expr} (before after : Text)
    (hprint : ∀ x, (h x).print = before ++ x.print ++ after) :
    Emits σ fs (fun τ ↦ do return h (← g τ)) gs := by
  obtain ⟨P, rfl, hg⟩ := hg
  refine ⟨.of before ++ P ++ .of after, by simp, fun τ hτ ↦ ?_⟩
  obtain ⟨x, hx, hxP⟩ := hg τ hτ
  refine ⟨h x, ?_, ?_⟩
  · simp only [hx]
    rfl
  · simp [hprint, hxP]

/-- Code around the codes of two parts. -/
theorem Emits.both (hg : Emits σ fs g gs) (hg' : Emits σ fs g' hs)
    {h : Target.Expr → Target.Expr → Target.Expr} (before between after : Text)
    (hprint : ∀ x y, (h x y).print = before ++ x.print ++ between ++ y.print ++ after) :
    Emits σ fs (fun τ ↦ do return h (← g τ) (← g' τ)) (gs ++ hs) := by
  obtain ⟨P, rfl, hg⟩ := hg
  obtain ⟨Q, rfl, hg'⟩ := hg'
  refine ⟨.of before ++ P ++ .of between ++ Q ++ .of after, by simp, fun τ hτ ↦ ?_⟩
  obtain ⟨x, hx, hxP⟩ := hg τ hτ
  obtain ⟨y, hy, hyQ⟩ := hg' τ hτ
  refine ⟨h x y, ?_, ?_⟩
  · simp only [hx, hy]
    rfl
  · simp [hprint, hxP, hyQ]

section Lists

variable {α : Type} {texts : List α → List Text} {gl : (Foreign → Expr) → Except Error (List α)}

theorem EmitsAll.fixed (xs : List α) (h : ∀ τ, gl τ = .ok xs) : EmitsAll σ fs texts gl [] := by
  refine ⟨(texts xs).map .of, ?_, fun τ _ ↦ ⟨xs, h τ, ?_⟩⟩
  · simp [List.flatMap_map]
  · simp [Function.comp_def]

/-- The code of one more part, together with texts before it. -/
theorem EmitsAll.cons (hg : Emits σ fs g gs) (hgl : EmitsAll σ fs texts gl hs)
    {h : Target.Expr → List α → List α} (first : List Text) (before after : Text)
    (htexts : ∀ x xs, texts (h x xs) = first ++ (before ++ x.print ++ after) :: texts xs) :
    EmitsAll σ fs texts (fun τ ↦ do return h (← g τ) (← gl τ)) (gs ++ hs) := by
  obtain ⟨P, rfl, hg⟩ := hg
  obtain ⟨Ps, rfl, hgl⟩ := hgl
  refine ⟨first.map .of ++ (.of before ++ P ++ .of after) :: Ps, ?_, fun τ hτ ↦ ?_⟩
  · simp [List.flatMap_map]
  · obtain ⟨x, hx, hxP⟩ := hg τ hτ
    obtain ⟨xs, hxs, hxsP⟩ := hgl τ hτ
    refine ⟨h x xs, ?_, ?_⟩
    · simp only [hx, hxs]
      rfl
    · simp [htexts, hxP, hxsP, Function.comp_def]

end Lists

section Arguments

variable {gl : (Foreign → Expr) → Except Error (List Target.Expr)}

theorem Emits.cons (hg : Emits σ fs g gs) (hgl : EmitsAll σ fs Target.Expr.printAll gl hs) :
    EmitsAll σ fs Target.Expr.printAll (fun τ ↦ do return (← g τ) :: (← gl τ)) (gs ++ hs) :=
  .cons hg hgl [] [] [] fun x xs ↦ by simp [Target.Expr.printAll]

/-- Code that is made of the code of a list. -/
theorem EmitsAll.written {α : Type} {texts : α → List Text}
    {gl : (Foreign → Expr) → Except Error α} (hgl : EmitsAll σ fs texts gl gs)
    {h : α → Target.Expr} {F : List Text → Text} (hF : Pattern.Lifts F)
    (hprint : ∀ xs, (h xs).print = F (texts xs)) :
    Emits σ fs (fun τ ↦ do return h (← gl τ)) gs := by
  obtain ⟨Ps, rfl, hgl⟩ := hgl
  obtain ⟨P, hP, hfill⟩ := hF Foreign Ps
  refine ⟨P, hP, fun τ hτ ↦ ?_⟩
  obtain ⟨xs, hxs, hxsP⟩ := hgl τ hτ
  refine ⟨h xs, ?_, ?_⟩
  · simp only [hxs]
    rfl
  · rw [hprint, hxsP, hfill]

/-- The code of a list between other code. -/
theorem EmitsAll.enclosed {α : Type} {texts : α → List Text}
    {gl : (Foreign → Expr) → Except Error α} (hgl : EmitsAll σ fs texts gl gs)
    {h : α → Target.Expr} (before after : Text)
    (hprint : ∀ xs, (h xs).print = before ++ Target.commaList (texts xs) ++ after) :
    Emits σ fs (fun τ ↦ do return h (← gl τ)) gs :=
  hgl.written (Pattern.lifts_enclosed before ", " after) hprint

/-- The code of a part that something is applied to.  The arguments are looked at first. -/
theorem Emits.applied (hg : Emits σ fs g gs) (hgl : EmitsAll σ fs Target.Expr.printAll gl hs)
    {h : Target.Expr → List Target.Expr → Target.Expr} (before between after : Text)
    (hprint : ∀ x xs, (h x xs).print =
      before ++ x.print ++ between ++ Target.commaList (Target.Expr.printAll xs) ++ after) :
    Emits σ fs (fun τ ↦ do let xs ← gl τ; return h (← g τ) xs) (gs ++ hs) := by
  obtain ⟨P, rfl, hg⟩ := hg
  obtain ⟨Ps, rfl, hgl⟩ := hgl
  refine ⟨.of before ++ P ++ .of between ++ .join ", " Ps ++ .of after, by simp, fun τ hτ ↦ ?_⟩
  obtain ⟨x, hx, hxP⟩ := hg τ hτ
  obtain ⟨xs, hxs, hxsP⟩ := hgl τ hτ
  refine ⟨h x xs, ?_, ?_⟩
  · simp only [hx, hxs]
    rfl
  · simp [hprint, hxP, hxsP, Target.commaList]

end Arguments

end Emits

/-! ## Parts of expressions -/

/-- The code for an expression has the open places of `places`. -/
abbrev Emitting (σ : Foreign → Expr) (fs : List Foreign) (c : Expr) : Prop :=
  Emits σ fs (fun τ ↦ lower (c.fill τ)) (places c)

section Parts

variable {σ : Foreign → Expr} {fs : List Foreign}

theorem lowerAll_emits {cs : List Expr} (h : ∀ c ∈ cs, Emitting σ fs c) :
    EmitsAll σ fs Target.Expr.printAll (fun τ ↦ lowerAll (Expr.fillAll τ cs))
      (placesEach cs).flatten := by
  induction cs with
  | nil => exact .fixed [] fun _ ↦ rfl
  | cons c cs ih =>
    rw [List.forall_mem_cons] at h
    exact h.1.cons (ih h.2)

theorem lowerProperties_emits {ps : List (Lexeme × Expr)} (h : ∀ x ∈ ps, Emitting σ fs x.2) :
    EmitsAll σ fs Target.Expr.printEntries (fun τ ↦ lowerProperties (Expr.fillProperties τ ps))
      (placesValues ps).flatten := by
  induction ps with
  | nil => exact .fixed [] fun _ ↦ rfl
  | cons x ps ih =>
    obtain ⟨k, v⟩ := x
    rw [List.forall_mem_cons] at h
    exact .cons h.1 (ih h.2) [] (Target.quote k.spelled ++ " => ") []
      fun x xs ↦ by simp [Target.Expr.printEntries]

theorem printAll_eq_map (ps : List Target.Piece) :
    Target.Piece.printAll ps = ps.map Target.Piece.print := by
  induction ps with
  | nil => rfl
  | cons p ps ih => rw [Target.Piece.printAll, List.map_cons, ih]

theorem lowerTemplate_emits {cs : List Text} {hs : List Expr} (hcount : hs.length ≤ cs.length)
    (h : ∀ c ∈ hs, Emitting σ fs c) :
    EmitsAll σ fs Target.Piece.printAll (fun τ ↦ lowerTemplate cs (Expr.fillAll τ hs))
      (placesEach hs).flatten := by
  induction hs generalizing cs with
  | nil => exact .fixed (cs.flatMap chunkPieces) fun τ ↦ by rw [Expr.fillAll, lowerTemplate]
  | cons c hs ih =>
    cases cs with
    | nil => cases hcount
    | cons chunk cs =>
      rw [List.forall_mem_cons] at h
      refine .cons h.1 (ih (Nat.le_of_succ_le_succ hcount) h.2)
        (Target.Piece.printAll (chunkPieces chunk)) (Target.toStringFunction ++ "(") ")"
        fun x xs ↦ ?_
      simp [printAll_eq_map, Target.Piece.print, Target.callText, Target.commaList, Text.joinWith]

/-- The code for a template, from the codes of its pieces. -/
def templateText : List Text → Text
  | [] => Target.quote []
  | operands => Target.groupedSum operands

theorem print_concat_orEmpty (ps : List Target.Piece) :
    (Target.Expr.concat (orEmpty ps)).print = templateText (Target.Piece.printAll ps) := by
  cases ps with
  | nil => rfl
  | cons p ps => rfl

theorem lifts_templateText : Pattern.Lifts templateText :=
  (Pattern.lifts_enclosed "(" " + " ")").of_eq ⟨_, rfl⟩ (.inl fun _ ↦ rfl) fun _ _ _ ↦ rfl

/-- The code for an object, from the codes of its entries. -/
def hashText : List Text → Text
  | [] => Target.emptyHash
  | entries => Target.braced entries

theorem print_hash (es : List (Text × Target.Expr)) :
    (Target.Expr.hash es).print = hashText (Target.Expr.printEntries es) := by
  cases es with
  | nil => rfl
  | cons e es => rfl

theorem lifts_hashText : Pattern.Lifts hashText :=
  (Pattern.lifts_enclosed "\x7b" ", " "\x7d").of_eq ⟨_, rfl⟩ (.inr fun _ ↦ rfl) fun _ _ _ ↦ rfl

theorem choice_emits {t y n : Expr} (ht : Emitting σ fs t) (hy : Emitting σ fs y)
    (hn : Emitting σ fs n) : Emits σ fs
      (fun τ ↦ do return .choice (← lower (t.fill τ)) (← lower (y.fill τ)) (← lower (n.fill τ)))
      (places t ++ places y ++ places n) := by
  obtain ⟨P, hP, ht⟩ := ht
  obtain ⟨Q, hQ, hy⟩ := hy
  obtain ⟨R, hR, hn⟩ := hn
  refine ⟨.of (Target.choiceFunction ++ "(") ++ .join ", " [P, Q, R] ++ .of ")",
    by simp [hP, hQ, hR], fun τ hτ ↦ ?_⟩
  obtain ⟨x, hx, hxP⟩ := ht τ hτ
  obtain ⟨x', hx', hxQ⟩ := hy τ hτ
  obtain ⟨x'', hx'', hxR⟩ := hn τ hτ
  refine ⟨.choice x x' x'', ?_, ?_⟩
  · simp only [hx, hx', hx'']
    rfl
  · simp [Target.Expr.print, Target.callText, Target.commaList, hxP, hxQ, hxR]

theorem member_emits {p q : Option Pos} {o : Expr} {n : Lexeme} (hfs : o.openings ⊆ fs)
    (ho : Emitting σ fs o) : Emitting σ fs (.member p o n q) := by
  have hlower (τ) (hτ : Alike σ τ fs) : lower ((Expr.member p o n q).fill τ) =
      if n = "length" then do return apply lengthFunction [← lower (o.fill τ)]
      else if isThis o then return .ownMember n.spelled
      else do return .member (← lower (o.fill τ)) n.spelled := by
    rw [Expr.fill, lower, Expr.isThis_fill (hτ.effects hfs)]
  rw [Emitting, places]
  split at hlower
  · refine (ho.around (h := fun x ↦ apply lengthFunction [x]) (lengthFunction ++ "(") ")"
      fun x ↦ ?_).congr hlower
    simp [apply, Target.Expr.print, Target.Expr.printAll, Target.callText, Target.commaList,
      Text.joinWith]
  · split at hlower
    · rename_i hthis
      rw [places_of_isThis hthis]
      exact .fixed (.ownMember n.spelled) hlower
    · refine (ho.around (h := fun x ↦ .member x n.spelled) [] (":" ++ n.spelled) fun x ↦ ?_).congr
        hlower
      simp [Target.Expr.print]

/-! ## Calls -/

theorem lowerShifted_emits {s : Expr} (hs : s.openings ⊆ fs) (h : Emitting σ fs s) :
    Emits σ fs (fun τ ↦ lowerShifted (s.fill τ) 1) (places s) := by
  cases hn : natural? s with
  | some n =>
    cases s with
    | number p v => exact .fixed (shift (.number p v) (.number v.spelled) 1) fun _ _ ↦ rfl
    | _ => cases hn
  | none =>
    refine (h.around (h := fun x ↦ .binary "+" x (.integer 1)) "("
      ((" " : Text) ++ "+" ++ " " ++ Text.ofInt 1 ++ ")") fun x ↦ ?_).congr fun τ hτ ↦ ?_
    · simp [Target.Expr.print]
    · simp only [lowerShifted, shift, Expr.natural?_fill (hτ.effects hs), hn]
      rfl

theorem lowerDistance_emits {s l : Expr} (hs : s.openings ⊆ fs) (hl : l.openings ⊆ fs)
    (hemits : Emitting σ fs s) (hemitl : Emitting σ fs l) :
    Emits σ fs (fun τ ↦ lowerDistance (s.fill τ) (l.fill τ)) (places l ++ places s) := by
  have hsame (τ) (hτ : Alike σ τ fs) (x y : Target.Expr) :
      distance (s.fill τ) x (l.fill τ) y = distance s x l y := by
    simp only [distance, Expr.natural?_fill (hτ.effects hs), Expr.natural?_fill (hτ.effects hl)]
  have hminus (h : ∀ x y, distance s x l y = .binary "-" y x) :
      Emits σ fs (fun τ ↦ lowerDistance (s.fill τ) (l.fill τ)) (places l ++ places s) := by
    refine (hemitl.both hemits (h := fun y x ↦ .binary "-" y x) "(" ((" " : Text) ++ "-" ++ " ")
      ")" fun y x ↦ ?_).congr fun τ hτ ↦ ?_
    · simp [Target.Expr.print]
    · simp only [lowerDistance, hsame τ hτ, h]
  cases hn : natural? s with
  | none => exact hminus fun x y ↦ by simp [distance, hn]
  | some n =>
    cases hm : natural? l with
    | some m =>
      cases s with
      | number p v =>
        cases l with
        | number q w =>
          exact .fixed (distance (.number p v) (.number v.spelled) (.number q w)
            (.number w.spelled)) fun _ _ ↦ rfl
        | _ => cases hm
      | _ => cases hn
    | none =>
      cases n with
      | succ n => exact hminus fun x y ↦ by simp [distance, hn, hm]
      | zero =>
        cases s with
        | number p v =>
          have hnone : places (.number p v) = [] := rfl
          rw [hnone, List.append_nil]
          refine hemitl.congr fun τ hτ ↦ ?_
          have hzero (x y) : distance (.number p v) x l y = y := by simp [distance, hn, hm]
          simp only [lowerDistance, hsame τ hτ, hzero]
          exact bind_pure (lower (l.fill τ))
        | _ => cases hn

/-- A call of a method as a call of the function that takes its place. -/
theorem applyMethod_emits {m : Method} {o : Expr} {as : List Expr}
    (hpush : m = .push → as.length = 1) (hfs : Expr.openingsAll as ⊆ fs)
    (ho : Emitting σ fs o) (has : ∀ a ∈ as, Emitting σ fs a) :
    Emits σ fs (fun τ ↦ do
        let args ← lowerAll (Expr.fillAll τ as)
        applyMethod m (o.fill τ).pos (← lower (o.fill τ)) ((Expr.fillAll τ as).zip args))
      (places o ++ arranged (some m) (placesEach as)) := by
  have hargs := lowerAll_emits has
  -- What remains to be shown is which arguments the function gets.
  have hcall {g : (Foreign → Expr) → Except Error Target.Expr} {gs : List Foreign}
      {gl : (Foreign → Expr) → Except Error (List Target.Expr)}
      (hgl : EmitsAll σ fs Target.Expr.printAll gl gs)
      (h : ∀ τ, Alike σ τ fs →
        g τ = do return apply m.function ((← lower (o.fill τ)) :: (← gl τ))) :
      Emits σ fs g (places o ++ gs) :=
    ((ho.cons hgl).enclosed (m.function ++ "(") ")" fun xs ↦ rfl).congr fun τ hτ ↦ by
      simpa using h τ hτ
  have hnone : EmitsAll σ fs Target.Expr.printAll (fun _ ↦ .ok []) [] := .fixed [] fun _ ↦ rfl
  cases m with
  | indexOf =>
    refine hcall hargs fun τ hτ ↦ ?_
    obtain ⟨x, hx⟩ := ho.exists_ok hτ
    obtain ⟨xs, hxs⟩ := hargs.exists_ok hτ
    have hlength := (length_of_lowerAll hxs).le
    simp only [hx, hxs, bind, Except.bind, applyMethod, List.map_snd_zip hlength]
    rfl
  | toUpperCase | toLowerCase =>
    refine hcall hnone fun τ hτ ↦ ?_
    obtain ⟨x, hx⟩ := ho.exists_ok hτ
    obtain ⟨xs, hxs⟩ := hargs.exists_ok hτ
    simp only [hx, hxs]
    rfl
  | push =>
    obtain ⟨a, rfl⟩ := List.length_eq_one_iff.mp (hpush rfl)
    refine hcall hargs fun τ hτ ↦ ?_
    obtain ⟨x, hx⟩ := ho.exists_ok hτ
    obtain ⟨y, hy⟩ := (has a List.mem_cons_self).exists_ok hτ
    simp only [Expr.fillAll, lowerAll, hx, hy]
    rfl
  | substring =>
    rcases as with _ | ⟨s, _ | ⟨l, more⟩⟩
    · have hone : EmitsAll σ fs Target.Expr.printAll (fun _ ↦ .ok [.integer 1]) [] :=
        .fixed [.integer 1] fun _ ↦ rfl
      refine hcall hone fun τ hτ ↦ ?_
      obtain ⟨x, hx⟩ := ho.exists_ok hτ
      simp only [hx]
      rfl
    · have hs := has s List.mem_cons_self
      rw [Expr.openingsAll, Expr.openingsAll, List.append_nil] at hfs
      have hshift := (lowerShifted_emits hfs hs).cons hnone
      rw [List.append_nil] at hshift
      refine hcall hshift fun τ hτ ↦ ?_
      obtain ⟨x, hx⟩ := ho.exists_ok hτ
      obtain ⟨y, hy⟩ := hs.exists_ok hτ
      simp only [Expr.fillAll, lowerAll, lowerShifted, hx, hy]
      rfl
    · rw [List.forall_mem_cons, List.forall_mem_cons] at has
      rw [Expr.openingsAll, Expr.openingsAll, List.append_subset, List.append_subset] at hfs
      have hshift := lowerShifted_emits hfs.1 has.1
      have hdistance := lowerDistance_emits hfs.1 hfs.2.1 has.1 has.2.1
      have htwo := hshift.cons (hdistance.cons hnone)
      rw [List.append_nil] at htwo
      refine hcall htwo fun τ hτ ↦ ?_
      obtain ⟨x, hx⟩ := ho.exists_ok hτ
      obtain ⟨y, hy⟩ := has.1.exists_ok hτ
      obtain ⟨z, hz⟩ := has.2.1.exists_ok hτ
      obtain ⟨ws, hws⟩ := (lowerAll_emits has.2.2).exists_ok hτ
      simp only [Expr.fillAll, lowerAll, lowerShifted, lowerDistance, hx, hy, hz, hws]
      rfl

/-- A call of a member. -/
theorem memberCall_emits {p q r : Option Pos} {o : Expr} {n : Lexeme} {as : List Expr}
    (hpush : n = "push" → as.length = 1) (hofs : o.openings ⊆ fs)
    (hfs : Expr.openingsAll as ⊆ fs) (ho : Emitting σ fs o) (has : ∀ a ∈ as, Emitting σ fs a) :
    Emitting σ fs (.call p (.member q o n r) as) := by
  cases hm : Method.ofName? n with
  | some m =>
    have hone : m = .push → as.length = 1 := by
      rintro rfl
      exact hpush (Method.ofName?_eq_push.mp hm)
    have hemits := applyMethod_emits hone hfs ho has
    rw [Emitting, places, places, method?, hm]
    refine hemits.congr fun τ hτ ↦ ?_
    rw [Expr.fill, Expr.fill, lower, hm]
  | none =>
    have hargs := lowerAll_emits has
    rw [Emitting, places, places, method?, hm, arranged_none]
    cases hthis : isThis o with
    | true =>
      rw [places_of_isThis hthis, List.nil_append]
      refine (hargs.enclosed (h := .ownMethod n.spelled) ("::" ++ n.spelled ++ "(") ")"
        fun xs ↦ ?_).congr fun τ hτ ↦ ?_
      · simp [Target.Expr.print, Target.callText]
      · rw [Expr.fill, Expr.fill, lower, hm, Expr.isThis_fill (hτ.effects hofs), hthis]
        rfl
    | false =>
      refine (ho.applied hargs (h := fun x xs ↦ .method x n.spelled xs) [] (":" ++ n.spelled ++ "(")
        ")" fun x xs ↦ ?_).congr fun τ hτ ↦ ?_
      · simp [Target.Expr.print, Target.callText]
      · rw [Expr.fill, Expr.fill, lower, hm, Expr.isThis_fill (hτ.effects hofs), hthis]
        rfl

/-- A call of what is neither a member nor a name. -/
theorem call_emits {p : Option Pos} {f : Expr} {as : List Expr} (hm : method? f = none)
    (hmember : ∀ τ, Alike σ τ fs → ∀ q o n r, f.fill τ ≠ .member q o n r)
    (hname : ∀ τ, Alike σ τ fs → ∀ q n, f.fill τ ≠ .name q n)
    (hf : Emitting σ fs f) (has : ∀ a ∈ as, Emitting σ fs a) : Emitting σ fs (.call p f as) := by
  rw [Emitting, places, hm, arranged_none]
  refine (hf.applied (lowerAll_emits has) (h := .call) [] "(" ")" fun x xs ↦ ?_).congr
    fun τ hτ ↦ ?_
  · simp [Target.Expr.print, Target.callText]
  · rw [Expr.fill, lower_call (hmember τ hτ) (hname τ hτ)]

end Parts

/-! ## Expressions -/

/-- Whether there is no code because of an expression, apart from those inside it. -/
def faulty (e : Expr) : Bool := e.unusable || e.miscounts false

theorem exists_of_isNone {α : Type} {x : Option α} (h : x.isNone = false) : ∃ a, x = some a :=
  Option.isSome_iff_exists.mp (Option.isNone_eq_false_iff.mp h)

section Expressions

variable {σ : Foreign → Expr} {fs : List Foreign}

mutual

/-- **Code has the open places of its expression**, in the order and as often as `places` says. -/
theorem lower_emits (c : Expr) (hfs : c.openings ⊆ fs) (h : (c.fill σ).has faulty = false) :
    Emitting σ fs c := by
  cases c with
  | foreign f => exact .place (hfs List.mem_cons_self)
  | number p n => exact .fixed (.number n.spelled) fun _ _ ↦ rfl
  | string p v => exact .fixed (.ofText v) fun _ _ ↦ rfl
  | boolean p b => exact .fixed (.boolean b) fun _ _ ↦ rfl
  | null p => exact .fixed .nil fun _ _ ↦ rfl
  | this p => exact .fixed .self fun _ _ ↦ rfl
  | name p n => exact .fixed (.name n.spelled) fun _ _ ↦ rfl
  | template p cs hs =>
    rw [Expr.fill, Expr.has_template, Bool.or_eq_false_iff] at h
    have hcount : cs.length = hs.length + 1 := by
      simpa [faulty, Expr.unusable, Expr.miscounts, Expr.length_fillAll] using h.1
    have hle : hs.length ≤ cs.length := by omega
    have hpieces := lowerTemplate_emits hle (lowerAll_emitting hs hfs h.2)
    refine (hpieces.written lifts_templateText print_concat_orEmpty).congr fun τ hτ ↦ ?_
    rw [Expr.fill, lower]
  | binary p op l r =>
    rw [Expr.fill, Expr.has_binary, Bool.or_eq_false_iff, Bool.or_eq_false_iff] at h
    rw [Expr.openings, List.append_subset] at hfs
    obtain ⟨o, ho⟩ := exists_of_isNone (Bool.or_eq_false_iff.mp h.1).1
    refine ((lower_emits l hfs.1 h.2.1).both (lower_emits r hfs.2 h.2.2) (h := .binary o) "("
      (" " ++ o ++ " ") ")" fun x y ↦ ?_).congr fun τ hτ ↦ ?_
    · simp [Target.Expr.print]
    · rw [Expr.fill, lower, ho]
  | assign p op t v =>
    rw [Expr.fill, Expr.has_assign, Bool.or_eq_false_iff, Bool.or_eq_false_iff] at h
    rw [Expr.openings, List.append_subset] at hfs
    obtain ⟨o, ho⟩ := exists_of_isNone (Bool.or_eq_false_iff.mp h.1).1
    refine ((lower_emits t hfs.1 h.2.1).both (lower_emits v hfs.2 h.2.2)
      (h := fun x y ↦ .group (.assign o x y)) "(" (" " ++ o ++ " ") ")" fun x y ↦ ?_).congr
      fun τ hτ ↦ ?_
    · simp [Target.Expr.print]
    · rw [Expr.fill, lower, ho]
  | index p o k =>
    rw [Expr.fill, Expr.has_index, Bool.or_eq_false_iff, Bool.or_eq_false_iff] at h
    rw [Expr.openings, List.append_subset] at hfs
    refine ((lower_emits o hfs.1 h.2.1).both (lower_emits k hfs.2 h.2.2) (h := .index) [] "[" "]"
      fun x y ↦ ?_).congr fun τ hτ ↦ ?_
    · simp [Target.Expr.print]
    · rw [Expr.fill, lower]
  | unary p op e =>
    rw [Expr.fill, Expr.has_unary, Bool.or_eq_false_iff] at h
    have hfs : e.openings ⊆ fs := hfs
    obtain ⟨o, ho⟩ := exists_of_isNone (Bool.or_eq_false_iff.mp h.1).1
    have he := lower_emits e hfs h.2
    -- The operand has parentheses or not, whatever is filled in.
    have hlower (τ) (hτ : Alike σ τ fs) : lower ((Expr.unary p op e).fill τ) =
        do return .before o (unaryOperand (e.fill σ) (← lower (e.fill τ))) := by
      rw [Expr.fill, lower, ho]
      simp only [unaryOperand, hτ.startsWithOperator hfs]
    cases hstart : startsWithOperator (e.fill σ) with
    | true =>
      refine (he.around (o ++ "(") ")" fun x ↦ ?_).congr hlower
      simp [unaryOperand, hstart, Target.Expr.print]
    | false =>
      refine (he.around o [] fun x ↦ ?_).congr hlower
      simp [unaryOperand, hstart, Target.Expr.print]
  | update p op side e =>
    rw [Expr.fill, Expr.has_update, Bool.or_eq_false_iff] at h
    have he := lower_emits e hfs h.2
    cases side with
    | before =>
      refine (he.around (h := .before op.spelled) op.spelled [] fun x ↦ ?_).congr fun τ hτ ↦ ?_
      · simp [Target.Expr.print]
      · rw [Expr.fill, lower]
    | after =>
      refine (he.around (h := .after op.spelled) [] op.spelled fun x ↦ ?_).congr fun τ hτ ↦ ?_
      · simp [Target.Expr.print]
      · rw [Expr.fill, lower]
  | conditional p t y n =>
    rw [Expr.fill, Expr.has_conditional, Bool.or_eq_false_iff, Bool.or_eq_false_iff,
      Bool.or_eq_false_iff] at h
    rw [Expr.openings, List.append_subset, List.append_subset] at hfs
    refine (choice_emits (lower_emits t hfs.1.1 h.2.1) (lower_emits y hfs.1.2 h.2.2.1)
      (lower_emits n hfs.2 h.2.2.2)).congr fun τ hτ ↦ ?_
    rw [Expr.fill, lower]
  | object p ps =>
    rw [Expr.fill, Expr.has_object, Bool.or_eq_false_iff] at h
    have hentries := lowerProperties_emits (lowerProperties_emitting ps hfs h.2)
    refine (hentries.written lifts_hashText print_hash).congr fun τ hτ ↦ ?_
    rw [Expr.fill, lower]
  | array p es =>
    rw [Expr.fill, Expr.has_array, Bool.or_eq_false_iff] at h
    refine ((lowerAll_emits (lowerAll_emitting es hfs h.2)).enclosed (h := .array) "\x7b" "\x7d"
      fun xs ↦ rfl).congr fun τ hτ ↦ ?_
    rw [Expr.fill, lower]
  | member p o n q =>
    rw [Expr.fill, Expr.has_member, Bool.or_eq_false_iff] at h
    exact member_emits hfs (lower_emits o hfs h.2)
  | call p f as =>
    rw [Expr.fill, Expr.has_call, Bool.or_eq_false_iff, Bool.or_eq_false_iff] at h
    rw [Expr.openings, List.append_subset] at hfs
    have has := lowerAll_emitting as hfs.2 h.2.2
    cases f with
    | member q o n r =>
      have hpush : n = "push" → as.length = 1 := by
        have hone := (Bool.or_eq_false_iff.mp h.1).2
        simpa [Expr.fill, Expr.miscounts, Expr.length_fillAll] using hone
      exact memberCall_emits hpush hfs.1 hfs.2 (lower_emits o hfs.1 h.2.1) has
    | name q n =>
      refine ((lowerAll_emits has).enclosed
        (h := apply ((globalFunctions.lookup n).getD n.spelled))
        ((globalFunctions.lookup n).getD n.spelled ++ "(") ")" fun xs ↦ rfl).congr fun τ hτ ↦ ?_
      have hname : (Expr.name q n).fill τ = .name q n := rfl
      rw [Expr.fill, hname, lower]
    | foreign f =>
      have heffect (τ) (hτ : Alike σ τ fs) : (τ f).effect?.isSome = true :=
        hτ.effects hfs.1 f List.mem_cons_self
      refine call_emits rfl (fun τ hτ q o n r hτf ↦ ?_) (fun τ hτ q n hτf ↦ ?_)
        (lower_emits (.foreign f) hfs.1 h.2.1) has
      · have hmember := heffect τ hτ
        rw [Expr.fill] at hτf
        rw [hτf] at hmember
        cases hmember
      · have hname := heffect τ hτ
        rw [Expr.fill] at hτf
        rw [hτf] at hname
        cases hname
    | _ =>
      exact call_emits rfl (by simp [Expr.fill]) (by simp [Expr.fill]) (lower_emits _ hfs.1 h.2.1)
        has
  | new p f as =>
    rw [Expr.fill, Expr.has_new, Bool.or_eq_false_iff, Bool.or_eq_false_iff] at h
    rw [Expr.openings, List.append_subset] at hfs
    have has := lowerAll_emits (lowerAll_emitting as hfs.2 h.2.2)
    refine ((lower_emits f hfs.1 h.2.1).applied has (h := .construct) []
      ("():" ++ Target.constructor ++ "(") ")" fun x xs ↦ ?_).congr fun τ hτ ↦ ?_
    · simp [Target.Expr.print, Target.callText]
    · rw [Expr.fill, lower]

theorem lowerAll_emitting (cs : List Expr) (hfs : Expr.openingsAll cs ⊆ fs)
    (h : Expr.someHas faulty (Expr.fillAll σ cs) = false) : ∀ c ∈ cs, Emitting σ fs c := by
  cases cs with
  | nil => simp
  | cons c cs =>
    rw [Expr.fillAll, Expr.someHas_cons, Bool.or_eq_false_iff] at h
    rw [Expr.openingsAll, List.append_subset] at hfs
    exact List.forall_mem_cons.mpr ⟨lower_emits c hfs.1 h.1, lowerAll_emitting cs hfs.2 h.2⟩

theorem lowerProperties_emitting (ps : List (Lexeme × Expr)) (hfs : Expr.openingsProperties ps ⊆ fs)
    (h : Expr.someHas faulty ((Expr.fillProperties σ ps).map Prod.snd) = false) :
    ∀ x ∈ ps, Emitting σ fs x.2 := by
  cases ps with
  | nil => simp
  | cons x ps =>
    obtain ⟨k, v⟩ := x
    rw [Expr.fillProperties, List.map_cons, Expr.someHas_cons, Bool.or_eq_false_iff] at h
    rw [Expr.openingsProperties, List.append_subset] at hfs
    exact List.forall_mem_cons.mpr ⟨lower_emits v hfs.1 h.1, lowerProperties_emitting ps hfs.2 h.2⟩

end

end Expressions

end Advplc.Lowering

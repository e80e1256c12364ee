import Advplc.Proofs.Lowering.Contribution
import Advplc.Proofs.Script.Tidy

/-!
# Which expressions go over several lines

The texts of strings and templates are taken apart at their line feeds, but the keys of objects are
not.  So what a tidy expression becomes is broken if and only if one of its keys is
(`lower_breaks`).  The keys that count are those that are written: `toUpperCase` takes no arguments,
and `substring` takes two.

`Yields x P` says of what a function makes, if it makes anything, that it has the property `P`.  The
induction is over the expression, with `lower` unfolded once in each case; `Yields.map`,
`Yields.both` and `Yields.bind` follow the steps of the function, and what is left for each node is
that its text is broken if a part is.
-/

set_option autoImplicit false

namespace Advplc.Lowering

open Script (Expr Stmt ForInit)

/-! ## Keys -/

mutual

/-- The keys of objects that are written in the code for an expression. -/
def keys : Expr → List Text
  | .template _ _ hs => (keysEach hs).flatten
  | .binary _ _ l r | .assign _ _ l r | .index _ l r => keys l ++ keys r
  | .unary _ _ e | .update _ _ _ e | .member _ e _ _ => keys e
  | .conditional _ t y n => keys t ++ keys y ++ keys n
  | .object _ ps => keysOf ps
  | .array _ es => (keysEach es).flatten
  | .call _ f as => keys f ++ arranged (method? f) (keysEach as)
  | .new _ f as => keys f ++ (keysEach as).flatten
  | .number _ _ | .string _ _ | .boolean _ _ | .null _ | .name _ _ | .this _ | .foreign _ => []

/-- The keys that are written in the code for each of several expressions. -/
def keysEach : List Expr → List (List Text)
  | [] => []
  | e :: es => keys e :: keysEach es

/-- The keys of some properties, and those that are written in the code for their values. -/
def keysOf : List (Lexeme × Expr) → List Text
  | [] => []
  | (k, v) :: ps => k.spelled :: (keys v ++ keysOf ps)

end

/-! ## What is made -/

/-- What is made, if anything is, has a property. -/
def Yields {ε α : Type} (x : Except ε α) (P : α → Prop) : Prop := ∀ a, x = .ok a → P a

namespace Yields

variable {ε α β γ : Type} {x : Except ε α} {y : Except ε β} {P : α → Prop} {Q : β → Prop}
  {R : γ → Prop}

/-- What is made has the property. -/
theorem ok {a : α} (h : P a) : Yields (.ok a : Except ε α) P := by
  rintro _ ⟨⟩
  exact h

/-- Where nothing is made, there is nothing to say. -/
theorem error {e : ε} : Yields (.error e : Except ε α) P := by
  rintro _ ⟨⟩

/-- One step after another; the second may use what the first has yielded. -/
theorem bind {g : α → Except ε γ} (hx : Yields x P) (hg : ∀ a, P a → Yields (g a) R) :
    Yields (x >>= g) R := by
  rcases x with e | a
  · exact error
  · exact hg a (hx a rfl)

theorem map {g : α → γ} (hx : Yields x P) (hg : ∀ a, P a → R (g a)) :
    Yields (do return g (← x)) R :=
  hx.bind fun a ha ↦ ok (hg a ha)

theorem both {g : α → β → γ} (hx : Yields x P) (hy : Yields y Q)
    (hg : ∀ a b, P a → Q b → R (g a b)) : Yields (do return g (← x) (← y)) R :=
  hx.bind fun a ha ↦ hy.map fun b hb ↦ hg a b ha hb

end Yields

/-! ## Expressions -/

/-- Whether what an expression becomes is broken exactly if one of the keys is. -/
def BreaksAt (ks : List Text) (t : Target.Expr) : Prop := t.print.broken = ks.any Text.broken

/-- The operators of a table stay on their lines, because all its entries do. -/
theorem broken_of_lookup {table : List (Lexeme × Text)} {op : Lexeme} {o : Text}
    (hall : table.all (fun x ↦ !x.2.broken) = true) (h : table.lookup op = some o) :
    o.broken = false := by
  obtain ⟨before, behind, rfl, -⟩ := List.lookup_eq_some_iff.mp h
  simpa using List.all_eq_true.mp hall (op, o) (by simp)

theorem BreaksAt.eq {ks : List Text} {t : Target.Expr} (h : BreaksAt ks t) :
    t.print.broken = ks.any Text.broken := h

/-- In a numeral there is no key. -/
theorem keys_of_natural? {e : Expr} {n : Nat} (h : natural? e = some n) : keys e = [] := by
  cases e with
  | number => rfl
  | _ => cases h

theorem keys_of_isThis {e : Expr} (h : isThis e = true) : keys e = [] := by
  cases e with
  | this => rfl
  | _ => cases h

/-- Shifting a bound writes it, or a number instead of a numeral. -/
theorem BreaksAt.shift {node : Expr} {e : Target.Expr} (h : BreaksAt (keys node) e)
    (delta : Int) : BreaksAt (keys node) (shift node e delta) := by
  rw [BreaksAt, Lowering.shift]
  split
  · -- It was folded, so it was a numeral and had no keys.
    rw [keys_of_natural? ‹_›]
    simp [Target.Expr.print]
  · simp only [Target.Expr.print, Text.broken_append, h.eq]
    split <;> simp

/-- A distance writes both ends, unless they are folded. -/
theorem BreaksAt.distance {start last : Expr} {s l : Target.Expr}
    (hs : BreaksAt (keys start) s) (hl : BreaksAt (keys last) l) :
    BreaksAt (keys last ++ keys start) (distance start s last l) := by
  rw [BreaksAt, Lowering.distance]
  split
  · rw [keys_of_natural? ‹natural? start = _›, keys_of_natural? ‹natural? last = _›]
    simp [Target.Expr.print]
  · -- A first end of zero is left out, and has no keys.
    rw [hl.eq, keys_of_natural? ‹natural? start = _›]
    simp
  · simp [Target.Expr.print, hs.eq, hl.eq]

/-- What expressions become is broken, one by one, exactly if one of their keys is. -/
abbrev BreakAlike (es : List Expr) (ts : List Target.Expr) : Prop :=
  List.Forall₂ (fun e t ↦ BreaksAt (keys e) t) es ts

/-- Taken together, the arguments are broken if a key of one of them is. -/
theorem BreakAlike.any {es : List Expr} {ts : List Target.Expr} (h : BreakAlike es ts) :
    (Target.Expr.printAll ts).any Text.broken = (keysEach es).flatten.any Text.broken := by
  induction h with
  | nil => rfl
  | cons he _ ih => simp [Target.Expr.printAll, keysEach, he.eq, ih]

theorem broken_apply {function : Text} (h : function.broken = false) (ts : List Target.Expr) :
    (apply function ts).print.broken = (Target.Expr.printAll ts).any Text.broken := by
  simp [apply, Target.Expr.print, h]

theorem Method.broken_function (m : Method) : m.function.broken = false := by
  cases m <;> simp [Method.function]

/-- A method writes those arguments that it has use for, each as often as `arranged` says. -/
theorem applyMethod_breaks (m : Method) (pos : Option Pos) {o : Expr} {receiver : Target.Expr}
    {as : List Expr} {ts : List Target.Expr} (ho : BreaksAt (keys o) receiver)
    (has : BreakAlike as ts) : Yields (applyMethod m pos receiver (as.zip ts))
      (BreaksAt (keys o ++ arranged (some m) (keysEach as))) := by
  have hall := has.any
  have hzip : (as.zip ts).map Prod.snd = ts := List.map_snd_zip has.length_eq.ge
  have hm := m.broken_function
  cases m with
  | toUpperCase | toLowerCase =>
    refine .ok ?_
    rw [BreaksAt, broken_apply hm]
    simp [Target.Expr.printAll, ho.eq, arranged]
  | indexOf =>
    refine .ok ?_
    rw [BreaksAt, broken_apply hm, hzip]
    simp [Target.Expr.printAll, ho.eq, arranged, hall]
  -- With any other number of arguments nothing is made.
  | push =>
    rcases has with _ | ⟨ha, _ | ⟨_, _⟩⟩
    · exact .error
    · refine .ok ?_
      rw [BreaksAt, broken_apply hm]
      simp [Target.Expr.printAll, ho.eq, arranged, keysEach, ha.eq]
    · exact .error
  -- No, one or at least two arguments; what comes behind the second is not written.
  | substring =>
    rcases has with _ | ⟨hs, _ | ⟨hl, _⟩⟩
    · refine .ok ?_
      rw [BreaksAt, broken_apply hm]
      simp [Target.Expr.printAll, Target.Expr.print, ho.eq, arranged, keysEach]
    · refine .ok ?_
      rw [BreaksAt, broken_apply hm]
      simp [Target.Expr.printAll, ho.eq, arranged, keysEach, (hs.shift 1).eq]
    · refine .ok ?_
      rw [BreaksAt, broken_apply hm]
      simp [Target.Expr.printAll, ho.eq, arranged, keysEach, (hs.shift 1).eq, (hs.distance hl).eq]

/-- A member is a length, a field of `this`, or a field of an object. -/
theorem member_breaks (p q : Option Pos) {o : Expr} {n : Lexeme} (hn : n.spelled.broken = false)
    (ho : Yields (lower o) (BreaksAt (keys o))) :
    Yields (lower (.member p o n q)) (BreaksAt (keys (.member p o n q))) := by
  rw [lower, keys]
  split
  · refine ho.map fun o' ho ↦ ?_
    rw [BreaksAt, broken_apply (by simp [lengthFunction])]
    simp [Target.Expr.printAll, ho.eq]
  · split
    · refine .ok ?_
      rw [keys_of_isThis ‹_›]
      simp [BreaksAt, Target.Expr.print, hn]
    · refine ho.map fun o' ho ↦ ?_
      simp [BreaksAt, Target.Expr.print, ho.eq, hn]

/-- A call of a member is a method, a call on `this`, or a call on an object. -/
theorem memberCall_breaks (p q r : Option Pos) {o : Expr} {n : Lexeme} {as : List Expr}
    (hn : n.spelled.broken = false) (ho : Yields (lower o) (BreaksAt (keys o)))
    (has : Yields (lowerAll as) (BreakAlike as)) :
    Yields (lower (.call p (.member q o n r) as))
      (BreaksAt (keys (.call p (.member q o n r) as))) := by
  rw [lower, keys, keys, method?]
  refine has.bind fun ts hts ↦ ?_
  rcases Method.ofName? n with _ | m
  · simp only [arranged_none]
    split
    · refine .ok ?_
      rw [keys_of_isThis ‹_›]
      simp [BreaksAt, Target.Expr.print, hn, hts.any]
    · refine ho.map fun o' ho ↦ ?_
      simp [BreaksAt, Target.Expr.print, hn, ho.eq, hts.any]
  · exact ho.bind fun o' ho ↦ applyMethod_breaks m o.pos ho hts

/-- The name of a function is replaced by one from a table, or stays as it is. -/
theorem broken_globalFunction {n : Lexeme} (h : n.spelled.broken = false) :
    ((globalFunctions.lookup n).getD n.spelled).broken = false := by
  rcases ho : globalFunctions.lookup n with _ | o
  · exact h
  · exact broken_of_lookup (by decide) ho

theorem broken_hashText (ts : List Text) : (hashText ts).broken = ts.any Text.broken := by
  cases ts with
  | nil => simp [hashText, Target.emptyHash]
  | cons t ts => exact Target.broken_braced (t :: ts)

/-! ## Templates -/

/-- The chunks of a template are taken apart at their line feeds, as strings are. -/
theorem broken_chunkPieces (chunk : Text) :
    (Target.Piece.printAll (chunkPieces chunk)).any Text.broken = false := by
  rw [chunkPieces]
  split
  · rfl
  · exact Target.broken_ofText chunk

/-- So are all chunks that are left when the holes are used up. -/
theorem broken_chunks (chunks : List Text) :
    (Target.Piece.printAll (chunks.flatMap chunkPieces)).any Text.broken = false := by
  rw [printAll_eq_map, List.map_flatMap, List.any_flatMap, List.any_eq_false]
  intro chunk _
  rw [← printAll_eq_map, broken_chunkPieces]
  decide

/-- A template without any piece is the empty string. -/
theorem broken_orEmpty (ps : List Target.Piece) :
    (Target.Piece.printAll (orEmpty ps)).any Text.broken =
      (Target.Piece.printAll ps).any Text.broken := by
  cases ps with
  | nil => simp [orEmpty, Target.Piece.printAll, Target.Piece.print]
  | cons p ps => rfl

mutual

/-- **What an expression becomes is broken if and only if a key in it is.** -/
theorem lower_breaks (e : Expr) (h : e.Tidy) : Yields (lower e) (BreaksAt (keys e)) := by
  cases e with
  | number p n => exact .ok h
  | name p n => exact .ok h
  | boolean p b => exact .ok (by cases b <;> simp [BreaksAt, Target.Expr.print, keys])
  | null p => exact .ok (by simp [BreaksAt, Target.Expr.print, keys])
  | this p => exact .ok (by simp [BreaksAt, Target.Expr.print, keys])
  | foreign f => exact .error
  -- A string is taken apart at its line feeds, so it is never broken.
  | string p v =>
    refine .ok ?_
    rw [BreaksAt, Target.Expr.ofText, Target.Expr.print, Target.broken_groupedSum]
    exact Target.broken_ofText v
  | template p cs hs =>
    rw [lower]
    refine (lowerTemplate_breaks cs hs h.1 h.2).map fun ps hps ↦ ?_
    rw [BreaksAt, Target.Expr.print, Target.broken_groupedSum, broken_orEmpty, hps, keys]
  -- Operators come from a table, and stay on their lines.
  | binary p op l r =>
    rw [lower]
    rcases ho : binaryOperators.lookup op with _ | o
    · exact .error
    have hop := broken_of_lookup (by decide) ho
    refine (lower_breaks l h.1).both (lower_breaks r h.2) fun l' r' hl hr ↦ ?_
    simp [BreaksAt, Target.Expr.print, keys, hl.eq, hr.eq, hop]
  | unary p op e =>
    rw [lower]
    rcases ho : unaryOperators.lookup op with _ | o
    · exact .error
    have hop := broken_of_lookup (by decide) ho
    refine (lower_breaks e h).map fun e' he ↦ ?_
    rw [BreaksAt, unaryOperand]
    split <;> simp [Target.Expr.print, keys, he.eq, hop]
  | update p op side e =>
    have he := lower_breaks e h.2
    rcases side with _ | _ <;> rw [lower]
    · exact he.map fun e' he ↦ by simp [BreaksAt, Target.Expr.print, keys, he.eq, h.1]
    · exact he.map fun e' he ↦ by simp [BreaksAt, Target.Expr.print, keys, he.eq, h.1]
  | assign p op t v =>
    rw [lower]
    rcases ho : assignmentOperators.lookup op with _ | o
    · exact .error
    have hop := broken_of_lookup (by decide) ho
    refine (lower_breaks t h.1).both (lower_breaks v h.2) fun t' v' ht hv ↦ ?_
    simp [BreaksAt, Target.Expr.print, keys, ht.eq, hv.eq, hop]
  | conditional p t y n =>
    rw [lower]
    refine (lower_breaks t h.1).bind fun t' ht ↦ ?_
    refine (lower_breaks y h.2.1).both (lower_breaks n h.2.2) fun y' n' hy hn ↦ ?_
    simp [BreaksAt, Target.Expr.print, keys, ht.eq, hy.eq, hn.eq, Target.choiceFunction]
  -- Here keys are written.
  | object p ps =>
    rw [lower]
    refine (lowerProperties_breaks ps h).map fun es hes ↦ ?_
    rw [BreaksAt, print_hash, broken_hashText, hes, keys]
  | array p es =>
    rw [lower]
    refine (lowerAll_breaks es h).map fun ts hts ↦ ?_
    rw [BreaksAt, Target.Expr.print, Target.broken_braced, hts.any, keys]
  | member p o n q => exact member_breaks p q h.2 (lower_breaks o h.1)
  | index p o k =>
    rw [lower]
    refine (lower_breaks o h.1).both (lower_breaks k h.2) fun o' k' ho hk ↦ ?_
    simp [BreaksAt, Target.Expr.print, keys, ho.eq, hk.eq]
  -- What is called decides between a member, a function by its name, and anything else.
  | call p f as =>
    have has := lowerAll_breaks as h.2
    cases f with
    | member q o n r => exact memberCall_breaks p q r h.1.2 (lower_breaks o h.1.1) has
    | name q n =>
      rw [lower]
      refine has.map fun ts hts ↦ ?_
      rw [BreaksAt, broken_apply (broken_globalFunction h.1), hts.any]
      simp [keys, method?, arranged_none]
    | _ =>
      have hf := lower_breaks _ h.1
      rw [lower_call (by simp) (by simp)]
      refine has.bind fun ts hts ↦ hf.map fun f' hf' ↦ ?_
      rw [keys, BreaksAt, Target.Expr.print, Target.broken_callText, hf'.eq, hts.any,
        List.any_append]
      rfl
  | new p f as =>
    rw [lower]
    refine (lowerAll_breaks as h.2).bind fun ts hts ↦ (lower_breaks f h.1).map fun f' hf ↦ ?_
    simp [BreaksAt, Target.Expr.print, keys, hf.eq, hts.any, Target.constructor]

theorem lowerAll_breaks (es : List Expr) (h : Expr.AllTidy es) :
    Yields (lowerAll es) (BreakAlike es) := by
  cases es with
  | nil => exact .ok .nil
  | cons e es =>
    rw [lowerAll]
    exact (lower_breaks e h.1).both (lowerAll_breaks es h.2) fun t ts ht hts ↦ .cons ht hts

/-- The properties of an object: each writes its key and its value. -/
theorem lowerProperties_breaks (ps : List (Lexeme × Expr)) (h : Expr.AllTidyValues ps) :
    Yields (lowerProperties ps) fun es ↦
      (Target.Expr.printEntries es).any Text.broken = (keysOf ps).any Text.broken := by
  cases ps with
  | nil => exact .ok rfl
  | cons x ps =>
    obtain ⟨k, v⟩ := x
    rw [lowerProperties]
    refine (lower_breaks v h.1).both (lowerProperties_breaks ps h.2) fun v' es hv hes ↦ ?_
    simp [Target.Expr.printEntries, keysOf, hv.eq, hes, Bool.or_assoc]

/-- The chunks stay on their lines, so only what stands in the holes counts. -/
theorem lowerTemplate_breaks (cs : List Text) (hs : List Expr) (hcount : hs.length ≤ cs.length)
    (h : Expr.AllTidy hs) :
    Yields (lowerTemplate cs hs) fun ps ↦
      (Target.Piece.printAll ps).any Text.broken = (keysEach hs).flatten.any Text.broken := by
  cases hs with
  | nil =>
    rw [lowerTemplate]
    exact .ok (broken_chunks cs)
  | cons e hs =>
    cases cs with
    | nil => cases hcount
    | cons c cs =>
      have hrest := lowerTemplate_breaks cs hs (Nat.le_of_succ_le_succ hcount) h.2
      rw [lowerTemplate]
      refine (lower_breaks e h.1).both hrest fun e' ps he hps ↦ ?_
      have hc := broken_chunkPieces c
      rw [printAll_eq_map] at hc hps ⊢
      rw [List.map_append, List.any_append, hc, List.map_cons, List.any_cons, hps]
      simp [Target.Piece.print, keysEach, he.eq, Target.toStringFunction]

end

/-- An assignment that is a statement writes the same parts. -/
theorem lowerStatement_breaks {e : Expr} (h : e.Tidy) :
    Yields (lowerStatement e) (BreaksAt (keys e)) := by
  cases e with
  | assign p op t v =>
    rw [lowerStatement, lowerAssign]
    rcases ho : assignmentOperators.lookup op with _ | o
    · exact .error
    have hop := broken_of_lookup (by decide) ho
    refine (lower_breaks t h.1).both (lower_breaks v h.2) fun t' v' ht hv ↦ ?_
    simp [BreaksAt, Target.Expr.print, keys, ht.eq, hv.eq, hop]
  | _ => exact lower_breaks _ h

/-! ## Output -/

theorem outputPieces_breaks {e : Expr} (h : e.Tidy) : Yields (outputPieces e) fun ps ↦
    (Target.Piece.printAll ps).any Text.broken = (keys e).any Text.broken := by
  cases e with
  | string p v => exact .ok (Target.broken_ofText v)
  | template p cs hs =>
    rw [outputPieces]
    exact (lowerTemplate_breaks cs hs h.1 h.2).map fun ps hps ↦ (broken_orEmpty ps).trans hps
  | _ =>
    rw [outputPieces_value (by simp) (by simp)]
    refine (lower_breaks _ h).map fun e' he ↦ ?_
    simp [Target.Piece.printAll, Target.Piece.print, Target.toStringFunction, he.eq]

theorem outputAll_breaks {es : List Expr} (h : Expr.AllTidy es) : Yields (outputAll es) fun ps ↦
    (Target.Piece.printAll ps).any Text.broken = (keysEach es).flatten.any Text.broken := by
  induction es with
  | nil => exact .ok rfl
  | cons e es ih =>
    rw [outputAll]
    refine (outputPieces_breaks h.1).both (ih h.2) fun ps qs hps hqs ↦ ?_
    rw [printAll_eq_map] at hps hqs ⊢
    simp [keysEach, List.map_append, List.any_append, hps, hqs]

/-- What is written to the output is broken if and only if a key in it is. -/
theorem lowerOutput_breaks {es : List Expr} (h : Expr.AllTidy es) :
    Yields (lowerOutput es) fun o ↦ o.print.broken = (keysEach es).flatten.any Text.broken := by
  match es with
  | [] => exact .ok (by simp [Output.print, Target.Piece.printAll, Target.Piece.print, keysEach])
  | e :: e' :: es =>
    rw [lowerOutput_several]
    refine (outputAll_breaks h).map fun ps hps ↦ ?_
    rw [Output.print, Target.broken_sum, hps]
  | [e] =>
    rw [keysEach, keysEach, List.flatten_cons, List.flatten_nil, List.append_nil]
    cases e with
    | string p v => exact .ok ((Target.broken_sum _).trans (Target.broken_ofText v))
    | template p cs hs =>
      rw [lowerOutput]
      refine (lowerTemplate_breaks cs hs h.1.1 h.1.2).map fun ps hps ↦ ?_
      rw [Output.print, Target.broken_sum, broken_orEmpty, hps, keys]
    | _ =>
      rw [lowerOutput_value (by simp) (by simp)]
      exact (lower_breaks _ h.1).map fun e' he ↦ he

end Advplc.Lowering

import Advplc.Proofs.Grammar.Regular
import Advplc.Proofs.Lowering.Lines.Expression
import Advplc.Proofs.Target.Concatenation

/-!
# Parentheses and quotes in generated code

In the code for an expression that was parsed, every parenthesis and every literal is closed
(`closed_of_parseExpr`).  A reader of the code that looks for the end of an argument relies on it.

Generated code has no other parentheses than those that it puts around something, and no other
quotes than those of literals, where they do not occur inside.  The words that are taken over from
the program have neither, since they were tokens (`wordy_of_tokenize`).  That cannot be said of any
tree: a name with a parenthesis in it can be built by hand, so the theorem about code generation has
the words as its condition (`lower_closed`).  Brackets and braces are not looked at.
-/

set_option autoImplicit false

namespace Advplc

open Target (Closed delimiting)

/-! ## Words without parentheses and quotes -/

namespace Rule

/-- What is in no name and no numeral is in no token for one. -/
theorem notMem_of_word {d : CodePoint} (hd : Outside d) {k : Kind}
    (hk : k = .identifier ∨ k = .number) {before : Option Kind} {t : Text} {n : Nat}
    (h : first? before t = some (some k, n)) : d ∉ t.take n := by
  rcases hk with rfl | rfl
  · obtain ⟨rfl, -⟩ := length_of_first? h rfl
    exact avoids_identifier hd t
  · obtain ⟨rfl, -⟩ := length_of_first? h rfl
    exact avoids_number hd t

theorem outside_of_delimiting : ∀ d ∈ delimiting, Outside d := by
  unfold Outside
  decide

end Rule

/-- Whether the token, if it is a name or a numeral, has no parenthesis and no quote in it, and is
spelled as it should be, if it is a mark. -/
def Token.Wordy (t : Token) : Prop :=
  (t.kind = .identifier ∨ t.kind = .number → ∀ d ∈ delimiting, d ∉ t.lexeme.spelled) ∧ t.Spelled

/-- What the lexer takes for a name or a numeral has no parenthesis and no quote in it. -/
theorem wordy_of_tokenize {source : Text} {p : Pos} {ts : List Token}
    (h : tokenize source p = .ok ts) : ∀ t ∈ ts, t.Wordy := by
  intro t ht
  refine ⟨fun hkind d hd ↦ ?_, spelled_of_tokenize h t ht⟩
  obtain ⟨before, u, n, hfirst, hlexeme, -⟩ := Scan.exists_first? (mem_scan_of_tokenize h ht)
  rw [hlexeme]
  exact Rule.notMem_of_word (Rule.outside_of_delimiting d hd) hkind hfirst

/-! ## Expressions without parentheses and quotes in their words -/

namespace Grammar

open Script

/-- Whether a name, a numeral or an update operator of a node has a parenthesis or a quote in it. -/
def misworded : Expr → Bool
  | .number _ n | .name _ n | .member _ _ n _ | .update _ n _ _ =>
    n.spelled.any fun c ↦ delimiting.contains c
  | _ => false

/-- What is computed about a word says what is meant. -/
theorem any_delimiting {w : Text} :
    (w.any fun c ↦ delimiting.contains c) = false ↔ ∀ d ∈ delimiting, d ∉ w := by
  rw [List.any_eq_false]
  simp only [List.contains_iff_mem]
  exact ⟨fun h d hd hw ↦ h d hw hd, fun h c hc hd ↦ h c hd hc⟩

/-- The words of an expression that is read from tokens of the lexer are words. -/
theorem spares_misworded : Spares Token.Wordy misworded where
  number _ _ ht hkind := any_delimiting.mpr (ht.1 (.inr hkind))
  name _ _ ht hkind := any_delimiting.mpr (ht.1 (.inl hkind))
  member _ _ _ t ht hname := by
    have hranges : ∀ d ∈ delimiting, nameStartRanges.has d.val = false ∧
        nameRestRanges.has d.val = false := by decide +kernel
    refine any_delimiting.mpr fun d hd ↦ ?_
    rcases hname with hkind | ⟨w, hw, hisName⟩
    · exact ht.1 (.inl hkind) d hd
    · rw [hw]
      exact Text.notMem_of_isName (hranges d hd).1 (hranges d hd).2 hisName
  update _ _ _ t ht hkind := by
    refine any_delimiting.mpr ?_
    -- An operator is spelled in one way, in which there is neither.
    rcases List.mem_pair.mp hkind with hkind | hkind <;>
      (rw [ht.2 _ hkind]; decide)
  unary _ _ _ _ _ := rfl
  binary _ _ _ _ _ _ _ _ _ := rfl
  assign _ _ _ _ _ _ := rfl
  template _ _ _ _ := rfl
  wordless {e} he := by cases e <;> first | rfl | cases he

end Grammar

/-! ## Closed texts -/

namespace Target

variable {t f : Text} {ts : List Text}

/-- A fixed text without parentheses and quotes is closed, as computing it shows. -/
theorem closed_of_string {s : String} (h : s.toList.all fun c ↦ !delimiting.contains (.scalar c)) :
    Closed s := by
  refine closed_of_forall fun c hc hd ↦ ?_
  obtain ⟨d, hmem, rfl⟩ := List.mem_map.mp hc
  have hnot := List.all_eq_true.mp h d hmem
  rw [List.contains_iff_mem.mpr hd] at hnot
  cases hnot

theorem closed_ofNat (n : Nat) : Closed (Text.ofNat n) := by
  refine closed_of_forall fun c hc hd ↦ ?_
  have hcases : c = '(' ∨ c = ')' ∨ c = '"' ∨ c = '\'' := by
    simpa [delimiting, Text.ofString] using hd
  rcases hcases with rfl | rfl | rfl | rfl <;>
    exact absurd (Text.isDigit_of_mem_ofNat hc) (by decide)

theorem closed_ofInt (i : Int) : Closed (Text.ofInt i) := by
  rcases i with n | n
  · exact closed_ofNat n
  · exact (closed_of_string rfl).append (closed_ofNat (n + 1))

theorem Closed.parentheses (h : Closed t) : Closed ("(" ++ t ++ ")") := by
  have hgroup := Closed.group h .nil
  simpa [Text.ofString] using hgroup

theorem closed_joinWith {sep : Text} (hsep : Closed sep) (hts : ∀ t ∈ ts, Closed t) :
    Closed (Text.joinWith sep ts) := by
  induction ts with
  | nil => exact .nil
  | cons t ts ih =>
    rw [List.forall_mem_cons] at hts
    rcases ts with _ | ⟨u, ts⟩
    · simpa [Text.joinWith] using hts.1
    · rw [Text.joinWith, List.intercalate_cons_cons]
      exact (hts.1.append hsep).append (ih hts.2)

/-- A call is a function, which may be any closed text, and a list in parentheses. -/
theorem closed_callText (hf : Closed f) (hts : ∀ t ∈ ts, Closed t) : Closed (callText f ts) := by
  have hlist : Closed (commaList ts) := closed_joinWith (closed_of_string rfl) hts
  rw [callText, List.append_assoc, List.append_assoc]
  refine hf.append ?_
  rw [← List.append_assoc]
  exact hlist.parentheses

theorem closed_braced (hts : ∀ t ∈ ts, Closed t) : Closed (braced ts) :=
  ((closed_of_string rfl).append (closed_joinWith (closed_of_string rfl) hts)).append
    (closed_of_string rfl)

/-- Operands are grouped if there are more than one. -/
theorem closed_groupedSum (hts : ∀ t ∈ ts, Closed t) : Closed (groupedSum ts) := by
  have hsum : Closed (sum ts) := closed_joinWith (closed_of_string rfl) hts
  unfold groupedSum
  split
  · exact hts _ (List.mem_singleton_self _)
  · exact hsum.parentheses

/-- A text is a literal, or a sum of literals if it has both quotes in it: no literal has the quote
inside that closes it. -/
theorem closed_quote (t : Text) : Closed (quote t) := by
  rw [quote_eq]
  refine closed_joinWith (closed_of_string rfl) (List.forall_mem_map.mpr fun o ho ↦ ?_)
  obtain ⟨q, part, rfl, hquote, hq, -⟩ := exists_of_mem_quotedOperands ho
  simpa [Operand.print] using Closed.literal hquote hq .nil

/-- The pieces of a text are closed. -/
theorem closed_ofText (t : Text) : ∀ x ∈ Piece.printAll (Piece.ofText t), Closed x := by
  rw [Lowering.printAll_eq_map]
  refine List.forall_mem_map.mpr fun p hp ↦ ?_
  rcases mem_ofText hp with rfl | ⟨line, rfl, -⟩
  · exact closed_of_string rfl
  · exact closed_quote line

end Target

/-! ## Generated expressions -/

namespace Lowering

open Script (Expr)

open Grammar (misworded)

/-- What an expression becomes is closed. -/
abbrev ClosedAt (t : Target.Expr) : Prop := Closed t.print

/-- Whether the words of an expression, and those inside it, have no parentheses and quotes. -/
abbrev Worded (e : Expr) : Prop := e.has misworded = false

/-- Whether the words of several expressions have no parentheses and quotes. -/
abbrev AllWorded (es : List Expr) : Prop := Expr.someHas misworded es = false

theorem allWorded_cons {e : Expr} {es : List Expr} :
    AllWorded (e :: es) ↔ Worded e ∧ AllWorded es := by
  rw [AllWorded, Expr.someHas_cons, Bool.or_eq_false_iff]

/-- A word of a tree without parentheses and quotes is closed. -/
theorem closed_of_any {w : Text} (h : (w.any fun c ↦ delimiting.contains c) = false) : Closed w :=
  Target.closed_of_forall fun c hc hd ↦ Grammar.any_delimiting.mp h c hd hc

/-- The texts of a table are closed if there is no parenthesis and no quote in any of them. -/
theorem closed_of_lookup {table : List (Lexeme × Text)} {op : Lexeme} {o : Text}
    (hall : table.all (fun x ↦ !x.2.any fun c ↦ delimiting.contains c) = true)
    (h : table.lookup op = some o) : Closed o := by
  obtain ⟨before, behind, rfl, -⟩ := List.lookup_eq_some_iff.mp h
  have hnone := List.all_eq_true.mp hall (op, o) (by simp)
  exact closed_of_any (by simpa using hnone)

theorem ClosedAt.printAll {ts : List Target.Expr} (h : ∀ t ∈ ts, ClosedAt t) :
    ∀ x ∈ Target.Expr.printAll ts, Closed x := by
  induction ts with
  | nil => exact List.forall_mem_nil _
  | cons t ts ih =>
    rw [List.forall_mem_cons] at h
    exact List.forall_mem_cons.mpr ⟨h.1, ih h.2⟩

theorem closed_apply {function : Text} (hf : Closed function) {ts : List Target.Expr}
    (hts : ∀ t ∈ ts, ClosedAt t) : ClosedAt (apply function ts) :=
  Target.closed_callText hf (ClosedAt.printAll hts)

theorem closed_binary {op : Text} (hop : Closed op) {l r : Target.Expr} (hl : ClosedAt l)
    (hr : ClosedAt r) : ClosedAt (.binary op l r) := by
  have hspace : Closed " " := Target.closed_of_string rfl
  have hinner := ((((hl.append hspace).append hop).append hspace).append hr).parentheses
  simpa [ClosedAt, Target.Expr.print] using hinner

theorem closed_assign {op : Text} (hop : Closed op) {t v : Target.Expr} (ht : ClosedAt t)
    (hv : ClosedAt v) : ClosedAt (Target.Expr.assign op t v).group := by
  have hspace : Closed " " := Target.closed_of_string rfl
  exact ((((ht.append hspace).append hop).append hspace).append hv).parentheses

theorem closed_integer (i : Int) : ClosedAt (.integer i) := Target.closed_ofInt i

/-- A number that was moved is computed, and may be negative; anything else is put in
parentheses. -/
theorem ClosedAt.shift {e : Target.Expr} (h : ClosedAt e) (node : Expr) (delta : Int) :
    ClosedAt (shift node e delta) := by
  rw [Lowering.shift]
  split
  · exact closed_integer _
  · refine closed_binary ?_ h (closed_integer _)
    split <;> exact Target.closed_of_string rfl

theorem ClosedAt.distance {s l : Target.Expr} (hs : ClosedAt s) (hl : ClosedAt l)
    (start last : Expr) : ClosedAt (distance start s last l) := by
  rw [Lowering.distance]
  split
  · exact closed_integer _
  · exact hl
  · exact closed_binary (Target.closed_of_string rfl) hl hs

/-- A method has become a call of a function.  The methods take their arguments in different ways,
so there is a case for each. -/
theorem applyMethod_closed (m : Method) (pos : Option Pos) {receiver : Target.Expr}
    {as : List (Expr × Target.Expr)} (hreceiver : ClosedAt receiver)
    (has : ∀ x ∈ as, ClosedAt x.2) : Yields (applyMethod m pos receiver as) ClosedAt := by
  have hm : Closed m.function := by cases m <;> exact Target.closed_of_string rfl
  have hcall {ts : List Target.Expr} (hts : ∀ t ∈ ts, ClosedAt t) :
      Yields (.ok (apply m.function (receiver :: ts)) : Except Error Target.Expr) ClosedAt :=
    .ok (closed_apply hm (List.forall_mem_cons.mpr ⟨hreceiver, hts⟩))
  match m, as with
  | .substring, [] => exact hcall (List.forall_mem_singleton.mpr (closed_integer 1))
  | .substring, [(start, s)] =>
    exact hcall (List.forall_mem_singleton.mpr ((has (start, s) (by simp)).shift start 1))
  | .substring, (start, s) :: (last, l) :: _ =>
    have hs : ClosedAt s := has (start, s) (by simp)
    have hl : ClosedAt l := has (last, l) (by simp)
    exact hcall (List.forall_mem_cons.mpr ⟨hs.shift start 1,
      List.forall_mem_singleton.mpr (hs.distance hl start last)⟩)
  | .toUpperCase, _ | .toLowerCase, _ => exact hcall (List.forall_mem_nil _)
  | .push, [(e, t)] => exact hcall (List.forall_mem_singleton.mpr (has (e, t) (by simp)))
  | .push, [] | .push, _ :: _ :: _ => exact .error
  | .indexOf, as => exact hcall (List.forall_mem_map.mpr has)

theorem member_closed (p q : Option Pos) {o : Expr} {n : Lexeme} (hn : Closed n.spelled)
    (ho : Yields (lower o) ClosedAt) : Yields (lower (.member p o n q)) ClosedAt := by
  have hcolon : Closed ":" := Target.closed_of_string rfl
  rw [lower]
  split
  · exact ho.map fun o' ho ↦ closed_apply (Target.closed_of_string rfl)
      (List.forall_mem_singleton.mpr ho)
  · split
    · exact .ok ((Target.closed_of_string rfl).append hn)
    · exact ho.map fun o' ho ↦ (ho.append hcolon).append hn

/-- A call of a method that is none of the translated ones stays a call of a method. -/
theorem memberCall_closed (p q r : Option Pos) {o : Expr} {n : Lexeme} {as : List Expr}
    (hn : Closed n.spelled) (ho : Yields (lower o) ClosedAt)
    (has : Yields (lowerAll as) fun ts ↦ ∀ t ∈ ts, ClosedAt t) :
    Yields (lower (.call p (.member q o n r) as)) ClosedAt := by
  have hcolon : Closed ":" := Target.closed_of_string rfl
  rw [lower]
  refine has.bind fun ts hts ↦ ?_
  have hcall := Target.closed_callText hn (ClosedAt.printAll hts)
  rcases Method.ofName? n with _ | m
  · simp only
    split
    · exact .ok ((Target.closed_of_string rfl).append hcall)
    · exact ho.map fun o' ho ↦ (ho.append hcolon).append hcall
  · refine ho.bind fun o' ho ↦ applyMethod_closed m o.pos ho fun x hx ↦ ?_
    exact hts _ (List.of_mem_zip hx).2

theorem closed_globalFunction {n : Lexeme} (h : Closed n.spelled) :
    Closed ((globalFunctions.lookup n).getD n.spelled) := by
  rcases ho : globalFunctions.lookup n with _ | o
  · exact h
  · exact closed_of_lookup (by decide) ho

/-- The pieces of a template, and the empty literal where there are none. -/
theorem closed_pieces {ps : List Target.Piece} (h : ∀ p ∈ ps, Closed p.print) :
    ClosedAt (.concat (orEmpty ps)) := by
  rw [ClosedAt, Target.Expr.print]
  refine Target.closed_groupedSum ?_
  rw [printAll_eq_map]
  rcases ps with _ | ⟨p, ps⟩
  · exact List.forall_mem_singleton.mpr (Target.closed_quote [])
  · exact List.forall_mem_map.mpr h

theorem closed_chunkPieces (chunk : Text) : ∀ p ∈ chunkPieces chunk, Closed p.print := by
  rw [chunkPieces]
  split
  · exact List.forall_mem_nil _
  · have hall := Target.closed_ofText chunk
    rw [printAll_eq_map] at hall
    exact List.forall_mem_map.mp hall

mutual

/-- **What an expression becomes is closed**, if its words have no parentheses and quotes.  By
induction on the tree, together with the lists inside it. -/
theorem lower_closed (e : Expr) (h : Worded e) : Yields (lower e) ClosedAt := by
  cases e with
  | number p n | name p n => exact .ok (closed_of_any (Bool.or_eq_false_iff.mp h).1)
  | boolean p b => exact .ok (by cases b <;> exact Target.closed_of_string rfl)
  | null p | this p => exact .ok (Target.closed_of_string rfl)
  | foreign f => exact .error
  | string p v => exact .ok (Target.closed_groupedSum (Target.closed_ofText v))
  | template p cs hs =>
    rw [Worded, Expr.has_template, Bool.or_eq_false_iff] at h
    rw [lower]
    exact (lowerTemplate_closed cs hs h.2).map fun ps ↦ closed_pieces
  | binary p op l r =>
    rw [Worded, Expr.has_binary, Bool.or_eq_false_iff, Bool.or_eq_false_iff] at h
    rw [lower]
    rcases ho : binaryOperators.lookup op with _ | o
    · exact .error
    have hop := closed_of_lookup (by decide) ho
    exact (lower_closed l h.2.1).both (lower_closed r h.2.2) fun _ _ ↦ closed_binary hop
  | unary p op e =>
    rw [Worded, Expr.has_unary, Bool.or_eq_false_iff] at h
    rw [lower]
    rcases ho : unaryOperators.lookup op with _ | o
    · exact .error
    have hop := closed_of_lookup (by decide) ho
    refine (lower_closed e h.2).map fun e' he ↦ hop.append ?_
    rw [unaryOperand]
    split
    · exact he.parentheses
    · exact he
  | update p op side e =>
    rw [Worded, Expr.has_update, Bool.or_eq_false_iff] at h
    have hop := closed_of_any h.1
    have he := lower_closed e h.2
    rcases side with _ | _ <;> rw [lower]
    · exact he.map fun e' he ↦ hop.append he
    · exact he.map fun e' he ↦ he.append hop
  | assign p op t v =>
    rw [Worded, Expr.has_assign, Bool.or_eq_false_iff, Bool.or_eq_false_iff] at h
    rw [lower]
    rcases ho : assignmentOperators.lookup op with _ | o
    · exact .error
    have hop := closed_of_lookup (by decide) ho
    exact (lower_closed t h.2.1).both (lower_closed v h.2.2) fun _ _ ↦ closed_assign hop
  | conditional p t y n =>
    rw [Worded, Expr.has_conditional, Bool.or_eq_false_iff, Bool.or_eq_false_iff,
      Bool.or_eq_false_iff] at h
    rw [lower]
    -- A choice is a call of a function with three arguments.
    refine (lower_closed t h.2.1).bind fun t' ht ↦ ?_
    refine (lower_closed y h.2.2.1).both (lower_closed n h.2.2.2) fun y' n' hy hn ↦ ?_
    refine Target.closed_callText (Target.closed_of_string rfl) ?_
    simp only [List.forall_mem_cons]
    exact ⟨ht, hy, hn, List.forall_mem_nil _⟩
  | object p ps =>
    rw [Worded, Expr.has_object, Bool.or_eq_false_iff] at h
    rw [lower]
    refine (lowerProperties_closed ps h.2).map fun es hes ↦ ?_
    rw [ClosedAt, print_hash]
    rcases hentries : Target.Expr.printEntries es with _ | ⟨x, xs⟩
    · exact Target.closed_of_string rfl
    · exact Target.closed_braced (hentries ▸ hes)
  | array p es =>
    rw [Worded, Expr.has_array, Bool.or_eq_false_iff] at h
    rw [lower]
    refine (lowerAll_closed es h.2).map fun ts hts ↦ ?_
    exact Target.closed_braced (ClosedAt.printAll hts)
  | member p o n q =>
    rw [Worded, Expr.has_member, Bool.or_eq_false_iff] at h
    exact member_closed p q (closed_of_any h.1) (lower_closed o h.2)
  | index p o k =>
    rw [Worded, Expr.has_index, Bool.or_eq_false_iff, Bool.or_eq_false_iff] at h
    have hopen : Closed "[" := Target.closed_of_string rfl
    have hclose : Closed "]" := Target.closed_of_string rfl
    rw [lower]
    refine (lower_closed o h.2.1).both (lower_closed k h.2.2) fun o' k' ho hk ↦ ?_
    exact ((ho.append hopen).append hk).append hclose
  | call p f as =>
    rw [Worded, Expr.has_call, Bool.or_eq_false_iff, Bool.or_eq_false_iff] at h
    have has := lowerAll_closed as h.2.2
    cases f with
    | member q o n r =>
      have hmember := Bool.or_eq_false_iff.mp h.2.1
      exact memberCall_closed p q r (closed_of_any hmember.1) (lower_closed o hmember.2) has
    | name q n =>
      have hn := closed_of_any (Bool.or_eq_false_iff.mp h.2.1).1
      rw [lower]
      exact has.map fun ts hts ↦ closed_apply (closed_globalFunction hn) hts
    | _ =>
      have hf := lower_closed _ h.2.1
      rw [lower_call (by simp) (by simp)]
      refine has.bind fun ts hts ↦ hf.map fun f' hf ↦ ?_
      exact Target.closed_callText hf (ClosedAt.printAll hts)
  | new p f as =>
    rw [Worded, Expr.has_new, Bool.or_eq_false_iff, Bool.or_eq_false_iff] at h
    rw [lower]
    refine (lowerAll_closed as h.2.2).bind fun ts hts ↦ (lower_closed f h.2.1).map fun f' hf ↦ ?_
    have hparentheses : Closed "():" := .group .nil (.cons (by decide) .nil)
    have hconstructor : Closed Target.constructor := Target.closed_of_string rfl
    exact (hf.append hparentheses).append
      (Target.closed_callText hconstructor (ClosedAt.printAll hts))

theorem lowerAll_closed (es : List Expr) (h : AllWorded es) :
    Yields (lowerAll es) fun ts ↦ ∀ t ∈ ts, ClosedAt t := by
  cases es with
  | nil => exact .ok (List.forall_mem_nil _)
  | cons e es =>
    rw [allWorded_cons] at h
    rw [lowerAll]
    exact (lower_closed e h.1).both (lowerAll_closed es h.2) fun t ts ht hts ↦
      List.forall_mem_cons.mpr ⟨ht, hts⟩

theorem lowerProperties_closed (ps : List (Lexeme × Expr)) (h : AllWorded (ps.map Prod.snd)) :
    Yields (lowerProperties ps) fun es ↦ ∀ x ∈ Target.Expr.printEntries es, Closed x := by
  cases ps with
  | nil => exact .ok (List.forall_mem_nil _)
  | cons x ps =>
    rw [List.map_cons, allWorded_cons] at h
    have harrow : Closed " => " := Target.closed_of_string rfl
    rw [lowerProperties]
    refine (lower_closed x.2 h.1).both (lowerProperties_closed ps h.2) fun v es hv hes ↦ ?_
    exact List.forall_mem_cons.mpr ⟨((Target.closed_quote _).append harrow).append hv, hes⟩

theorem lowerTemplate_closed (cs : List Text) (hs : List Expr) (h : AllWorded hs) :
    Yields (lowerTemplate cs hs) fun ps ↦ ∀ p ∈ ps, Closed p.print := by
  cases hs with
  | nil =>
    rw [lowerTemplate]
    refine .ok fun p hp ↦ ?_
    obtain ⟨c, -, hp⟩ := List.mem_flatMap.mp hp
    exact closed_chunkPieces c p hp
  | cons e hs =>
    rw [allWorded_cons] at h
    cases cs with
    | nil =>
      rw [lowerTemplate]
      exact .ok (List.forall_mem_nil _)
    | cons c cs =>
      rw [lowerTemplate]
      refine (lower_closed e h.1).both (lowerTemplate_closed cs hs h.2) fun e' ps he hps ↦ ?_
      refine List.forall_mem_append.mpr ⟨closed_chunkPieces c, List.forall_mem_cons.mpr ⟨?_, hps⟩⟩
      exact Target.closed_callText (Target.closed_of_string rfl) (List.forall_mem_singleton.mpr he)

end

/-- The words of an expression that was parsed have no parentheses and quotes. -/
theorem worded_of_parseExpr {source : Text} {p : Pos} {e : Expr}
    (h : Grammar.parseExpr source p = .ok e) : Worded e :=
  Grammar.spared_holeAt Grammar.spares_misworded (fun _ _ _ ↦ wordy_of_tokenize) _ h

/-- **In the code for an expression that was parsed, everything is closed.** -/
theorem closed_of_parseExpr {source : Text} {p : Pos} {e : Expr}
    (h : Grammar.parseExpr source p = .ok e) : Yields (lower e) ClosedAt :=
  lower_closed e (worded_of_parseExpr h)

end Lowering

end Advplc

import Advplc.Proofs.Grammar.Balance
import Advplc.Proofs.Token.Coverage

/-!
# Nothing of an expression is lost

Tokens and trees are compared by their *items*: the names, numerals, operators and reserved words
that carry the meaning, in the order in which they are written.  Punctuation is no item, a string is
the one with its escapes replaced, and a template is one item whatever its holes are.  A walk
through the tree of an expression, from left to right, meets the items of the tokens that it was
read from (`Placed.bears`, `expr_keeps_items`).

A tree does not say whether a property of an object was written as a name on its own.  What gives it
away is where its value stands: directly behind the opening brace or a comma.  So the walk is told
which positions those are (`standsAlone`), and since no two tokens of a source stand at the same
position, it is told the truth.
-/

set_option autoImplicit false

namespace Advplc

/-! ## Items -/

/-- What is kept of a token or of a node of a tree. -/
inductive Item where
  | text (l : Lexeme)
  | template
deriving DecidableEq

/-- The item with `null` for `undefined`, of which a tree keeps no more than that it is one of
them. -/
def Item.canonical : Item → Item
  | .text (.text t) => .text (.text (if t = "undefined" then "null" else t))
  | i => i

/-- The marks that hold things together or keep them apart. -/
def punctuation : List Mark :=
  [.openParen, .closeParen, .openBrace, .closeBrace, .openBracket, .closeBracket, .comma, .dot,
   .colon, .question]

/-- The kinds of tokens whose items are not just their lexemes. -/
def decoded : List Kind := .string :: .template :: punctuation.map .mark

/-- The items of a token. -/
def Token.items (t : Token) : List Item :=
  match t.kind, t.lexeme with
  | .string, .text w => [.text (.text (Text.unescape (Text.trimEnds 1 w)))]
  | .template, _ => [.template]
  | k, l => if k ∈ punctuation.map .mark then [] else [.text l]

namespace Script

/-- Whether the value of a property with the key `k` is the name `k` at a position that is `alone`:
then key and value were written as one name. -/
def Expr.abbreviates (alone : Pos → Bool) (k : Lexeme) : Expr → Bool
  | .name (some p) n => n = k ∧ alone p
  | _ => false

mutual

/-- The items that a walk through an expression meets, from left to right. -/
def Expr.walk (alone : Pos → Bool) : Expr → List Item
  | .number _ numeral => [.text numeral]
  | .string _ value => [.text value]
  | .template _ _ _ => [.template]
  | .boolean _ value => [.text (if value then "true" else "false")]
  | .null _ => [.text "null"]
  | .name _ n => [.text n]
  | .this _ => [.text "this"]
  | .binary _ op left right => walk alone left ++ .text op :: walk alone right
  | .unary _ op operand => .text op :: walk alone operand
  | .update _ op .before operand => .text op :: walk alone operand
  | .update _ op .after operand => walk alone operand ++ [.text op]
  | .assign _ op target value => walk alone target ++ .text op :: walk alone value
  | .conditional _ test yes no => walk alone test ++ (walk alone yes ++ walk alone no)
  | .object _ properties => walkProperties alone properties
  | .array _ elements => walkAll alone elements
  | .member _ e n _ => walk alone e ++ [.text n]
  | .index _ e key => walk alone e ++ walk alone key
  | .call _ callee args => walk alone callee ++ walkAll alone args
  | .new _ callee args => .text "new" :: (walk alone callee ++ walkAll alone args)
  | .foreign _ => []

/-- The items of expressions one behind another. -/
def Expr.walkAll (alone : Pos → Bool) : List Expr → List Item
  | [] => []
  | e :: es => walk alone e ++ walkAll alone es

/-- The items of the properties of an object: each key before its value, and only the key where one
name is both. -/
def Expr.walkProperties (alone : Pos → Bool) : List (Lexeme × Expr) → List Item
  | [] => []
  | (k, e) :: ps =>
    .text k :: ((if e.abbreviates alone k then [] else walk alone e) ++ walkProperties alone ps)

end

end Script

namespace Grammar

open Script

/-- The items of what is written. -/
def Phrase.walk (alone : Pos → Bool) : Phrase → List Item
  | .expr _ e | .callee e => e.walk alone
  | .arguments es | .items es | .elements es => Expr.walkAll alone es
  | .property k e => Expr.walkProperties alone [(k, e)]
  | .properties ps => Expr.walkProperties alone ps

/-! ## Names on their own -/

/-- Whether a property may begin behind a token of the given kind. -/
def opensProperty (before : Option Kind) : Bool :=
  before = some (.mark .openBrace) ∨ before = some (.mark .comma)

/-- Whether the token at a position stands directly behind an opening brace or a comma, in tokens
behind one of kind `before`. -/
def standsAlone (before : Option Kind) : List Token → Pos → Bool
  | [], _ => false
  | t :: ts, p => if t.pos = p then opensProperty before else standsAlone (some t.kind) ts p

/-- Behind a token of kind `before`, `alone` holds of the tokens that stand directly behind an
opening brace or a comma. -/
def Tells (alone : Pos → Bool) : Option Kind → List Token → Prop
  | _, [] => True
  | before, t :: ts => alone t.pos = opensProperty before ∧ Tells alone (some t.kind) ts

section Telling

variable {alone : Pos → Bool} {before : Option Kind} {ts us : List Token}

theorem Tells.left (h : Tells alone before (ts ++ us)) : Tells alone before ts := by
  induction ts generalizing before with
  | nil => trivial
  | cons t ts ih => exact ⟨h.1, ih h.2⟩

theorem Tells.right (h : Tells alone before (ts ++ us)) : ∃ k, Tells alone k us := by
  induction ts generalizing before with
  | nil => exact ⟨before, h⟩
  | cons t ts ih => exact ih h.2

theorem Tells.congr {alone' : Pos → Bool} (h : Tells alone before ts)
    (heq : ∀ t ∈ ts, alone' t.pos = alone t.pos) : Tells alone' before ts := by
  induction ts generalizing before with
  | nil => trivial
  | cons t ts ih =>
    rw [List.forall_mem_cons] at heq
    exact ⟨heq.1.trans h.1, ih h.2 heq.2⟩

/-- Where no two tokens stand at the same position, `standsAlone` tells which stand alone. -/
theorem tells_standsAlone (h : (ts.map Token.pos).Nodup) :
    Tells (standsAlone before ts) before ts := by
  induction ts generalizing before with
  | nil => trivial
  | cons t ts ih =>
    rw [List.map_cons, List.nodup_cons] at h
    refine ⟨if_pos rfl, (ih h.2).congr fun u hu ↦ if_neg fun heq ↦ ?_⟩
    exact h.1 (List.mem_map.mpr ⟨u, hu, heq.symm⟩)

/-- An expression does not begin with a name on its own, unless a property may begin before it. -/
theorem Tells.not_alone {p : Pos} (h : Tells alone before ts)
    (hbefore : opensProperty before = false) (hstart : startOf ts = some p) :
    alone p = false := by
  induction ts generalizing before with
  | nil => cases hstart
  | cons t ts ih =>
    by_cases ht : t.kind = .mark .openParen
    · rw [startOf_cons_of_eq ht] at hstart
      exact ih h.2 (by rw [ht]; rfl) hstart
    · rw [startOf_cons_of_ne ht] at hstart
      cases hstart
      exact h.1.trans hbefore

end Telling

/-! ## Tokens of a source -/

/-- Whether a token is spelled like the reserved word that it is, and has the form of a name only if
its item is its lexeme. -/
structure Token.Sound (t : Token) : Prop where
  word : ∀ k, t.kind = .keyword k → t.lexeme = .text k.spelling
  name : Token.NamesProperty t → t.kind ∉ decoded

section Tokens

variable {t : Token}

theorem items_of_text (h : t.kind ∉ decoded) : t.items = [.text t.lexeme] := by
  simp only [decoded, List.mem_cons, not_or] at h
  rw [Token.items]
  split
  · exact absurd ‹_› h.1
  · exact absurd ‹_› h.2.1
  · exact if_neg h.2.2

theorem items_of_punctuation {m : Mark} (h : t.kind = .mark m) (hm : m ∈ punctuation) :
    t.items = [] := by
  rw [Token.items, h]
  exact if_pos (List.mem_map_of_mem hm)

/-- **What a key is written with has the key for its item.** -/
theorem WritesKey.items_eq {key : Lexeme} (h : WritesKey t key) (ht : Token.Sound t) :
    t.items = [.text key] := by
  cases h with
  | string w hkind hw => rw [Token.items, hkind, hw]
  | number hkind => exact items_of_text (by rw [hkind]; decide)
  | name hname => exact items_of_text (ht.name hname)

end Tokens

/-- No name begins like a token whose items are not just its lexeme. -/
theorem nameless_decoded : ∀ k ∈ decoded, ∀ c, Kind.starts (some k) c = true →
    nameStartRanges.has c.val = false := by
  have hmarks : ∀ m ∈ punctuation, ∀ c ∈ m.spelling.head?, nameStartRanges.has c.val = false := by
    decide +kernel
  intro k hk c hc
  simp only [decoded, List.mem_cons, List.mem_map] at hk
  obtain rfl | rfl | ⟨m, hm, rfl⟩ := hk
  · obtain rfl | rfl := of_decide_eq_true hc <;> decide +kernel
  · obtain rfl := of_decide_eq_true hc
    decide +kernel
  · exact hmarks m hm c (of_decide_eq_true hc)

theorem sound_of_tokenize {source : Text} {start : Pos} {ts : List Token}
    (h : tokenize source start = .ok ts) : ∀ t ∈ ts, Token.Sound t := by
  have hscans := (tokenize_eq_ok_iff start).mpr ⟨ts, h, rfl⟩
  refine fun t ht ↦ ⟨fun k hk ↦ ?_, ?_⟩
  · exact hscans.spelling t.form (List.mem_map_of_mem ht) _ (congrArg Kind.spelling? hk)
  · rintro (hname | ⟨w, hw, hname⟩) hkind
    · rw [hname] at hkind
      exact absurd hkind (by decide)
    · rw [hscans.isName_eq_false nameless_decoded t.form (List.mem_map_of_mem ht) hkind w
        hw] at hname
      cases hname

/-! ## Walking through what was read -/

/-- Behind tokens of any kind in `before`, if `alone` tells which names stand alone, the items of
the tokens are the given ones, up to the difference between `null` and `undefined`. -/
def Bears (alone : Pos → Bool) (before : Option Kind → Prop) (is : List Item) (ts : List Token) :
    Prop :=
  ∀ k, before k → Tells alone k ts → (∀ t ∈ ts, Token.Sound t) →
    (ts.flatMap Token.items).map Item.canonical = is.map Item.canonical

/-- Behind which kinds of tokens a phrase can be told apart: properties only directly behind an
opening brace or a comma. -/
def Phrase.before : Phrase → Option Kind → Prop
  | .property _ _ | .properties _ => fun k ↦ opensProperty k = true
  | _ => fun _ ↦ True

section Bearing

variable {alone : Pos → Bool} {P Q : Option Kind → Prop} {is js : List Item} {ts us : List Token}
  {t : Token}

theorem Bears.nil : Bears alone P [] [] := fun _ _ _ _ ↦ rfl

theorem Bears.append (hts : Bears alone P is ts) (hus : Bears alone (fun _ ↦ True) js us) :
    Bears alone P (is ++ js) (ts ++ us) := by
  intro k hk htells hsound
  rw [List.forall_mem_append] at hsound
  obtain ⟨k', htells'⟩ := htells.right
  rw [List.flatMap_append, List.map_append, List.map_append, hts k hk htells.left hsound.1,
    hus k' trivial htells' hsound.2]

/-- One token with the item `i`. -/
theorem Bears.one {i : Item} (ht : Token.Sound t → t.items.map Item.canonical = [i.canonical]) :
    Bears alone P [i] [t] := by
  intro k _ _ hsound
  rw [List.flatMap_singleton, ht (hsound t List.mem_cons_self)]
  rfl

theorem Bears.text (ht : t.kind ∉ decoded) : Bears alone P [.text t.lexeme] [t] :=
  .one fun _ ↦ by rw [items_of_text ht]; rfl

theorem Bears.mark {m : Mark} (ht : t.kind = .mark m) (hm : m ∈ punctuation) :
    Bears alone P [] [t] := by
  intro k _ _ _
  rw [List.flatMap_singleton, items_of_punctuation ht hm]

/-- A mark of punctuation and what stands behind it. -/
theorem Bears.behind {m : Mark} (hts : Bears alone Q is ts) (ht : t.kind = .mark m)
    (hm : m ∈ punctuation) (hQ : Q (some (.mark m))) : Bears alone P is (t :: ts) := by
  intro k _ htells hsound
  rw [List.forall_mem_cons] at hsound
  rw [List.flatMap_cons, items_of_punctuation ht hm, List.nil_append]
  exact hts _ (ht ▸ hQ) htells.2 hsound.2

/-- What stands in a pair of marks. -/
theorem Bears.between {l r : Token} {m n : Mark} (hts : Bears alone Q is ts)
    (hl : l.kind = .mark m) (hm : m ∈ punctuation) (hr : r.kind = .mark n) (hn : n ∈ punctuation)
    (hQ : Q (some (.mark m))) : Bears alone P is (l :: (ts ++ [r])) := by
  have h := hts.append (Bears.mark hr hn)
  rw [List.append_nil] at h
  exact h.behind hl hm hQ

end Bearing

section Walking

variable {templates : Token → List Text → List Expr → Prop} {alone : Pos → Bool} {ts : List Token}

/-- The walk through properties goes through one after another. -/
theorem walkProperties_cons (k : Lexeme) (e : Expr) (ps : List (Lexeme × Expr)) :
    Expr.walkProperties alone ((k, e) :: ps) =
      Phrase.walk alone (.property k e) ++ Expr.walkProperties alone ps := by
  simp only [Phrase.walk, Expr.walkProperties, List.append_nil, List.cons_append]

/-- A value that is written behind a colon does not abbreviate anything. -/
theorem Placed.not_abbreviates {e : Expr} (h : Placed templates (.expr .assignment e) ts)
    (htells : Tells alone (some (.mark .colon)) ts) (k : Lexeme) :
    e.abbreviates alone k = false := by
  obtain ⟨p, hp, hstart⟩ := h.starts rfl
  cases e with
  | name q n =>
    obtain rfl : q = some p := hp
    rw [Expr.abbreviates, htells.not_alone rfl hstart]
    simp
  | _ => rfl

/-- **The walk through what is written meets the items of the tokens.** -/
theorem Placed.bears {phrase : Phrase} (h : Placed templates phrase ts) :
    Bears alone phrase.before (phrase.walk alone) ts := by
  have hkind : ∀ {t : Token} {k : Kind}, t.kind = k → k ∉ decoded →
      Bears alone (fun _ ↦ True) [.text t.lexeme] [t] := fun h hk ↦ .text (h ▸ hk)
  have hop : ∀ {t : Token} {ks : List Kind}, t.kind ∈ ks → (∀ k ∈ ks, k ∉ decoded) →
      Bears alone (fun _ ↦ True) [.text t.lexeme] [t] := fun h hks ↦ .text (hks _ h)
  have hname : ∀ {t : Token}, Token.NamesProperty t →
      Bears alone (fun _ ↦ True) [.text t.lexeme] [t] := fun h ↦
    .one fun ht ↦ by rw [items_of_text (ht.name h)]; rfl
  have hword : ∀ {t : Token} {w : Keyword}, t.kind = .keyword w → .keyword w ∉ decoded →
      Bears alone (fun _ ↦ True) [.text w.spelling] [t] := fun h hw ↦
    .one fun ht ↦ by rw [items_of_text (h ▸ hw), ht.word _ h]; rfl
  have hlevels : ∀ ops ∈ binaryLevels, ∀ k ∈ ops, k ∉ decoded := by decide
  induction h with
  | number t ht => exact hkind ht (by decide)
  | string t w ht hw => exact .one fun _ ↦ by rw [Token.items, ht, hw]; rfl
  | template t w cs hs ht hw _ => exact .one fun _ ↦ by rw [Token.items, ht, hw]; rfl
  | trueWord t ht hw | falseWord t ht hw =>
    exact .one fun _ ↦ by rw [items_of_text (by rw [ht]; decide), hw]; rfl
  | nullWord t ht hw =>
    refine .one fun _ ↦ ?_
    rw [items_of_text (by rw [ht]; decide)]
    obtain hw | hw := hw <;> rw [hw] <;> rfl
  | name t ht hw | calleeName t ht => exact hkind ht (by decide)
  | thisWord t ht => exact hword ht (by decide)
  | object l r hl hr _ ih => exact (ih.between hl (by decide) hr (by decide) rfl :)
  | array l r hl hr _ ih => exact (ih.between hl (by decide) hr (by decide) trivial :)
  | parentheses l r hl hr _ ih => exact (ih.between hl (by decide) hr (by decide) trivial :)
  | new n l r hn hl hr _ _ ihe ihes =>
    have hcall := ihe.append (ihes.between hl (by decide) hr (by decide) trivial)
    exact ((hword hn (by decide)).append hcall :)
  | newBare n hn _ ih =>
    rw [← List.append_nil (Phrase.walk _ _)] at ih
    exact ((hword hn (by decide)).append ih :)
  | member d n hd hn _ _ ih | calleeMember d n hd hn _ _ ih =>
    exact (ih.append ((hname hn).behind hd (by decide) trivial) :)
  | index l r hl hr _ _ _ ihe ihk =>
    exact (ihe.append (ihk.between hl (by decide) hr (by decide) trivial) :)
  | call l r hl hr _ _ _ ihe ihes =>
    exact (ihe.append (ihes.between hl (by decide) hr (by decide) trivial) :)
  | updateAfter op hmem _ _ ih => exact (ih.append (hop hmem (by decide)) :)
  | updateBefore op hmem _ ih | unary op hmem _ ih => exact ((hop hmem (by decide)).append ih :)
  | binary op hsuffix hmem _ _ _ ihl ihr =>
    exact (ihl.append ((hop hmem (hlevels _ (hsuffix.subset List.mem_cons_self))).append ihr) :)
  | conditional q c hq hc _ _ _ _ iht ihy ihn =>
    exact (iht.append ((ihy.append (ihn.behind hc (by decide) trivial)).behind hq (by decide)
      trivial) :)
  | assign op hmem htarget _ _ _ ihl ihv =>
    exact (ihl.append ((hop hmem (by decide)).append ihv) :)
  | noArguments | noElements | noProperties => exact .nil
  | moreItems c hc _ _ ih ihs | moreElements c hc _ _ ih ihs =>
    exact (ih.append (ihs.behind hc (by decide) trivial) :)
  | lastItem _ ih | lastElement _ ih =>
    rw [← List.append_nil (Phrase.walk _ _)] at ih
    exact ih
  | moreProperties c hc _ _ ih ihs =>
    rw [Phrase.walk, walkProperties_cons]
    exact (ih.append (ihs.behind hc (by decide) rfl) :)
  | keyed k c hc hk he ih =>
    intro before _ htells hsound
    rw [List.forall_mem_cons, List.forall_mem_cons] at hsound
    have htells' := htells.2.2
    rw [hc] at htells'
    have hvalue := ih _ trivial htells' hsound.2.2
    rw [Phrase.walk, Expr.walkProperties, he.not_abbreviates htells', List.flatMap_cons,
      List.flatMap_cons, hk.items_eq hsound.1, items_of_punctuation hc (by decide)]
    simpa [Phrase.walk, Expr.walkProperties] using hvalue
  | shorthand t ht =>
    intro before hopens htells _
    have halone : alone t.pos = true := htells.1.trans hopens
    rw [List.flatMap_singleton, items_of_text (by rw [ht]; decide)]
    simp [Phrase.walk, Expr.walkProperties, Expr.abbreviates, halone]
  | toAssignment _ ih | toConditional _ ih | toBinary _ _ ih | toUnary _ ih | toSuffixed _ ih
  | toIndexed _ ih | toChained _ ih | someArguments _ ih | lastProperty _ ih => exact ih

end Walking

/-! ## Expressions of a source -/

/-- **The parser of expressions keeps every operand and every operator.**  In the tokens of a
source, wherever it succeeds, the walk through the expression meets the items of the tokens it has
read. -/
theorem expr_keeps_items {source : Text} {start : Pos} {ts : List Token}
    (hts : tokenize source start = .ok ts) (index : Nat) (finish : Pos) :
    match Cursor.run ⟨ts, index, finish⟩ expr with
    | (.ok e, c) => index ≤ c.index ∧
        (((ts.drop index).take (c.index - index)).flatMap Token.items).map Item.canonical =
          (e.walk (standsAlone none ts)).map Item.canonical
    | (.error _, _) => True := by
  rw [Cursor.run]
  split
  · rename_i e c hrun
    split at hrun
    · rename_i rest hexpr
      cases hrun
      obtain ⟨used, hused, hplaced⟩ := places_expr (readsOnly_filled _).readsAt hexpr
      have hdrop : ts.drop index = used ++ rest := hused
      obtain ⟨p, -, hstart⟩ := hplaced.starts rfl
      have hpos : 0 < used.length := List.length_pos_iff.mpr (by rintro rfl; cases hstart)
      have hlength := congrArg List.length hdrop
      rw [List.length_drop, List.length_append] at hlength
      have hstretch : ts.length - rest.length - index = used.length := by omega
      -- What `standsAlone` tells about all tokens it tells about those at the cursor.
      have htells : Tells (standsAlone none ts) none (ts.take index ++ ts.drop index) := by
        rw [List.take_append_drop]
        exact tells_standsAlone (nodup_of_tokenize hts)
      obtain ⟨before, htells⟩ := htells.right
      rw [hdrop] at htells
      have hindex : index ≤ ts.length - rest.length := by omega
      refine ⟨hindex, ?_⟩
      show (((ts.drop index).take (ts.length - rest.length - index)).flatMap _).map _ = _
      rw [hstretch, hdrop, List.take_left]
      refine hplaced.bears before trivial htells.left fun t ht ↦ sound_of_tokenize hts t ?_
      exact List.mem_of_mem_drop (hdrop ▸ List.mem_append_left rest ht)
    · cases hrun
  · trivial

/-- In what follows `x =`, the first `a` is key and
value, the second one a value, and `if` a name. -/
theorem expr_keeps_items_sample :
    let source : Text := "x = \x7ba, 'b': a\x7d ? undefined : new y.if(-z);"
    let ts : List Token :=
      [⟨.identifier, "x", ⟨1, 1⟩⟩, ⟨.mark .assign, "=", ⟨1, 3⟩⟩,
       ⟨.mark .openBrace, "\x7b", ⟨1, 5⟩⟩, ⟨.identifier, "a", ⟨1, 6⟩⟩, ⟨.mark .comma, ",", ⟨1, 7⟩⟩,
       ⟨.string, "'b'", ⟨1, 9⟩⟩, ⟨.mark .colon, ":", ⟨1, 12⟩⟩, ⟨.identifier, "a", ⟨1, 14⟩⟩,
       ⟨.mark .closeBrace, "\x7d", ⟨1, 15⟩⟩, ⟨.mark .question, "?", ⟨1, 17⟩⟩,
       ⟨.identifier, "undefined", ⟨1, 19⟩⟩, ⟨.mark .colon, ":", ⟨1, 29⟩⟩,
       ⟨.keyword .newWord, "new", ⟨1, 31⟩⟩, ⟨.identifier, "y", ⟨1, 35⟩⟩, ⟨.mark .dot, ".", ⟨1, 36⟩⟩,
       ⟨.keyword .ifWord, "if", ⟨1, 37⟩⟩, ⟨.mark .openParen, "(", ⟨1, 39⟩⟩,
       ⟨.mark .minus, "-", ⟨1, 40⟩⟩, ⟨.identifier, "z", ⟨1, 41⟩⟩, ⟨.mark .closeParen, ")", ⟨1, 42⟩⟩,
       ⟨.mark .semicolon, ";", ⟨1, 43⟩⟩]
    tokenize source Pos.origin = .ok ts ∧
      ∃ e c, Cursor.run ⟨ts, 2, Pos.origin⟩ expr = (.ok e, c) ∧ c.index = 20 ∧
        (((ts.drop 2).take (c.index - 2)).flatMap Token.items).map Item.canonical =
          (e.walk (standsAlone none ts)).map Item.canonical ∧
        e.walk (standsAlone none ts) = [.text "a", .text "b", .text "a", .text "null", .text "new",
          .text "y", .text "if", .text "-", .text "z"] := by
  intro source ts
  have hts : tokenize source Pos.origin = .ok ts := tokenize_of_toOption (by decide +kernel)
  have hkeeps := expr_keeps_items hts 2 Pos.origin
  have hrun : Cursor.run ⟨ts, 2, Pos.origin⟩ expr = (.ok _, _) := rfl
  rw [hrun] at hkeeps
  exact ⟨hts, _, _, hrun, rfl, hkeeps.2, rfl⟩

end Grammar

end Advplc

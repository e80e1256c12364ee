import Advplc.Proofs.Grammar.Tracking.Basic

/-!
# The rules for expressions fail no later than they must

Each rule tracks the language of the expressions that can be written in its slot.  A rule that reads
one part after another tracks a product, and what remains is that the product is written in the
slot.  Where the rule goes on with what it has read already, as the suffixes and the chains of
binary operators do, it tracks what completes that to a word.

The rules for inner expressions are only used behind a token, so the recursion closes by induction
on the length of the stream (`tracks_expr`).
-/

set_option autoImplicit false

namespace Advplc.Grammar

open Script Parse

variable {templates : Text → List Text → List Expr → Prop} {env : Context} {ts : List Token}

/-! ## Languages -/

variable (templates) in
/-- What is written in a slot. -/
abbrev expressions (slot : Slot) : Language Token :=
  phrases fun e ↦ Written templates (.expr slot e)

variable (templates) in
/-- What is written between the parentheses of a call. -/
abbrev argumentLists : Language Token := phrases fun es ↦ Written templates (.arguments es)

variable (templates) in
/-- The callees of `new`. -/
abbrev callees : Language Token := phrases fun e ↦ Written templates (.callee e)

variable (templates) in
/-- The properties of an object. -/
abbrev properties : Language Token :=
  phrases fun x : Lexeme × Expr ↦ Written templates (.property x.1 x.2)

/-- A name is the shortest expression there is; it shows that a slot can be filled. -/
theorem written_x (templates : Text → List Text → List Expr → Prop) :
    Written templates (.expr .primary (.name none "x")) [identifierToken "x"] :=
  .name none (identifierToken "x") rfl (by decide)

/-- Where an expression may be written, there is something that may. -/
theorem viable_x {L : Language Token} (h : [identifierToken "x"] ∈ L) : Viable L [] :=
  ⟨[identifierToken "x"], h, by simpa using scanned_identifierToken⟩

instance : Speakable (expressions templates .indexed) :=
  ⟨viable_x ⟨_, .toIndexed (.toChained (written_x templates))⟩⟩

instance : Speakable (expressions templates .assignment) :=
  ⟨viable_x ⟨_, .ofBinary (.climb List.suffix_rfl (written_x templates).ofPrimary)⟩⟩

instance : Speakable (argumentLists templates) := ⟨.of_mem ⟨[], .noArguments⟩⟩

instance : Speakable (callees templates) :=
  ⟨viable_x ⟨_, .calleeName none (identifierToken "x") rfl⟩⟩

/-- The tokens that write the key of a property. -/
abbrev keys : Language Token := single fun t ↦ ∃ key, WritesKey t key

instance : Speakable keys :=
  speakable_single scanned_identifierToken ⟨_, .name (.inl rfl) (by decide)⟩

instance : Speakable (properties templates) :=
  ⟨viable_x ⟨(_, _), .shorthand none (identifierToken "x") rfl⟩⟩

/-! ## Names and literals -/

/-- The rule looks at the text of a token, and such a token may come without text only from
outside. -/
theorem tracks_propertyName : Tracks env propertyName (single Token.NamesProperty) ts := by
  have hidentifier : Tracks env (do
      let t ← expect .identifier
      return (t.lexeme, some t.pos) : Parse (Lexeme × Option Pos))
      (single Token.NamesProperty) ts := by
    refine (tracks_expect.map _).mono ?_
    rintro _ ⟨t, ht, rfl⟩
    exact ⟨t, .inl ht, rfl⟩
  refine tracks_peekToken ?_
  cases ts with
  | nil => exact hidentifier
  | cons t rest =>
    simp only [List.head?_cons]
    split
    · cases hw : t.lexeme with
      | text w =>
        refine tracks_textFor ?_
        split
        · rename_i hname
          rw [← mul_one (single _)]
          exact tracks_next (.inr ⟨w, hw, hname⟩) (tracks_pure rfl)
        · exact hidentifier
      | number n => exact .of_lexeme List.mem_cons_self (by simp [hw]) fun _ _ h ↦ by cases h
      | absent => exact .of_lexeme List.mem_cons_self (by simp [hw]) fun _ _ h ↦ by cases h
    · exact hidentifier

/-- A token of which a text is made. -/
def OfText (k : Kind) (t : Token) : Prop := t.kind = k ∧ ∃ w, t.lexeme = .text w

instance : Speakable (single (OfText .string)) := speakable_single scanned_emptyString ⟨rfl, _, rfl⟩

/-- A token whose text is used as soon as it is read. -/
theorem tracks_next_text {α : Type} {f : Token → Parse α} {k : Kind} {L : Language Token}
    (hts : nextKind ts = k) (hk : k ≠ .endOfInput)
    (hfail : ∀ t rest a rest', (∀ w, t.lexeme ≠ .text w) → f t env rest ≠ .ok a rest')
    (h : ∀ t rest w, t.kind = k → t.lexeme = .text w → rest.length < ts.length →
      Tracks env (f t) L rest) :
    Tracks env (next >>= f) (single (OfText k) * L) ts := by
  obtain ⟨t, rest, rfl, ht⟩ := exists_cons_of_nextKind hts hk
  by_cases htext : ∃ w, t.lexeme = .text w
  · obtain ⟨w, hw⟩ := htext
    exact tracks_next ⟨ht, w, hw⟩ (h t rest w ht hw (by simp))
  · have hlexeme : ∀ w, t.lexeme ≠ .text w := fun w hw ↦ htext ⟨w, hw⟩
    exact .of_lexeme List.mem_cons_self hlexeme fun a rest' ↦ hfail t rest a rest' hlexeme

/-- A token without text has no value, and the rule stops there without a report about the
grammar. -/
theorem stringValue_ne_ok {t : Token} {rest rest' : List Token} {v : Text}
    (ht : ∀ w, t.lexeme ≠ .text w) : stringValue t env rest ≠ .ok v rest' := by
  intro h
  obtain ⟨w, hw, -⟩ := stringValue_eq_ok h
  exact ht w hw

theorem tracks_stringValue {t : Token} {w : Text} (hw : t.lexeme = .text w) :
    Tracks env (stringValue t) 1 ts := by
  rw [stringValue, hw]
  exact tracks_textFor (tracks_pure rfl)

/-! ## Rules with expressions inside -/

/-- The parsers for inner expressions track their languages on streams of less than `n` tokens. -/
structure TracksInner (templates : Text → List Text → List Expr → Prop) (env : Context) (n : Nat) :
    Prop where
  expr : ∀ us, us.length < n → Tracks env expr (expressions templates .assignment) us
  unary : ∀ us, us.length < n → Tracks env unary (expressions templates (.binary [])) us

section Rules

variable {n : Nat} (hinner : TracksInner templates env n)
include hinner

/-! ### Calls -/

/-- Between the parentheses there is nothing or a list. -/
theorem tracks_argumentList (hts : ts.length < n) :
    Tracks env (argumentList whole) (argumentLists templates) ts := by
  refine tracks_atMark (fun _ ↦ tracks_pure ⟨[], .noArguments⟩) fun _ ↦ ?_
  refine (tracks_separated agree_expr fun us _ ↦ hinner.expr us (by omega)).mono ?_
  rintro _ ⟨es, hes⟩
  exact ⟨es, .someArguments (written_items hes)⟩

theorem tracks_arguments (hts : ts.length ≤ n) :
    Tracks env (arguments whole) (between .openParen .closeParen (argumentLists templates)) ts :=
  tracks_between (fun rest hrest ↦ tracks_argumentList hinner (by omega)) fun _ es ↦ es

/-! ### `new` -/

omit hinner in
/-- The points behind the callee of `new`, of which `us` is read already. -/
theorem tracks_callee {us : List Token} (hus : us ∈ callees templates) (e : Expr) :
    Tracks env (callee e) (after us (callees templates)) ts := by
  induction hn : ts.length using Nat.strongRecOn generalizing ts us e with
  | ind n ih =>
    subst hn
    rw [callee_eq]
    refine tracks_atMark (fun hdot ↦ ?_) fun _ ↦ tracks_pure (by simpa using hus)
    obtain ⟨d, rest, rfl, hd⟩ := exists_cons_of_nextKind hdot (by decide)
    obtain ⟨c, hc⟩ := hus
    have hmember : ∀ t, Token.NamesProperty t → us ++ [d, t] ∈ callees templates := fun t ht ↦
      ⟨_, .calleeMember none none d t hd ht hc⟩
    refine tracks_next_of (tracks_propertyName.bind_of ?_ ?_)
    · rintro _ ⟨t, ht, rfl⟩
      exact .of_mem (by simpa using hmember t ht)
    · rintro _ x rest' rfl ⟨t, ht, rfl⟩ -
      rw [after_after, after_after]
      have hlt : rest'.length < (d :: ([t] ++ rest')).length := by
        simp only [List.length_cons, List.length_append]
        omega
      simpa using ih rest'.length hlt (hmember t ht) _ rfl

/-- The arguments are another part, which may be missing; the callee is read for as long as it goes
on. -/
theorem tracks_newExpr (hts : ts.length ≤ n) :
    Tracks env (newExpr whole) (expressions templates .indexed) ts := by
  have hcallee : ∀ us, Tracks env (do
      let name ← expect .identifier
      callee (.name (some name.pos) name.lexeme)) (callees templates) us := by
    intro us
    refine tracks_expect.bind_of ?_ ?_
    · rintro _ ⟨t, ht, rfl⟩
      exact .of_mem ⟨_, .calleeName none t ht⟩
    · rintro _ name rest - ⟨t, ht, rfl⟩ -
      exact tracks_callee ⟨_, .calleeName none t ht⟩ _
  have harguments : ∀ us, us.length ≤ n → Tracks env (newArguments whole)
      (1 + between .openParen .closeParen (argumentLists templates)) us := fun us hus ↦
    tracks_atMark (fun _ ↦ (tracks_arguments hinner hus).mono fun _ h ↦ .inr h)
      fun _ ↦ tracks_pure (.inl rfl)
  refine Tracks.mono (L := ofKind (.keyword .newWord) * (callees templates *
    (1 + between .openParen .closeParen (argumentLists templates))))
    (tracks_expect_bind fun t rest _ hrest ↦ ?_) ?_
  · refine .assoc ((hcallee rest).bind fun c rest' _ hrest' ↦ ?_)
    exact (harguments rest' (by omega)).map _
  · rintro _ ⟨_, ⟨t, ht, rfl⟩, _, ⟨us, ⟨c, hc⟩, vs, rfl | hvs, rfl⟩, rfl⟩
    · exact ⟨_, by simpa using .newBare none t ht hc⟩
    · obtain ⟨l, vs, r, hl, ⟨es, hes⟩, hr, rfl⟩ := mem_between.mp hvs
      exact ⟨_, .toIndexed (.toChained (.new none t l r ht hl hr hc hes))⟩

/-! ### Literals -/

omit hinner in
/-- A key is looked at three ways, and what remains for a name is made precise by the kind. -/
theorem tracks_propertyKey (hclose : nextKind ts ≠ .mark .closeBrace) :
    Tracks env (propertyKey (nextKind ts)) keys ts := by
  unfold propertyKey
  split
  · rename_i hk
    refine (tracks_next_text (L := 1) hk (by decide) (fun t rest a rest' ht h ↦ ?_)
      fun t rest w ht hw _ ↦ (tracks_stringValue hw).map _).mono ?_
    · obtain ⟨v, _, hv, -⟩ := bind_eq_ok.mp h
      exact stringValue_ne_ok ht hv
    · rintro _ ⟨_, ⟨t, ⟨ht, w, hw⟩, rfl⟩, _, rfl, rfl⟩
      exact ⟨t, ⟨_, .string w ht hw⟩, rfl⟩
  · rename_i hk
    refine (tracks_next_kind (L := 1) hk (by decide) fun _ _ _ _ ↦ tracks_pure rfl).mono ?_
    rintro _ ⟨_, ⟨t, ht, rfl⟩, _, rfl, rfl⟩
    exact ⟨t, ⟨_, .number ht⟩, rfl⟩
  · rename_i hstring hnumber
    -- The other two kinds and the closing brace are ruled out by the cases before.
    refine (tracks_propertyName.map _).sharpen nil_notMem_single ?_
    rintro t _ ht ⟨_, hname, heq⟩
    cases heq
    refine ⟨t, ⟨_, .name hname ?_⟩, rfl⟩
    have hkind : nextKind ts = t.kind := by rw [nextKind, ht]; rfl
    rw [hkind] at hstring hnumber hclose
    simpa [hclose] using ⟨hstring, hnumber⟩

/-- Where the object is not closed, it goes on with a property. -/
theorem tracks_property (hts : ts.length ≤ n) (hclose : nextKind ts ≠ .mark .closeBrace) :
    Tracks env (property whole) (properties templates) ts := by
  have hvalue : ∀ (g : Expr → Lexeme × Expr) us, us.length < n → Tracks env (do
      let _ ← mark .colon
      return g (← whole.expr)) (ofKind (.mark .colon) * expressions templates .assignment) us :=
    fun g us hus ↦ tracks_expect_bind fun _ rest _ hrest ↦ (hinner.expr rest (by omega)).map g
  have hkeyed : ∀ k us, (∃ key, WritesKey k key) →
      us ∈ ofKind (.mark .colon) * expressions templates .assignment →
      k :: us ∈ properties templates := by
    rintro k _ ⟨key, hk⟩ ⟨_, ⟨c, hc, rfl⟩, us, ⟨e, he⟩, rfl⟩
    exact ⟨(key, e), .keyed k c hc hk he⟩
  refine tracks_peekToken ?_
  cases ts with
  | nil =>
    refine (tracks_propertyName.bind fun x rest hok _ ↦ hvalue _ rest ?_).sharpen
      nil_notMem_single_mul (by simp)
    obtain ⟨t, ht, -⟩ := propertyName_eq_ok hok
    cases ht
  -- The language is not the product of keys and values here, for a key may stand alone.
  | cons t rest =>
    refine (tracks_propertyKey hclose).bind_of ?_ ?_
    · rintro _ ⟨k, hk, rfl⟩
      obtain ⟨us, hus, hscanned⟩ := Viable.of_speakable
        (L := ofKind (.mark .colon) * expressions templates .assignment)
      exact ⟨us, hkeyed k us hk hus, hscanned⟩
    · rintro _ key rest' hrest ⟨k, hk, rfl⟩ -
      obtain ⟨rfl, rfl⟩ := List.cons.inj hrest
      refine tracks_check_bind ?_
      split
      · rename_i hshort
        exact tracks_pure ⟨(_, _), .shorthand none t hshort.1⟩
      · refine (hvalue _ _ hts).mono fun us hus ↦ hkeyed t us hk hus

/-- The items are only read where the brace does not close the object. -/
theorem tracks_objectLiteral (hts : ts.length ≤ n) :
    Tracks env (objectLiteral whole) (expressions templates .indexed) ts := by
  refine (tracks_between (L := phrases (WrittenListed fun x : Lexeme × Expr ↦
    Written templates (.property x.1 x.2))) (fun rest hrest ↦ ?_) _).mono ?_
  · exact tracks_listed .closeBrace (fun k ↦ agree_property fun j _ ↦ whole_agree j)
      fun us hus ↦ tracks_property hinner (by omega)
  · intro us hus
    obtain ⟨l, vs, r, hl, ⟨ps, hps⟩, hr, rfl⟩ := mem_between.mp hus
    exact ⟨_, .toIndexed (.toChained (.object none l r hl hr (written_properties hps)))⟩

theorem tracks_arrayLiteral (hts : ts.length ≤ n) :
    Tracks env (arrayLiteral whole) (expressions templates .indexed) ts := by
  refine (tracks_between (L := phrases (WrittenListed fun e ↦
    Written templates (.expr .assignment e))) (fun rest hrest ↦ ?_) _).mono ?_
  · exact tracks_listed .closeBracket agree_expr fun us hus _ ↦ hinner.expr us (by omega)
  · intro us hus
    obtain ⟨l, vs, r, hl, ⟨es, hes⟩, hr, rfl⟩ := mem_between.mp hus
    exact ⟨_, .toIndexed (.toChained (.array none l r hl hr (written_elements hes)))⟩

omit hinner in
/-- Holes are filled from the left, so the fault is that of a hole or that the last one is open. -/
theorem fillOutline_eq_error {t : Token} {o : Outline} {rest rest' : List Token} {f : Fault}
    (h : fillOutline t o env rest = .error f rest') :
    f = .openHole t.pos ∨ ∃ x ∈ o.holes, env.hole x.1 x.2 = .error f := by
  induction o generalizing rest with
  | last chunk => cases h
  | unclosed chunk =>
    cases h
    exact .inl rfl
  | hole chunk source pos o ih =>
    obtain hread | ⟨e, mid, -, h⟩ := bind_eq_error.mp h
    · rw [hole] at hread
      cases hsource : env.hole source pos with
      | ok e => rw [hsource] at hread; cases hread
      | error f' =>
        rw [hsource] at hread
        cases hread
        exact .inr ⟨_, List.mem_cons_self, hsource⟩
    · obtain ho | ⟨x, mid', -, h⟩ := bind_eq_error.mp h
      · obtain hopen | ⟨x, hx, hfault⟩ := ih ho
        · exact .inl hopen
        · exact .inr ⟨x, List.mem_cons_of_mem _ hx, hfault⟩
      · cases h

omit hinner in
/-- A template is one token, so it is at fault as a whole, wherever the fault inside it lies. -/
theorem tracks_template (henv : env.ReadsOnly templates) (hts : nextKind ts = .template) :
    Tracks env (next >>= templateLiteral) (expressions templates .indexed) ts := by
  obtain ⟨t, rest, rfl, ht⟩ := exists_cons_of_nextKind hts (by decide)
  by_cases htext : ∃ w, t.lexeme = .text w
  · obtain ⟨w, hw⟩ := htext
    refine ⟨fun e rest' hok ↦ ?_, fun f rest' herror ↦ ?_⟩
    · obtain ⟨rfl, w, p, cs, hs, hw, rfl, hholes⟩ := henv hok
      refine ⟨[t], rfl, ⟨_, .toIndexed (.toChained (.template p t w cs hs ht hw hholes))⟩, ?_⟩
      intro env' rest'' hhole _
      obtain ⟨w', cs', hs', hw', hfilled, heq, -⟩ := templateLiteral_eq_ok.mp hok
      rw [← hhole] at hfilled
      exact templateLiteral_eq_ok.mpr ⟨w', cs', hs', hw', hfilled, heq, rfl⟩
    · refine .template t List.mem_cons_self ht ?_
      have hfill : templateLiteral t env rest = .error f rest' := herror
      rw [templateLiteral, hw] at hfill
      obtain htext | ⟨_, _, hok, hfill⟩ := bind_eq_error.mp hfill
      · cases htext
      · cases hok
        obtain ho | ⟨x, mid, -, h⟩ := bind_eq_error.mp hfill
        · rw [Token.holes, ht, hw]
          exact fillOutline_eq_error ho
        · cases h
  · exact .of_lexeme List.mem_cons_self (fun w hw ↦ htext ⟨w, hw⟩) fun e rest' hok ↦
      htext ((henv hok).2.imp fun w h ↦ h.choose_spec.choose_spec.choose_spec.1)

/-- One case for each kind; a kind with which nothing begins is the token at fault. -/
theorem tracks_primary (henv : env.ReadsOnly templates) (hts : ts.length ≤ n) :
    Tracks env (primary whole) (expressions templates .indexed) ts := by
  have hclosed : ∀ {e us}, Written templates (.expr .primary e) us →
      us ∈ expressions templates .indexed := fun h ↦ ⟨_, .toIndexed (.toChained h)⟩
  have htoken : ∀ {k : Kind} (g : Token → Expr), nextKind ts = k → k ≠ .endOfInput →
      (∀ t, t.kind = k → ∃ e, Written templates (.expr .primary e) [t]) →
      Tracks env (do let t ← next; return g t) (expressions templates .indexed) ts := by
    intro k g hk hend h
    refine (tracks_next_kind (L := 1) hk hend fun _ _ _ _ ↦ tracks_pure rfl).mono ?_
    rintro _ ⟨_, ⟨t, ht, rfl⟩, _, rfl, rfl⟩
    exact hclosed (h t ht).choose_spec
  refine tracks_peek ?_
  split
  · rename_i hk
    exact htoken _ hk (by decide) fun t ht ↦ ⟨_, .number none t ht⟩
  · rename_i hk
    refine (tracks_next_text (L := 1) hk (by decide) (fun t rest a rest' ht h ↦ ?_)
      fun t rest w ht hw _ ↦ (tracks_stringValue hw).map _).mono ?_
    · obtain ⟨v, _, hv, -⟩ := bind_eq_ok.mp h
      exact stringValue_ne_ok ht hv
    · rintro _ ⟨_, ⟨t, ⟨ht, w, hw⟩, rfl⟩, _, rfl, rfl⟩
      exact hclosed (.string none t w ht hw)
  · rename_i hk
    exact tracks_template henv hk
  · rename_i hk
    exact htoken _ hk (by decide) fun t ht ↦ ⟨_, written_identifierExpr t ht⟩
  · rename_i hk
    exact htoken _ hk (by decide) fun t ht ↦ ⟨_, .thisWord none t ht⟩
  · exact tracks_newExpr hinner hts
  · rename_i hk
    refine (tracks_next_kind hk (by decide) fun _ rest _ hrest ↦
      (hinner.expr rest (by omega)).bind fun e _ _ _ ↦ tracks_expect.map fun _ ↦ e).mono ?_
    rintro _ ⟨_, ⟨l, hl, rfl⟩, _, ⟨us, ⟨e, he⟩, _, ⟨r, hr, rfl⟩, rfl⟩, rfl⟩
    exact hclosed (.parentheses l r hl hr he)
  · exact tracks_objectLiteral hinner hts
  · exact tracks_arrayLiteral hinner hts
  · exact tracks_fail _ _

/-! ### Suffixes -/

/-- The members and calls behind an expression, of which `us` is read already. -/
theorem tracks_suffixes {us : List Token} {first : Expr} (hts : ts.length ≤ n)
    (hfirst : WrittenFirst templates first us ts) (e : Expr) :
    Tracks env (suffixes whole e) (after us (expressions templates .indexed)) ts := by
  induction hm : ts.length using Nat.strongRecOn generalizing ts us first e with
  | ind m ih =>
    subst hm
    have hindexed : Written templates (.expr .indexed first) us :=
      hfirst.elim (fun h ↦ .toIndexed h) fun h ↦ h.1
    -- Behind each suffix the word read so far is longer, and may have any suffix.
    have hfurther : ∀ {longer : Expr} {vs : List Token} (rest : List Token) (e' : Expr),
        rest.length < ts.length → Written templates (.expr .chained longer) (us ++ vs) →
        Tracks env (suffixes whole e') (after (us ++ vs) (expressions templates .indexed)) rest :=
      fun rest e' hrest h ↦ ih rest.length hrest (by omega) (.inl h) e' rfl
    rw [suffixes_eq whole_agree]
    refine tracks_peek ?_
    split
    · rename_i hk
      have hchained := hfirst.resolve_right fun hne ↦ hne.2 (by rw [hk]; decide)
      obtain ⟨d, rest, rfl, hd⟩ := exists_cons_of_nextKind hk (by decide)
      refine tracks_next_of (tracks_propertyName.bind_of ?_ ?_)
      · rintro _ ⟨t, ht, rfl⟩
        exact .of_mem ⟨_, .toIndexed (.member none none d t hd ht hchained)⟩
      · rintro _ x rest' rfl ⟨t, ht, rfl⟩ -
        rw [after_after, after_after]
        refine hfurther rest' _ ?_ (.member none none d t hd ht hchained)
        simp only [List.length_cons, List.length_append]
        omega
    · rename_i hk
      obtain ⟨l, rest, rfl, hl⟩ := exists_cons_of_nextKind hk (by decide)
      have hindex : ∀ {key : Expr} {ks : List Token} {r : Token},
          Written templates (.expr .assignment key) ks → r.kind = .mark .closeBracket →
          Written templates (.expr .chained (.index none first key)) (us ++ l :: (ks ++ [r])) :=
        fun hkey hr ↦ .index none l _ hl hr hindexed hkey
      refine tracks_next_of ((hinner.expr rest (by simp at hts; omega)).bind_of ?_ ?_)
      · rintro ks ⟨key, hkey⟩
        refine ⟨[markToken .closeBracket], ?_, by simpa using scanned_markToken _⟩
        exact ⟨_, .toIndexed (hindex hkey rfl)⟩
      · rintro ks _ rest' rfl ⟨key, hkey⟩ -
        refine tracks_expect.bind_of ?_ ?_
        · rintro _ ⟨r, hr, rfl⟩
          exact .of_mem (by simpa using ⟨_, .toIndexed (hindex hkey hr)⟩)
        · rintro _ _ rest'' rfl ⟨r, hr, rfl⟩ -
          rw [after_after, after_after, after_after]
          refine hfurther rest'' _ ?_ (hindex hkey hr)
          simp only [List.length_cons, List.length_append]
          omega
    · rename_i hk
      have hchained := hfirst.resolve_right fun hne ↦ hne.2 (by rw [hk]; decide)
      have hcall : ∀ vs ∈ between .openParen .closeParen (argumentLists templates),
          ∃ e', Written templates (.expr .chained e') (us ++ vs) := by
        intro vs hvs
        obtain ⟨l, as, r, hl, ⟨es, hes⟩, hr, rfl⟩ := mem_between.mp hvs
        exact ⟨_, .call none l r hl hr hchained hes⟩
      refine (tracks_arguments hinner hts).bind_of (fun vs hvs ↦ ?_) fun vs _ rest hrest hvs _ ↦ ?_
      · obtain ⟨e', he'⟩ := hcall vs hvs
        exact .of_mem ⟨e', .toIndexed he'⟩
      · obtain ⟨e', he'⟩ := hcall vs hvs
        obtain ⟨l, as, r, -, -, -, rfl⟩ := mem_between.mp hvs
        rw [after_after]
        exact hfurther rest _ (by simp [hrest]; omega) he'
    · exact tracks_pure ⟨_, by simpa using hindexed⟩

/-- What the suffixes complete is known only with the expression itself, since behind a `new`
without arguments they must not begin with a point. -/
theorem tracks_suffixed (henv : env.ReadsOnly templates) (hts : ts.length ≤ n) :
    Tracks env (suffixed whole) (expressions templates .suffixed) ts := by
  have hindexed :
      Tracks env (primary whole >>= suffixes whole) (expressions templates .indexed) ts := by
    refine (tracks_primary hinner henv hts).bind_of (fun us hus ↦ .of_mem hus) ?_
    intro us first rest hrest _ hok
    obtain ⟨us', hus', hfirst⟩ := written_primary henv hok
    obtain rfl := List.append_cancel_right (hrest.symm.trans hus')
    exact tracks_suffixes hinner (by simp [hrest] at hts; omega) hfirst first
  have hupdate : ∀ e us, Tracks env (do
      if ← check updateOps then
        let op ← next
        return Expr.update e.pos op.lexeme .after e
      else return e) (1 + single fun t ↦ t.kind ∈ updateOps) us := by
    intro e us
    refine tracks_check (fun hop ↦ ?_) fun _ ↦ tracks_pure (.inl rfl)
    refine (tracks_next_mem (L := 1) hop (by decide) fun _ _ _ _ ↦ tracks_pure rfl).mono ?_
    rintro _ ⟨_, ⟨op, hop, rfl⟩, _, rfl, rfl⟩
    exact .inr ⟨op, hop, rfl⟩
  refine Tracks.assoc ((hindexed.bind fun e rest _ _ ↦ hupdate e rest).mono ?_)
  rintro _ ⟨us, ⟨e, he⟩, _, rfl | ⟨op, hop, rfl⟩, rfl⟩
  · exact ⟨e, by simpa using .toSuffixed he⟩
  · exact ⟨_, .updateAfter none op hop he⟩

/-! ### Operators -/

/-- The operators before an operand differ in their kinds alone. -/
theorem tracks_unaryExpr (henv : env.ReadsOnly templates) (hts : ts.length ≤ n) :
    Tracks env (unaryExpr whole) (expressions templates (.binary [])) ts := by
  have hoperand : ∀ {ks : List Kind} (g : Token → Expr → Expr), nextKind ts ∈ ks →
      .endOfInput ∉ ks → (∀ op us e, op.kind ∈ ks → Written templates (.expr (.binary []) e) us →
        op :: us ∈ expressions templates (.binary [])) →
      Tracks env (do let op ← next; return g op (← whole.unary))
        (expressions templates (.binary [])) ts := by
    intro ks g hop hks hle
    refine (tracks_next_mem hop hks fun op rest _ hrest ↦
      (hinner.unary rest (by omega)).map (g op)).mono ?_
    rintro _ ⟨_, ⟨op, hop, rfl⟩, us, ⟨e, he⟩, rfl⟩
    exact hle op us e hop he
  refine tracks_peek ?_
  split
  · rename_i hop
    exact hoperand _ hop (by decide) fun op us e hop he ↦ ⟨_, .unary none op hop he⟩
  split
  · rename_i hop
    exact hoperand _ hop (by decide) fun op us e hop he ↦ ⟨_, .updateBefore none op hop he⟩
  · refine (tracks_suffixed hinner henv hts).mono ?_
    rintro us ⟨e, he⟩
    exact ⟨e, .toUnary he⟩

omit hinner in
/-- Further operands of one level, behind the operands `us`. -/
theorem tracks_chain {operand : Parse Expr} {ops : List Kind} {tighter : List (List Kind)}
    (hlevels : ops :: tighter <:+ binaryLevels) (hagree : ∀ k, Agree k 1 operand operand)
    {us : List Token} (hus : us ∈ expressions templates (.binary (ops :: tighter))) (left : Expr)
    (hoperand : ∀ vs, vs.length < ts.length →
      Tracks env operand (expressions templates (.binary tighter)) vs) :
    Tracks env (chain operand ops left)
      (after us (expressions templates (.binary (ops :: tighter)))) ts := by
  have hops : .endOfInput ∉ ops := endOfInput_not_mem_binaryLevels ops
    (hlevels.subset List.mem_cons_self)
  induction hm : ts.length using Nat.strongRecOn generalizing ts us left with
  | ind m ih =>
    subst hm
    rw [chain_eq hops hagree]
    refine tracks_check (fun hop ↦ ?_) fun _ ↦ tracks_pure (by simpa using hus)
    obtain ⟨op, rest, rfl, -⟩ := exists_cons_of_nextKind rfl fun hend ↦ hops (hend ▸ hop)
    have hbinary : ∀ vs ∈ expressions templates (.binary tighter),
        us ++ ([op] ++ vs) ∈ expressions templates (.binary (ops :: tighter)) := by
      obtain ⟨l, hl⟩ := hus
      rintro vs ⟨r, hr⟩
      exact ⟨_, .binary none op hlevels hop hl hr⟩
    refine tracks_next_of
      ((hoperand rest (by simp)).bind_of (fun vs hvs ↦ .of_mem (hbinary vs hvs)) ?_)
    rintro vs _ rest' rfl hvs -
    rw [after_after, after_after]
    have hlt : rest'.length < (op :: (vs ++ rest')).length := by
      simp only [List.length_cons, List.length_append]
      omega
    exact ih rest'.length hlt (hbinary vs hvs) _ (fun ws hws ↦ hoperand ws (by omega)) rfl

/-- By induction on the levels.  The first operand of a level is a word of the level already. -/
theorem tracks_binaryExpr (henv : env.ReadsOnly templates) {levels : List (List Kind)}
    (hlevels : levels <:+ binaryLevels) (hts : ts.length ≤ n) :
    Tracks env (binaryExpr whole levels) (expressions templates (.binary levels)) ts := by
  induction levels generalizing ts with
  | nil => exact tracks_unaryExpr hinner henv hts
  | cons ops tighter ih =>
    have htighter := (List.suffix_cons ops tighter).trans hlevels
    have hraise : ∀ us ∈ expressions templates (.binary tighter),
        us ∈ expressions templates (.binary (ops :: tighter)) := by
      rintro us ⟨e, he⟩
      exact ⟨e, .toBinary hlevels he⟩
    refine (ih htighter hts).bind_of (fun us hus ↦ .of_mem (hraise us hus)) ?_
    rintro us left rest rfl hus -
    refine tracks_chain hlevels (fun k ↦ ?_) (hraise us hus) left fun vs hvs ↦ ih htighter ?_
    · exact agree_binaryExpr (fun o ho ↦ endOfInput_not_mem_binaryLevels o (htighter.subset ho))
        fun j _ ↦ whole_agree j
    · simp at hts
      omega

/-- The test, and behind it nothing or the two choices. -/
theorem tracks_conditionalExpr (henv : env.ReadsOnly templates) (hts : ts.length ≤ n) :
    Tracks env (conditionalExpr whole) (expressions templates .conditional) ts := by
  refine Tracks.mono (L := expressions templates (.binary binaryLevels) *
    (1 + ofKind (.mark .question) * (expressions templates .assignment *
      (ofKind (.mark .colon) * expressions templates .assignment)))) ?_ ?_
  · refine (tracks_binaryExpr hinner henv List.suffix_rfl hts).bind fun test rest _ hrest ↦ ?_
    refine tracks_atMark (fun hquestion ↦ ?_) fun _ ↦ tracks_pure (.inl rfl)
    refine (tracks_next_kind hquestion (by decide) fun _ us _ hus ↦ ?_).mono fun _ h ↦ .inr h
    refine (hinner.expr us (by omega)).bind fun yes vs _ hvs ↦ ?_
    refine tracks_expect_bind fun _ ws _ hws ↦ ?_
    exact (hinner.expr ws (by omega)).map _
  · rintro _ ⟨us, ⟨test, htest⟩, _, rfl | ⟨_, ⟨q, hq, rfl⟩, _, ⟨vs, ⟨yes, hyes⟩, _,
      ⟨_, ⟨c, hc, rfl⟩, ws, ⟨no, hno⟩, rfl⟩, rfl⟩, rfl⟩, rfl⟩
    · exact ⟨test, by simpa using .toConditional htest⟩
    · exact ⟨_, .conditional none q c hq hc htest hyes hno⟩

omit hinner in
/-- An operator that nothing can be assigned with is the token at fault, although it is read. -/
theorem tracks_badTarget {α : Type} {L : Language Token} (h : Viable L []) (target : Text)
    (hts : nextKind ts ∈ assignmentOps) :
    Tracks env (next >>= fun op ↦ throw (.badTarget target op.kind op.pos) : Parse α) L ts := by
  obtain ⟨op, rest, rfl, -⟩ := exists_cons_of_nextKind rfl fun hend ↦
    absurd (hend ▸ hts) (by decide)
  refine ⟨fun a rest' hok ↦ absurd hok throw_ne_ok, fun f rest' herror ↦ ?_⟩
  cases herror
  exact .token [] op rest rfl ⟨rfl, rfl, rfl⟩ h fun _ rest' _ ↦ ⟨rest', rfl⟩

/-- An operator behind what is no target is at fault, and not what follows it. -/
theorem tracks_assignmentExpr (henv : env.ReadsOnly templates) (hts : ts.length ≤ n) :
    Tracks env (assignmentExpr whole) (expressions templates .assignment) ts := by
  refine (tracks_conditionalExpr hinner henv hts).bind_of ?_ ?_
  · rintro us ⟨e, he⟩
    exact .of_mem ⟨e, .toAssignment he⟩
  rintro us left rest rfl ⟨e, he⟩ hok
  have hleft : [] ∈ after us (expressions templates .assignment) :=
    ⟨e, by simpa using .toAssignment he⟩
  refine tracks_check (fun hop ↦ ?_) fun _ ↦ tracks_pure hleft
  -- Whether the left side is a target is decided when it has been read.
  by_cases htarget : isTarget left = true
  · simp only [htarget, if_true]
    obtain ⟨us', heq, hwritten⟩ := written_target henv hok htarget
    obtain rfl := List.append_cancel_right heq
    refine (tracks_next_mem hop (by decide) fun op rest' _ hrest ↦
      (hinner.expr rest' (by simp at hts; omega)).map _).mono ?_
    rintro _ ⟨_, ⟨op, hop, rfl⟩, vs, ⟨value, hvalue⟩, rfl⟩
    exact ⟨_, .assign none op hop htarget hwritten hvalue⟩
  · simp only [htarget]
    exact tracks_badTarget (.of_mem hleft) _ hop

end Rules

/-! ## Closing the recursion -/

/-- By induction on the length of the stream: inner expressions stand behind a token. -/
theorem tracksInner (henv : env.ReadsOnly templates) (n : Nat) : TracksInner templates env n := by
  induction n with
  | zero => exact ⟨fun us hus ↦ absurd hus (by omega), fun us hus ↦ absurd hus (by omega)⟩
  | succ n ih =>
    refine ⟨fun us hus ↦ ?_, fun us hus ↦ ?_⟩
    · rw [expr_eq]
      exact tracks_assignmentExpr ih henv (by omega)
    · rw [unary_eq]
      exact tracks_unaryExpr ih henv (by omega)

/-- **An expression is read up to the first token with which none goes on.** -/
theorem tracks_expr (henv : env.ReadsOnly templates) :
    Tracks env expr (expressions templates .assignment) ts :=
  (tracksInner henv (ts.length + 1)).expr ts (by omega)

end Advplc.Grammar

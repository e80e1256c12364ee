import Advplc.Proofs.Grammar.Items
import Advplc.Proofs.Grammar.Streams
import Advplc.Proofs.Script.Parts

/-!
# Where the nodes of a program stand

`Program.nodes` lists the statements and the expressions of a program, at any depth and in the holes
of templates too.  Each of them has the position of the first of its tokens, opening parentheses
apart if it is an expression (`settled_of_parse`).  Its tokens are those that write it, in the
stream in which it was read: the tokens of the source, or those of the hole of a template.
-/

set_option autoImplicit false

namespace Advplc

/-! ## Nodes -/

namespace Script

/-- A node of the tree of a program. -/
inductive Node where
  | expr (e : Expr)
  | stmt (s : Stmt)

/-- The position of a node. -/
def Node.pos : Node → Option Pos
  | .expr e => e.pos
  | .stmt s => s.pos

/-- An expression as a node, without those inside it.  The name of a property is a node as well. -/
def Expr.own : Expr → List Node
  | .member p e n q => [.expr (.member p e n q), .expr (.name q n)]
  | e => [.expr e]

/-- The nodes of expressions, at any depth. -/
def Expr.nodes (es : List Expr) : List Node := (Expr.insideAll es).flatMap Expr.own

/-- The nodes of what a `for` loop does first. -/
def ForInit.nodes : ForInit → List Node
  | .nothing => []
  | .variable v => .stmt (.variable v) :: Expr.nodes v.value.toList
  | .expr e => Expr.nodes [e]

mutual

/-- The nodes inside a statement, at any depth. -/
def Stmt.nodes : Stmt → List Node
  | .lineComment _ _ | .blockComment _ _ | .importFrom _ _ _ | .exportNames _ _ _ | .breakLoop _
  | .continueLoop _ | .foreign _ => []
  | .exportDecl _ s _ _ => .stmt s :: nodes s
  | .exportValue _ e _ _ | .expr _ e => Expr.nodes [e]
  | .variable v => Expr.nodes v.value.toList
  | .output _ _ es => Expr.nodes es
  | .function _ _ _ body => nodesAll body
  | .ret _ value => Expr.nodes value.toList
  | .ifThen _ test yes => Expr.nodes [test] ++ nodesAll yes
  | .ifElse _ test yes no => Expr.nodes [test] ++ (nodesAll yes ++ nodesAll no)
  | .forLoop _ init test update body =>
    init.nodes ++ (Expr.nodes test.toList ++ (Expr.nodes update.toList ++ nodesAll body))
  | .whileLoop _ test body => Expr.nodes [test] ++ nodesAll body

/-- The nodes of a list of statements, at any depth. -/
def Stmt.nodesAll : List Stmt → List Node
  | [] => []
  | s :: ss => (.stmt s :: nodes s) ++ nodesAll ss

end

/-- The nodes of a program. -/
def Program.nodes (p : Program) : List Node := Stmt.nodesAll p.body

end Script

namespace Grammar

open Script Parse

/-! ## Holes of templates -/

/-- The chunks of an outline and the expressions in its holes.  `placed` says which tokens write
which expression. -/
inductive PlacedOutline (placed : Expr → List Token → Prop) :
    Outline → List Text → List Expr → Prop where
  | last (chunk : Text) : PlacedOutline placed (.last chunk) [chunk.unescape] []
  | hole (chunk : Text) {source : Text} {p : Pos} {rest : Outline} {e : Expr} {cs : List Text}
      {hs : List Expr} {ts : List Token} (hts : tokenize source p = .ok ts) (he : placed e ts)
      (h : PlacedOutline placed rest cs hs) :
      PlacedOutline placed (.hole chunk source p rest) (chunk.unescape :: cs) (e :: hs)

/-- The chunks and holes that a template stands for, if `placed` says which tokens write what is in
its holes. -/
def placedTemplates (placed : Expr → List Token → Prop) (t : Token) (cs : List Text)
    (hs : List Expr) : Prop :=
  ∃ w, t.lexeme = .text w ∧
    PlacedOutline placed (Outline.of ⟨t.pos.line, t.pos.column + 1⟩ (Text.trimEnds 1 w)) cs hs

/-- The tokens that write an expression in which templates nest less than `n` deep. -/
def PlacedWithin : Nat → Expr → List Token → Prop
  | 0, _, _ => False
  | n + 1, e, ts => Placed (placedTemplates (PlacedWithin n)) (.expr .assignment e) ts

/-- The chunks and holes that a template stands for. -/
def templatesPlaced : Token → List Text → List Expr → Prop :=
  placedTemplates fun e ts ↦ ∃ n, PlacedWithin n e ts

section Templates

variable {templates templates' : Token → List Text → List Expr → Prop} {ts : List Token}

/-- What is said about templates may be weakened. -/
theorem Placed.mono (hle : ∀ ⦃t cs hs⦄, templates t cs hs → templates' t cs hs) {phrase : Phrase}
    (h : Placed templates phrase ts) : Placed templates' phrase ts := by
  induction h with
  | template t w cs hs ht hw hholes => exact .template t w cs hs ht hw (hle hholes)
  | _ => constructor <;> assumption

theorem PlacedOutline.mono {placed placed' : Expr → List Token → Prop}
    (hle : ∀ ⦃e ts⦄, placed e ts → placed' e ts) {o : Outline} {cs : List Text} {hs : List Expr}
    (h : PlacedOutline placed o cs hs) : PlacedOutline placed' o cs hs := by
  induction h with
  | last chunk => exact .last chunk
  | hole chunk hts he _ ih => exact .hole chunk hts (hle he) ih

theorem templatesPlaced_of_within {n : Nat} {t : Token} {cs : List Text} {hs : List Expr}
    (h : placedTemplates (PlacedWithin n) t cs hs) : templatesPlaced t cs hs := by
  obtain ⟨w, hw, houtline⟩ := h
  exact ⟨w, hw, houtline.mono fun _ _ he ↦ ⟨n, he⟩⟩

theorem Filled.placed {read : Text → Pos → Except Fault Expr} {placed : Expr → List Token → Prop}
    (hread : ∀ ⦃source p e⦄, read source p = .ok e → ∃ ts, tokenize source p = .ok ts ∧ placed e ts)
    {o : Outline} {cs : List Text} {hs : List Expr} (h : Filled read o cs hs) :
    PlacedOutline placed o cs hs := by
  induction h with
  | last chunk => exact .last chunk
  | hole chunk he _ ih =>
    obtain ⟨ts, hts, hplaced⟩ := hread he
    exact .hole chunk hts hplaced ih

/-- A context that reads holes to what is written and placed there reads templates so. -/
theorem readsAt_placed {env : Context} {placed : Expr → List Token → Prop}
    (hread : ∀ ⦃source p e⦄, env.hole source p = .ok e →
      ∃ ts, tokenize source p = .ok ts ∧ placed e ts) :
    env.ReadsAt (placedTemplates placed) := by
  intro t ts rest e h
  obtain ⟨w, cs, hs, hw, hfilled, rfl, rfl⟩ := templateLiteral_eq_ok.mp h
  exact ⟨rfl, w, cs, hs, hw, rfl, w, hw, hfilled.placed hread⟩

/-- **What is read in a hole is written and placed by the tokens of the hole.** -/
theorem placed_holeAt (n : Nat) : ∀ ⦃source p e⦄, holeAt n source p = .ok e →
    ∃ ts, tokenize source p = .ok ts ∧ PlacedWithin n e ts := by
  induction n with
  | zero =>
    intro source p e h
    cases h
  | succ n ih =>
    intro source p e h
    obtain ⟨ts, rest, htokens, hexpr, hend⟩ := holeAt_eq_ok.mp h
    obtain ⟨used, rfl, hused⟩ := places_expr (readsAt_placed ih) hexpr
    obtain rfl := eq_nil_of_tokenize htokens hend
    rw [List.append_nil] at htokens
    exact ⟨used, htokens, hused⟩

theorem readsAt_readHole (finish : Except Unusable Pos) :
    Context.ReadsAt templatesPlaced ⟨finish, readHole⟩ :=
  readsAt_placed fun _ _ _ h ↦ (placed_holeAt _ h).imp fun _ hts ↦ ⟨hts.1, _, hts.2⟩

end Templates

/-! ## Settled nodes -/

/-- Whether a rule of the grammar makes an expression of tokens.  The name of a property is read by
a rule of its own. -/
inductive Consumes : Expr → List Token → Prop where
  | expr {phrase : Phrase} {e : Expr} {us : List Token} (h : Placed templatesPlaced phrase us)
      (he : phrase.expr? = some e) : Consumes e us
  | propertyName (t : Token) (ht : Token.NamesProperty t) :
      Consumes (.name (some t.pos) t.lexeme) [t]

/-- Whether a node stands where it should: an expression at the first of its tokens that is not an
opening parenthesis, and a statement at its first token.  The tokens of an expression are found in
some stream of the source, those of a statement in the source itself. -/
def Node.Settled (source : Text) : Node → Prop
  | .expr e => ∃ s p ts us, Stream source s p ∧ tokenize s p = .ok ts ∧ us <:+: ts ∧
      Consumes e us ∧ e.pos = startOf us
  | .stmt s => ∃ ts us ajar, tokenize source Pos.origin = .ok ts ∧ us <:+: ts ∧
      PlacedStmt templatesPlaced (.stmt ajar s) us ∧ s.pos = us.head?.map Token.pos

/-- Whether an expression stands where it should, and so does the name of its property. -/
def ExprSettled (source : Text) (e : Expr) : Prop := ∀ x ∈ e.own, Node.Settled source x

/-- The expressions in a phrase, at any depth. -/
def Phrase.inside : Phrase → List Expr
  | .expr _ e | .callee e | .property _ e => e :: e.inside
  | .arguments es | .items es | .elements es => Expr.insideAll es
  | .properties ps => Expr.insideProperties ps

section Settling

variable {source s : Text} {p : Pos} {ts us vs ws : List Token}
  {templates : Token → List Text → List Expr → Prop}

theorem infix_left (h : vs ++ ws <:+: ts) : vs <:+: ts :=
  (List.prefix_append vs ws).isInfix.trans h

theorem infix_right (h : vs ++ ws <:+: ts) : ws <:+: ts :=
  (List.suffix_append vs ws).isInfix.trans h

theorem infix_tail {t : Token} (h : t :: ws <:+: ts) : ws <:+: ts :=
  (List.suffix_cons t ws).isInfix.trans h

theorem infix_closed {t : Token} (h : vs ++ t :: ws <:+: ts) : vs ++ [t] <:+: ts :=
  List.IsInfix.trans ⟨[], ws, by simp⟩ h

theorem settled_name (hstream : Stream source s p) (hts : tokenize s p = .ok ts) {t : Token}
    (hus : [t] <:+: ts) (ht : Token.NamesProperty t) :
    Node.Settled source (.expr (.name (some t.pos) t.lexeme)) := by
  have hsound := sound_of_tokenize hts t (hus.subset List.mem_cons_self)
  have hopen : t.kind ≠ .mark .openParen := fun h ↦ hsound.name ht (h ▸ by decide)
  exact ⟨s, p, ts, [t], hstream, hts, hus, .propertyName t ht, (startOf_cons_of_ne hopen []).symm⟩

/-- **The expressions of a phrase stand where they should**, if those in the holes of templates
do. -/
theorem Placed.settled (hstream : Stream source s p) (hts : tokenize s p = .ok ts)
    (hle : ∀ ⦃t cs hs⦄, templates t cs hs → templatesPlaced t cs hs)
    (hholes : ∀ t ∈ ts, t.kind = .template → ∀ cs hs, templates t cs hs →
      ∀ x ∈ Expr.insideAll hs, ExprSettled source x) {phrase : Phrase}
    (h : Placed templates phrase us) (hus : us <:+: ts) :
    ∀ x ∈ phrase.inside, ExprSettled source x := by
  have hself : ∀ {phrase : Phrase} {e : Expr} {us : List Token}, Placed templates phrase us →
      phrase.expr? = some e → us <:+: ts → Node.Settled source (.expr e) := by
    intro phrase e us h he hus
    refine ⟨s, p, ts, us, hstream, hts, hus, .expr (h.mono hle) he, ?_⟩
    rw [h.pos_eq he [], List.append_nil]
  have hnode : ∀ {phrase : Phrase} {e : Expr} {us : List Token}, Placed templates phrase us →
      phrase.expr? = some e → e.own = [.expr e] → us <:+: ts →
      (∀ x ∈ e.inside, ExprSettled source x) → ∀ x ∈ e :: e.inside, ExprSettled source x :=
    fun h he hown hus hinside ↦ List.forall_mem_cons.mpr
      ⟨fun x hx ↦ List.mem_singleton.mp (hown ▸ hx) ▸ hself h he hus, hinside⟩
  have hleaf : ∀ {phrase : Phrase} {e : Expr} {us : List Token}, Placed templates phrase us →
      phrase.expr? = some e → e.own = [.expr e] → us <:+: ts → e.inside = [] →
      ∀ x ∈ e :: e.inside, ExprSettled source x := fun h he hown hus hinside ↦
    hnode h he hown hus (hinside ▸ List.forall_mem_nil _)
  induction h with
  | number t ht => exact hleaf (.number t ht) rfl rfl hus rfl
  | string t w ht hw => exact hleaf (.string t w ht hw) rfl rfl hus rfl
  | template t w cs hs ht hw h =>
    exact hnode (.template t w cs hs ht hw h) rfl rfl hus
      (hholes t (hus.subset List.mem_cons_self) ht cs hs h)
  | trueWord t ht hw => exact hleaf (.trueWord t ht hw) rfl rfl hus rfl
  | falseWord t ht hw => exact hleaf (.falseWord t ht hw) rfl rfl hus rfl
  | nullWord t ht hw => exact hleaf (.nullWord t ht hw) rfl rfl hus rfl
  | name t ht hw => exact hleaf (.name t ht hw) rfl rfl hus rfl
  | thisWord t ht => exact hleaf (.thisWord t ht) rfl rfl hus rfl
  | calleeName t ht => exact hleaf (.calleeName t ht) rfl rfl hus rfl
  | shorthand t ht =>
    exact List.forall_mem_singleton.mpr
      (List.forall_mem_singleton.mpr (settled_name hstream hts hus (.inl ht)))
  | object l r hl hr h ih =>
    exact hnode (.object l r hl hr h) rfl rfl hus (ih (infix_left (infix_tail hus)))
  | array l r hl hr h ih =>
    exact hnode (.array l r hl hr h) rfl rfl hus (ih (infix_left (infix_tail hus)))
  | parentheses l r hl hr _ ih => exact ih (infix_left (infix_tail hus))
  | new n l r hn hl hr he hes ihe ihes =>
    refine hnode (.new n l r hn hl hr he hes) rfl rfl hus (List.forall_mem_append.mpr ⟨?_, ?_⟩)
    · exact ihe (infix_left (infix_tail hus))
    · exact ihes (infix_left (infix_tail (infix_right (infix_tail hus))))
  | newBare n hn he ih =>
    refine hnode (.newBare n hn he) rfl rfl hus (List.forall_mem_append.mpr ⟨?_, ?_⟩)
    · exact ih (infix_tail hus)
    · exact List.forall_mem_nil _
  | member d n hd hn he hp ih =>
    refine List.forall_mem_cons.mpr ⟨List.forall_mem_cons.mpr
      ⟨hself (.member d n hd hn he hp) rfl hus, List.forall_mem_singleton.mpr ?_⟩, ?_⟩
    · exact settled_name hstream hts (infix_tail (infix_right hus)) hn
    · exact ih (infix_left hus)
  | calleeMember d n hd hn he hp ih =>
    refine List.forall_mem_cons.mpr ⟨List.forall_mem_cons.mpr
      ⟨hself (.calleeMember d n hd hn he hp) rfl hus, List.forall_mem_singleton.mpr ?_⟩, ?_⟩
    · exact settled_name hstream hts (infix_tail (infix_right hus)) hn
    · exact ih (infix_left hus)
  | index l r hl hr he hk hp ihe ihk =>
    refine hnode (.index l r hl hr he hk hp) rfl rfl hus (List.forall_mem_append.mpr ⟨?_, ?_⟩)
    · exact ihe (infix_left hus)
    · exact ihk (infix_left (infix_tail (infix_right hus)))
  | call l r hl hr he hes hp ihe ihes =>
    refine hnode (.call l r hl hr he hes hp) rfl rfl hus (List.forall_mem_append.mpr ⟨?_, ?_⟩)
    · exact ihe (infix_left hus)
    · exact ihes (infix_left (infix_tail (infix_right hus)))
  | updateAfter op hop he hp ih =>
    exact hnode (.updateAfter op hop he hp) rfl rfl hus (ih (infix_left hus))
  | updateBefore op hop he ih =>
    exact hnode (.updateBefore op hop he) rfl rfl hus (ih (infix_tail hus))
  | unary op hop he ih => exact hnode (.unary op hop he) rfl rfl hus (ih (infix_tail hus))
  | binary op hlevels hop hl hr hp ihl ihr =>
    refine hnode (.binary op hlevels hop hl hr hp) rfl rfl hus (List.forall_mem_append.mpr ⟨?_, ?_⟩)
    · exact ihl (infix_left hus)
    · exact ihr (infix_tail (infix_right hus))
  | conditional q c hq hc htest hyes hno hp iht ihy ihn =>
    refine hnode (.conditional q c hq hc htest hyes hno hp) rfl rfl hus (List.forall_mem_append.mpr
      ⟨List.forall_mem_append.mpr ⟨iht (infix_left hus), ?_⟩, ?_⟩)
    · exact ihy (infix_left (infix_tail (infix_right hus)))
    · exact ihn (infix_tail (infix_right (infix_tail (infix_right hus))))
  | assign op hop htarget hl hv hp ihl ihv =>
    refine hnode (.assign op hop htarget hl hv hp) rfl rfl hus (List.forall_mem_append.mpr ⟨?_, ?_⟩)
    · exact ihl (infix_left hus)
    · exact ihv (infix_tail (infix_right hus))
  | noArguments | noElements | noProperties => exact List.forall_mem_nil _
  | lastItem _ ih | lastElement _ ih | lastProperty _ ih =>
    exact List.forall_mem_append.mpr ⟨ih hus, List.forall_mem_nil _⟩
  | moreItems c hc _ _ ih ihs | moreElements c hc _ _ ih ihs | moreProperties c hc _ _ ih ihs =>
    exact List.forall_mem_append.mpr ⟨ih (infix_left hus), ihs (infix_tail (infix_right hus))⟩
  | keyed k c hc hk _ ih => exact ih (infix_tail (infix_tail hus))
  | toAssignment _ ih | toConditional _ ih | toBinary _ _ ih | toUnary _ ih | toSuffixed _ ih
  | toIndexed _ ih | toChained _ ih | someArguments _ ih => exact ih hus

/-- Whether the expressions that the tokens of a stream write stand where they should, as far as
`placed` says what they write. -/
def Settles (source : Text) (placed : Expr → List Token → Prop) : Prop :=
  ∀ ⦃s p ts e⦄, Stream source s p → tokenize s p = .ok ts → placed e ts →
    ∀ x ∈ e :: e.inside, ExprSettled source x

theorem PlacedOutline.settled {placed : Expr → List Token → Prop} (hplaced : Settles source placed)
    {o : Outline} {cs : List Text} {hs : List Expr} (h : PlacedOutline placed o cs hs)
    (hstreams : ∀ hole ∈ o.holes, Stream source hole.1 hole.2) :
    ∀ x ∈ Expr.insideAll hs, ExprSettled source x := by
  induction h with
  | last => exact List.forall_mem_nil _
  | hole chunk hts he _ ih =>
    rw [Outline.holes, List.forall_mem_cons] at hstreams
    exact List.forall_mem_append.mpr ⟨hplaced hstreams.1 hts he, ih hstreams.2⟩

/-- The expressions in the holes of a template stand where they should, if those in streams do. -/
theorem settled_template {placed : Expr → List Token → Prop} (hplaced : Settles source placed)
    (hstream : Stream source s p) (hts : tokenize s p = .ok ts) {t : Token} (ht : t ∈ ts)
    (hkind : t.kind = .template) {cs : List Text} {hs : List Expr}
    (h : placedTemplates placed t cs hs) :
    ∀ x ∈ Expr.insideAll hs, ExprSettled source x := by
  obtain ⟨w, hw, houtline⟩ := h
  refine houtline.settled hplaced fun hole hhole ↦ .hole hstream hts ht ?_
  rwa [Token.holes, hkind, hw]

/-- By induction on how deep templates nest. -/
theorem settles_within (n : Nat) : Settles source (PlacedWithin n) := by
  induction n with
  | zero => exact fun _ _ _ _ _ _ h ↦ h.elim
  | succ n ih =>
    intro s p ts e hstream hts h
    exact Placed.settled hstream hts (fun _ _ _ ↦ templatesPlaced_of_within)
      (fun t ht hkind _ _ ↦ settled_template ih hstream hts ht hkind) h List.infix_rfl

theorem settled_of_placed (hstream : Stream source s p) (hts : tokenize s p = .ok ts)
    {phrase : Phrase} (h : Placed templatesPlaced phrase us) (hus : us <:+: ts) :
    ∀ x ∈ phrase.inside, ExprSettled source x := by
  refine h.settled hstream hts (fun _ _ _ h ↦ h) (fun t ht hkind _ _ ↦ ?_) hus
  refine settled_template (fun _ _ _ _ hstream hts h ↦ ?_) hstream hts ht hkind
  obtain ⟨n, h⟩ := h
  exact settles_within n hstream hts h

end Settling

/-- The nodes of a clause, at any depth. -/
def Clause.nodes : Clause → List Node
  | .stmt _ s => .stmt s :: s.nodes
  | .stmts ss | .body _ ss => Stmt.nodesAll ss

section Statements

variable {source : Text} {ts us : List Token} (hts : tokenize source Pos.origin = .ok ts)
include hts

theorem settled_nodes {phrase : Phrase} (h : Placed templatesPlaced phrase us) (hus : us <:+: ts) :
    ∀ x ∈ phrase.inside.flatMap Expr.own, Node.Settled source x :=
  List.forall_mem_flatMap.mpr (settled_of_placed .whole hts h hus)

theorem PlacedOption.settled {value : Option Expr} (h : PlacedOption templatesPlaced value us)
    (hus : us <:+: ts) : ∀ x ∈ Expr.nodes value.toList, Node.Settled source x := by
  cases h with
  | absent => exact List.forall_mem_nil _
  | present h => exact settled_nodes hts (.lastItem h) hus

theorem PlacedVariable.settled {v : Variable} (h : PlacedVariable templatesPlaced v us)
    (hus : us <:+: ts) : ∀ x ∈ Expr.nodes v.value.toList, Node.Settled source x := by
  cases h with
  | declared w n hw hn h =>
    cases h with
    | absent => exact List.forall_mem_nil _
    | present a ha h =>
      exact settled_nodes hts (.lastItem h) (infix_tail (infix_tail (infix_tail hus)))

/-- **The nodes of statements stand where they should.** -/
theorem PlacedStmt.settled {clause : Clause} (h : PlacedStmt templatesPlaced clause us)
    (hus : us <:+: ts) : ∀ x ∈ clause.nodes, Node.Settled source x := by
  have hself : ∀ {ajar : Bool} {s : Stmt} {us : List Token},
      PlacedStmt templatesPlaced (.stmt ajar s) us → us <:+: ts →
      (∀ x ∈ s.nodes, Node.Settled source x) → ∀ x ∈ .stmt s :: s.nodes, Node.Settled source x := by
    intro ajar s us h hus hinside
    exact List.forall_mem_cons.mpr ⟨⟨ts, us, ajar, hts, hus, h, h.pos_eq⟩, hinside⟩
  have hnothing : ∀ x ∈ ([] : List Node), Node.Settled source x := List.forall_mem_nil _
  induction h with
  | lineComment t w ht hw => exact hself (.lineComment t w ht hw) hus hnothing
  | blockComment t w ht hw => exact hself (.blockComment t w ht hw) hus hnothing
  | importFrom i m e w hi hm hw he h =>
    exact hself (.importFrom i m e w hi hm hw he h) hus hnothing
  | exportNames x l r e hx hl hr he h =>
    exact hself (.exportNames x l r e hx hl hr he h) hus hnothing
  | breakLoop w e hw he => exact hself (.breakLoop w e hw he) hus hnothing
  | continueLoop w e hw he => exact hself (.continueLoop w e hw he) hus hnothing
  | exportDefaultFunction q x d hx hd h ih =>
    exact hself (.exportDefaultFunction q x d hx hd h) hus (ih (infix_tail (infix_tail hus)))
  | exportFunction q x hx h ih =>
    exact hself (.exportFunction q x hx h) hus (ih (infix_tail hus))
  | exportVariable x e hx he h =>
    refine hself (.exportVariable x e hx he h) hus ?_
    exact hself (.variable e he h) (infix_tail hus) (h.settled hts (infix_left (infix_tail hus)))
  | exportDefault x d e hx hd he h =>
    exact hself (.exportDefault x d e hx hd he h) hus
      (settled_nodes hts (.lastItem h) (infix_left (infix_tail (infix_tail hus))))
  | «variable» e he h => exact hself (.variable e he h) hus (h.settled hts (infix_left hus))
  | print w e hw he h =>
    exact hself (.print w e hw he h) hus (settled_nodes hts h (infix_left (infix_tail hus)))
  | console w l r e hw hl hr he h =>
    exact hself (.console w l r e hw hl hr he h) hus
      (settled_nodes hts h (infix_left (infix_tail (infix_tail hus))))
  | function f n l r o c hf hn hl hr ho hc hps hss ih =>
    refine hself (.function f n l r o c hf hn hl hr ho hc hps hss) hus (ih ?_)
    have hbody := infix_right (infix_tail (infix_tail (infix_tail hus)))
    exact infix_left (infix_tail (infix_tail hbody))
  | ret w e hw he h =>
    exact hself (.ret w e hw he h) hus (h.settled hts (infix_left (infix_tail hus)))
  | ifThen w l r hw hl hr htest hyes ih =>
    have hinside := infix_tail (infix_tail hus)
    refine hself (.ifThen w l r hw hl hr htest hyes) hus (List.forall_mem_append.mpr ⟨?_, ?_⟩)
    · exact settled_nodes hts (.lastItem htest) (infix_left hinside)
    · exact ih (infix_tail (infix_right hinside))
  | ifElse w l r x hw hl hr hx htest hyes hno ihyes ihno =>
    have hinside := infix_tail (infix_tail hus)
    have hbranches := infix_tail (infix_right hinside)
    refine hself (.ifElse w l r x hw hl hr hx htest hyes hno) hus (List.forall_mem_append.mpr
      ⟨?_, List.forall_mem_append.mpr ⟨?_, ?_⟩⟩)
    · exact settled_nodes hts (.lastItem htest) (infix_left hinside)
    · exact ihyes (infix_left hbranches)
    · exact ihno (infix_tail (infix_right hbranches))
  | forLoop w l m e r hw hl hm he hr hinit htest hupdate hss ih =>
    have hhead := infix_tail (infix_tail hus)
    have hbehind := infix_tail (infix_right hhead)
    have hlast := infix_tail (infix_right hbehind)
    refine hself (.forLoop w l m e r hw hl hm he hr hinit htest hupdate hss) hus
      (List.forall_mem_append.mpr ⟨?_, List.forall_mem_append.mpr ⟨?_,
        List.forall_mem_append.mpr ⟨?_, ?_⟩⟩⟩)
    · cases hinit with
      | nothing => exact hnothing
      | «variable» h =>
        -- The first semicolon of the loop ends the declaration as well.
        exact hself (.variable m hm h) (infix_closed hhead) (h.settled hts (infix_left hhead))
      | expr h => exact settled_nodes hts (.lastItem h) (infix_left hhead)
    · exact htest.settled hts (infix_left hbehind)
    · exact hupdate.settled hts (infix_left hlast)
    · exact ih (infix_tail (infix_right hlast))
  | whileLoop w l r hw hl hr htest hss ih =>
    have hinside := infix_tail (infix_tail hus)
    refine hself (.whileLoop w l r hw hl hr htest hss) hus (List.forall_mem_append.mpr ⟨?_, ?_⟩)
    · exact settled_nodes hts (.lastItem htest) (infix_left hinside)
    · exact ih (infix_tail (infix_right hinside))
  | expr e he h =>
    exact hself (.expr e he h) hus (settled_nodes hts (.lastItem h) (infix_left hus))
  | nil => exact hnothing
  | cons _ _ ihs ihss =>
    exact List.forall_mem_append.mpr ⟨ihs (infix_left hus), ihss (infix_right hus)⟩
  | braces l r hl hr _ ih => exact ih (infix_left (infix_tail hus))
  | single _ _ ih => exact List.forall_mem_append.mpr ⟨ih hus, hnothing⟩

end Statements

/-- **The nodes of a program stand where they should.** -/
theorem settled_of_parse {source : Text} {ts : List Token}
    (hts : tokenize source Pos.origin = .ok ts) {prog : Program} (h : parse ts = .ok prog) :
    ∀ x ∈ prog.nodes, Node.Settled source x := by
  obtain ⟨used, rest, rfl, hend, hplaced⟩ := placed_of_parse (readsAt_readHole _) h
  obtain rfl := eq_nil_of_tokenize hts hend
  rw [List.append_nil] at hts
  exact hplaced.settled hts List.infix_rfl

end Grammar

end Advplc

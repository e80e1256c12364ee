import Advplc.Lowering.Generator
import Advplc.Proofs.Lowering.Session

/-!
# What a walk does

What a walk of a generator does can be said without the walk.  `lay` puts lines down at their own
depths below the current level, and `Does m ls e` says that `m` lays the lines `ls` and then ends as
`e` says.  How this carries over from the parts of a walk to the whole is what the theorems of this
file are about; which lines are laid is the subject of `Advplc.Proofs.Lowering.Traces`.
-/

set_option autoImplicit false

namespace Advplc.Lowering

open Target (Entry)

/-- A line, what it is there for and how many blocks it stands in. -/
structure Line where
  /-- What the line is there for. -/
  site : Site
  /-- The number of blocks around the line. -/
  depth : Nat
  /-- The text of the line. -/
  text : Text
deriving DecidableEq

namespace Line

/-- The line without what it is there for. -/
def entry (l : Line) : Entry := ⟨l.depth, l.text⟩

/-- The line with `d` more blocks around it. -/
def below (d : Nat) (l : Line) : Line := { l with depth := d + l.depth }

/-- The line as it is written, with `indent` in front of it for every block around it. -/
def written (indent : Text) (l : Line) : Site × Text :=
  (l.site, Target.indented indent l.depth l.text)

@[simp] theorem below_below (m n : Nat) (l : Line) : (l.below n).below m = l.below (m + n) := by
  rw [below, below, below, Nat.add_assoc]

@[simp] theorem entry_below_one (l : Line) : (l.below 1).entry = l.entry.deeper := by
  rw [entry, below, Entry.deeper, Nat.add_comm, entry]

end Line

/-- Lines as the inside of a block. -/
def within (ls : List Line) : List Line := ls.map (Line.below 1)

/-- A line at the outermost level. -/
def top (site : Site) (text : Text) : Line := ⟨site, 0, text⟩

theorem map_entry_within (ls : List Line) :
    (within ls).map Line.entry = Target.inside (ls.map Line.entry) := by
  simp only [within, Target.inside, List.map_map, Function.comp_def, Line.entry_below_one]

/-! ## Laying lines -/

namespace Generator

/-- Lays lines at their own depths below the current level. -/
def lay : List Line → Gen Unit
  | [] => pure ()
  | l :: ls => do
    deepen l.depth
    emit l.site l.text
    deepen (-l.depth)
    lay ls

/-- Ends a walk: it is done, or the tree is at fault so many blocks further inside. -/
def finish : Except (Nat × Error) Unit → Gen Unit
  | .ok () => pure ()
  | .error (n, e) => do
    deepen n
    throw (.refused e)

/-- Lays lines, and ends. -/
def put (ls : List Line) (e : Except (Nat × Error) Unit) : Gen Unit := do
  lay ls
  finish e

/-- An end seen from outside the block that it happens in. -/
def outward : Except (Nat × Error) Unit → Except (Nat × Error) Unit :=
  Except.mapError fun (n, e) ↦ (n + 1, e)

/-- The generator has the words for functions and, for `continue`, the update that are given. -/
def Suits (words : Text) (update : Option Text) (g : Generator) : Prop :=
  g.options.functionWords = words ∧ g.update = update

/-- The walk `m` lays the lines `ls`, whatever the generator has written before, and ends in the way
of `e`. -/
def Does (words : Text) (update : Option Text) (m : Gen Unit) (ls : List Line)
    (e : Except (Nat × Error) Unit) : Prop :=
  ∀ g, Suits words update g → m.on g = (put ls e).on g

section

variable {α β : Type} {g : Generator}

theorem on_bind (m : Gen α) (f : α → Gen β) (g : Generator) :
    (m >>= f).on g = match m.on g with
      | (.ok a, g') => (f a).on g'
      | (.error e, g') => (.error e, g') := by
  have hrun : (m >>= f).on g =
      Gen.on (ExceptT.mk ((ExceptT.run m).bind (ExceptT.bindCont f))) g := rfl
  rw [hrun]
  show (let (r, g') := m.on g; (ExceptT.bindCont f r).run g') = _
  rcases m.on g with ⟨_ | a, g'⟩ <;> rfl

/-- A walk that looks at the generator sees the one that it is on. -/
theorem on_get (walk : Generator → Gen α) (g : Generator) :
    (do walk (← get) : Gen α).on g = (walk g).on g := rfl

theorem gen_ext {m m' : Gen α} (h : ∀ g, m.on g = m'.on g) : m = m' := funext h

theorem throw_bind (e : Failure) (f : α → Gen β) : ((throw e : Gen α) >>= f) = throw e := rfl

theorem deepen_deepen (m n : Int) (k : Gen α) :
    (do deepen m; deepen n; k) = (do deepen (m + n); k) :=
  gen_ext fun g ↦ by
    show k.on { g with level := g.level + m + n } = k.on { g with level := g.level + (m + n) }
    rw [Int.add_assoc]

theorem deepen_zero (k : Gen α) : (do deepen 0; k) = k :=
  gen_ext fun g ↦ by
    show k.on { g with level := g.level + 0 } = k.on g
    rw [Int.add_zero]

theorem lay_append (ls ls' : List Line) : lay (ls ++ ls') = (do lay ls; lay ls') := by
  induction ls with
  | nil => rfl
  | cons l ls ih => simp only [List.cons_append, lay, ih, bind_assoc]

/-- Lines may as well be laid from further inside. -/
theorem deepen_lay (ls : List Line) (k : Gen α) :
    (do deepen 1; lay ls; k) = (do lay (within ls); deepen 1; k) := by
  induction ls with
  | nil => simp only [lay, within, List.map_nil, pure_bind]
  | cons l ls ih =>
    have hback (k : Gen α) :
        (do deepen (-l.depth); k) = (do deepen (-(1 + l.depth)); deepen 1; k) := by
      rw [deepen_deepen]
      congr 2
      omega
    calc (do deepen 1; lay (l :: ls); k)
        = (do deepen 1; deepen l.depth; emit l.site l.text; deepen (-l.depth); lay ls; k) := by
          simp only [lay, bind_assoc]
      _ = (do deepen (1 + l.depth); emit l.site l.text; deepen (-(1 + l.depth)); deepen 1
              lay ls; k) := by
          rw [deepen_deepen, hback]
      _ = (do deepen (1 + l.depth); emit l.site l.text; deepen (-(1 + l.depth)); lay (within ls)
              deepen 1; k) := by rw [ih]
      _ = (do lay (within (l :: ls)); deepen 1; k) := by
          simp only [within, List.map_cons, lay, Line.below, Int.natCast_add, Int.natCast_one,
            bind_assoc]

/-- A block of lines is lines one block further inside. -/
theorem block_put (ls : List Line) (e : Except (Nat × Error) Unit) :
    block (put ls e) = put (within ls) (outward e) := by
  cases e with
  | ok u =>
    calc block (put ls (.ok ()))
        = (do deepen 1; lay ls; deepen (-1)) := by simp only [block, put, finish, bind_pure_unit]
      _ = (do lay (within ls); deepen 1; deepen (-1); pure ()) := by
          rw [deepen_lay, bind_pure_unit]
      _ = put (within ls) (.ok ()) := by
          rw [deepen_deepen]; exact congrArg _ (funext fun _ ↦ deepen_zero _)
  | error e =>
    calc block (put ls (.error e))
        = (do deepen 1; lay ls; deepen e.1; throw (.refused e.2)) := by
          simp only [block, put, finish, bind_assoc, throw_bind]
      _ = (do lay (within ls); deepen 1; deepen e.1; throw (.refused e.2)) := by rw [deepen_lay]
      _ = put (within ls) (.error (e.1 + 1, e.2)) := by
          simp only [deepen_deepen, put, finish, Int.natCast_add, Int.natCast_one, Int.add_comm]

theorem put_append (ls ls' : List Line) (e : Except (Nat × Error) Unit) :
    put (ls ++ ls') e = (do lay ls; put ls' e) := by
  rw [put, lay_append, bind_assoc]
  rfl

/-! ## What lines do to a generator -/

/-- A line is written, unless it has to be indented and there is no indentation. -/
theorem on_emit (site : Site) (t : Text) (g : Generator) : (emit site t).on g =
    if t.isEmpty ∨ g.options.indent.isSome then
      (.ok (), { g with
        out := g.out ++ [(site, Target.indented (g.options.indent.getD []) g.level t)] })
    else (.error .noIndent, g) := by
  rw [emit, on_get]
  by_cases ht : t.isEmpty = true
  · rw [if_pos ht, if_pos (.inl ht), Target.indented, if_pos ht]
    rfl
  · rw [if_neg ht]
    cases hindent : g.options.indent with
    | some indent => rw [if_pos (.inr rfl)]; rfl
    | none => rw [if_neg (by simpa using ht)]; rfl

/-- A generator with more lines than another, at a level of its own. -/
structure Grown (g g' : Generator) : Prop where
  options : g'.options = g.options
  updates : g'.updates = g.updates
  out : g.out <+: g'.out

/-- The first of several lines is written, or nothing is. -/
theorem on_lay_cons (l : Line) (ls : List Line) (g : Generator) : (lay (l :: ls)).on g =
    if l.text.isEmpty ∨ g.options.indent.isSome then
      (lay ls).on { g with out := g.out ++
        [(l.site, Target.indented (g.options.indent.getD []) (g.level + l.depth) l.text)] }
    else (.error .noIndent, { g with level := g.level + l.depth }) := by
  have hon : (lay (l :: ls)).on g = (do emit l.site l.text; deepen (-l.depth); lay ls : Gen Unit).on
      { g with level := g.level + l.depth } := rfl
  rw [hon, on_bind, on_emit]
  by_cases hwritten : l.text.isEmpty ∨ g.options.indent.isSome
  · rw [if_pos hwritten, if_pos hwritten]
    show (lay ls).on { g with out := _, level := g.level + l.depth + -l.depth } = _
    rw [Int.add_neg_cancel_right]
  · rw [if_neg hwritten, if_neg hwritten]

/-- Lines are laid behind the lines that are there, and nothing else changes; only that there is no
indentation can stop it. -/
theorem on_lay (ls : List Line) (g : Generator) :
    (lay ls).on g = (.ok (), { g with
        out := g.out ++ ls.map fun l ↦
          (l.site, Target.indented (g.options.indent.getD []) (g.level + l.depth) l.text) }) ∨
      ∃ g', (lay ls).on g = (.error .noIndent, g') ∧ Grown g g' := by
  induction ls generalizing g with
  | nil => exact .inl (by simp only [List.map_nil, List.append_nil]; rfl)
  | cons l ls ih =>
    rw [on_lay_cons]
    split
    · obtain hdone | ⟨g', hstuck, hgrown⟩ := ih { g with out := g.out ++
        [(l.site, Target.indented (g.options.indent.getD []) (g.level + l.depth) l.text)] }
      · left
        rw [hdone, List.append_assoc]
        rfl
      · exact .inr ⟨g', hstuck, hgrown.options, hgrown.updates,
          (List.prefix_append _ _).trans hgrown.out⟩
    · exact .inr ⟨_, rfl, rfl, rfl, List.prefix_rfl⟩

/-- Seen without sites, laying lines is writing them. -/
theorem session_lay (ls : List Line) (g : Generator) :
    (((lay ls).on g).2.session, ((lay ls).on g).1) = g.session.write (ls.map Line.entry) := by
  induction ls generalizing g with
  | nil => exact (Session.write_nil g.session).symm
  | cons l ls ih =>
    rw [on_lay_cons, List.map_cons, Session.write_cons]
    show (_, _) = if l.text.isEmpty ∨ g.options.indent.isSome then _ else _
    split
    · rw [ih, session, List.map_append]
      rfl
    · rfl

/-- Lines are laid alike in any loop. -/
theorem on_lay_updates (ls : List Line) (g : Generator) (us : List (Option Text)) :
    (lay ls).on { g with updates := us } =
      (((lay ls).on g).1, { ((lay ls).on g).2 with updates := us }) := by
  induction ls generalizing g with
  | nil => rfl
  | cons l ls ih =>
    rw [on_lay_cons, on_lay_cons]
    by_cases hwritten : l.text.isEmpty ∨ g.options.indent.isSome
    · rw [if_pos hwritten, if_pos hwritten]
      exact ih { g with out := _ }
    · rw [if_neg hwritten, if_neg hwritten]

theorem on_put (ls : List Line) (e : Except (Nat × Error) Unit) (g : Generator) :
    (put ls e).on g = match (lay ls).on g with
      | (.ok _, g') => (finish e).on g'
      | (.error f, g') => (.error f, g') := by
  rw [put, on_bind]
  rcases (lay ls).on g with ⟨_ | _, g'⟩ <;> rfl

/-- However it ends, laying lines leaves the earlier lines as they are. -/
theorem grown_put (ls : List Line) (e : Except (Nat × Error) Unit) (g : Generator) :
    Grown g ((put ls e).on g).2 := by
  rw [on_put]
  obtain hdone | ⟨g', hstuck, hgrown⟩ := on_lay ls g
  · rw [hdone]
    rcases e with _ | _ <;> exact ⟨rfl, rfl, List.prefix_append _ _⟩
  · rw [hstuck]
    exact hgrown

theorem on_put_updates (ls : List Line) (e : Except (Nat × Error) Unit) (g : Generator)
    (us : List (Option Text)) : (put ls e).on { g with updates := us } =
      (((put ls e).on g).1, { ((put ls e).on g).2 with updates := us }) := by
  rw [on_put, on_put, on_lay_updates]
  rcases (lay ls).on g with ⟨_ | _, g'⟩
  · rfl
  · rcases e with _ | _ <;> rfl

end

/-! ## Walks put together -/

namespace Does

variable {words : Text} {update : Option Text} {m m' : Gen Unit} {ls ls' : List Line}
  {e : Except (Nat × Error) Unit}

theorem nothing : Does words update (pure ()) [] (.ok ()) := fun _ _ ↦ rfl

theorem emit (site : Site) (t : Text) : Does words update (emit site t) [top site t] (.ok ()) := by
  have hput : put [top site t] (.ok ()) = Generator.emit site t := by
    simp only [put, lay, top, finish, Int.natCast_zero, Int.neg_zero, deepen_zero, bind_pure_unit]
  exact fun g _ ↦ congrArg (Gen.on · g) hput.symm

theorem refused (e : Error) : Does words update (throw (.refused e)) [] (.error (0, e)) := by
  intro g _
  exact congrArg (Gen.on · g) (deepen_zero _).symm

/-- A walk after one that comes to its end. -/
theorem followed (h : Does words update m ls (.ok ())) (h' : Does words update m' ls' e) :
    Does words update (do m; m') (ls ++ ls') e := by
  intro g hg
  rw [put_append, on_bind, on_bind, h g hg, on_put]
  obtain hdone | ⟨g', hstuck, -⟩ := on_lay ls g
  · rw [hdone]
    exact h' _ hg
  · rw [hstuck]

/-- What comes after a failure is left out. -/
theorem stuck {x : Nat × Error} (h : Does words update m ls (.error x)) (m' : Gen Unit) :
    Does words update (do m; m') ls (.error x) := by
  intro g hg
  have hstop : (do put ls (.error x); m') = put ls (.error x) := by
    simp only [put, finish, bind_assoc, throw_bind]
  calc (do m; m' : Gen Unit).on g
      = (do put ls (.error x); m' : Gen Unit).on g := by rw [on_bind, on_bind, h g hg]
    _ = (put ls (.error x)).on g := by rw [hstop]

theorem block (h : Does words update m ls e) :
    Does words update (block m) (within ls) (outward e) := by
  intro g hg
  rw [← block_put]
  show (do m; deepen (-1) : Gen Unit).on { g with level := g.level + 1 } =
    (do put ls e; deepen (-1) : Gen Unit).on { g with level := g.level + 1 }
  have hinner := h { g with level := g.level + 1 } hg
  rw [on_bind, on_bind, hinner]

/-- A loop is left as it was entered. -/
theorem inLoop {change : Option Text} (h : Does words change m ls e) :
    Does words update (inLoop change m) ls e := by
  intro g hg
  have hinner := h { g with updates := change :: g.updates } ⟨hg.1, rfl⟩
  rw [on_put_updates] at hinner
  have hupdates := (grown_put ls e g).updates
  show ((m.on { g with updates := change :: g.updates }).1,
    { (m.on { g with updates := change :: g.updates }).2 with
      updates := (m.on { g with updates := change :: g.updates }).2.updates.tail }) = _
  rw [hinner]
  show (((put ls e).on g).1, { ((put ls e).on g).2 with updates := g.updates }) = _
  rw [← hupdates]

end Does

end Generator

end Advplc.Lowering

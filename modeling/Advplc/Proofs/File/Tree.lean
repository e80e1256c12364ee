import Advplc.File.Tree

/-!
# Paths and directories of a tree

What it means that a tree has changed, and what making directories changes.

* `Tree.Same` says that two trees have the same nodes at the same places, `Tree.Adds` that one has
  nothing more than some new directories on the way to a path.
* Where a path leads depends only on the directories on its way: a change that keeps the directories
  keeps where paths lead (`Tree.find_of_directories`).  What a name means in a directory does not
  depend on the tree at all (`Tree.find_child_congr`).
* `Makes` is the contract of `makeDirectories`.  The proof of `makes_makeDirectories` goes up to the
  first directory that exists, and comes down again by `Makes.of_parent`.
-/

set_option autoImplicit false

namespace Advplc

/-- A joined text without its last part is what it begins with. -/
theorem Text.joinWith_dropLast (sep : Text) (ts : List Text) :
    joinWith sep ts.dropLast <+: joinWith sep ts := by
  induction ts with
  | nil => exact List.prefix_refl _
  | cons t ts ih =>
    rcases ts with _ | ⟨t', ts⟩
    · exact List.nil_prefix
    · rcases ts with _ | ⟨t'', ts⟩
      · simp [joinWith, List.intercalate]
      · simpa [joinWith, List.intercalate_cons_cons] using ih

theorem Utf8.size_append (s t : Text) : size (s ++ t) = size s + size t := by
  induction s with
  | nil => simp [size]
  | cons c s ih => simp [size, ih, Nat.add_assoc]

theorem Utf8.size_le_of_prefix {s t : Text} (h : s <+: t) : size s ≤ size t := by
  obtain ⟨rest, rfl⟩ := h
  rw [Utf8.size_append]
  exact Nat.le_add_right _ _

namespace File

namespace Path

/-- Whether `a` is `p` or a directory on the way to it. -/
def Above (a p : Path) : Prop := a.root = p.root ∧ a.parts <+: p.parts

theorem above_self (p : Path) : p.Above p := ⟨rfl, p.parts.prefix_refl⟩

theorem above_parent (p : Path) : p.parent.Above p := ⟨rfl, p.parts.dropLast_prefix⟩

theorem Above.trans {a b p : Path} (hab : a.Above b) (hb : b.Above p) : a.Above p :=
  ⟨hab.1.trans hb.1, hab.2.trans hb.2⟩

/-- Whether a file system takes a path at all. -/
def Fits (p : Path) : Prop :=
  (p.parts.any fun name ↦ name.contains ('\x00' : CodePoint)) = false ∧
    Utf8.size p.label ≤ Tree.longestPath

theorem Fits.parent {p : Path} (h : p.Fits) : p.parent.Fits := by
  refine ⟨?_, ?_⟩
  · refine List.any_eq_false.mpr fun name hname ↦ ?_
    exact List.any_eq_false.mp h.1 name (p.parts.dropLast_subset hname)
  · rw [label]
    split
    · decide
    · rename_i hparent
      have hp : ¬(p.root.isEmpty ∧ p.parts.isEmpty) := by
        rintro ⟨hroot, hparts⟩
        exact hparent ⟨hroot, by simp [Path.parent, List.isEmpty_iff.mp hparts]⟩
      have hlabel := h.2
      rw [label, if_neg hp] at hlabel
      have hprefix :=
        (List.prefix_append_right_inj p.root).mpr (Text.joinWith_dropLast "/" p.parts)
      exact Nat.le_trans (Utf8.size_le_of_prefix hprefix) hlabel

end Path

namespace Tree

variable {t u v : Tree} {p : Path} {q place here : Place} {names : List Text} {name : Text}

/-! ## Changes -/

/-- The trees have the same nodes at the same places. -/
def Same (t u : Tree) : Prop := u.home = t.home ∧ ∀ q, u.get? q = t.get? q

/-- Every directory of `t` is one of `u`. -/
def KeepsDirectories (t u : Tree) : Prop :=
  u.home = t.home ∧ ∀ q, t.get? q = some .directory → u.get? q = some .directory

theorem isPrefixOf_home (h : t.get? q ≠ some .directory) : q.isPrefixOf t.home = false := by
  refine Bool.eq_false_iff.mpr fun hq ↦ h ?_
  rw [get?, if_pos hq]

@[simp]
theorem home_set (t : Tree) (q : Place) (n : Node) : (t.set q n).home = t.home := by
  rw [set]
  split <;> rfl

/-- A node that is put where no directory stands is the only change. -/
theorem get?_set (h : t.get? q ≠ some .directory) (n : Node) (q' : Place) :
    (t.set q n).get? q' = if q' = q then some n else t.get? q' := by
  by_cases hq : q' = q
  · rw [if_pos hq, hq, get?_set_self t (isPrefixOf_home h)]
  · rw [if_neg hq, get?_set_of_ne t hq]

/-- The second of two nodes that are put at one place counts. -/
theorem set_set (t : Tree) (q : Place) (m n : Node) : (t.set q m).set q n = t.set q n := by
  by_cases h : q.isPrefixOf t.home
  · rw [set, dif_pos (by rwa [home_set]), set, dif_pos h, set, dif_pos h]
  · have h' : ¬ q.isPrefixOf (t.set q m).home := by rwa [home_set]
    rw [set, dif_neg h', set.eq_def t q n, dif_neg h]
    simp [set, h]

theorem keepsDirectories_set (h : t.get? q ≠ some .directory) (n : Node) :
    t.KeepsDirectories (t.set q n) := by
  refine ⟨home_set t q n, fun q' hq' ↦ ?_⟩
  have hne : q' ≠ q := fun heq ↦ h (heq ▸ hq')
  rw [get?_set h, if_neg hne, hq']

/-! ## Where paths lead -/

/-- Where the names of a path are taken from. -/
def origin (t : Tree) (p : Path) : Place := if p.root.isEmpty then t.home else []

/-- Behind a name that others follow, a directory must be. -/
theorem follow_cons_ne (hname : name ≠ "..") (hsize : Utf8.size name ≤ longestName)
    (hnames : names ≠ []) : t.follow here (name :: names) =
      match t.get? (here ++ [name]) with
      | some .directory => t.follow (here ++ [name]) names
      | some (.file _) => .error .notDirectory
      | none => .error .missing := by
  obtain ⟨next, rest, rfl⟩ := List.exists_cons_of_ne_nil hnames
  rw [follow, if_neg hname]
  exact if_neg (Nat.not_lt.mpr hsize)

/-- Where a way leads is settled by the directories on it.  What it leads to need not be one. -/
theorem follow_of_directories (h : t.KeepsDirectories u)
    (hfollow : t.follow here names = .ok place) : u.follow here names = .ok place := by
  fun_induction t.follow here names with
  | case1 => exact hfollow
  | case2 here rest ih => rw [follow, if_pos rfl, ih hfollow]
  | case3 => exact absurd hfollow (by simp)
  | case4 here name hname hsize place => rwa [follow, if_neg hname, if_neg hsize]
  | case5 here name hname hsize place next rest hplace ih =>
    rw [follow_cons_ne hname (Nat.not_lt.mp hsize) (by simp), h.2 place hplace]
    exact ih hfollow
  | case6 => exact absurd hfollow (by simp)
  | case7 => exact absurd hfollow (by simp)

theorem follow_singleton (hname : name ≠ "..") (hsize : Utf8.size name ≤ longestName) :
    t.follow here [name] = .ok (here ++ [name]) := by
  rw [follow, if_neg hname, if_neg (Nat.not_lt.mpr hsize)]

theorem follow_cons_long (hname : name ≠ "..") (hsize : longestName < Utf8.size name) :
    t.follow here (name :: names) = .error .nameTooLong := by
  rw [follow, if_neg hname, if_pos hsize]

theorem follow_dots : t.follow here (".." :: names) = t.follow here.dropLast names := by
  rw [follow, if_pos rfl]

/-- A single name is not looked up, so it cannot be missing on the way. -/
theorem follow_singleton_ne_missing (here : Place) (name : Text) :
    t.follow here [name] ≠ .error .missing := by
  by_cases hname : name = ".."
  · subst hname
    rw [follow_dots, follow]
    simp
  by_cases hsize : longestName < Utf8.size name
  · rw [follow_cons_long hname hsize]
    simp
  · rw [follow_singleton hname (Nat.not_lt.mp hsize)]
    simp

/-- A name behind others is looked up where the others lead, if a directory is there.  (Behind no
name and behind a double point there is nothing to check.) -/
theorem follow_concat (t : Tree) (here : Place) (names : List Text) (name : Text) :
    (∃ r, t.follow here names = .error r ∧ t.follow here (names ++ [name]) = .error r) ∨
      ∃ o, t.follow here names = .ok o ∧
        (t.follow here (names ++ [name]) = t.follow o [name] ∨
          t.get? o = none ∧ t.follow here (names ++ [name]) = .error .missing ∨
          (∃ content, t.get? o = some (.file content)) ∧
            t.follow here (names ++ [name]) = .error .notDirectory) := by
  induction names generalizing here with
  | nil => exact .inr ⟨here, rfl, .inl rfl⟩
  | cons first names ih =>
    rw [List.cons_append]
    by_cases hfirst : first = ".."
    · subst hfirst
      rw [follow_dots, follow_dots]
      exact ih here.dropLast
    by_cases hsize : longestName < Utf8.size first
    · exact .inl ⟨_, follow_cons_long hfirst hsize, follow_cons_long hfirst hsize⟩
    have hsize := Nat.not_lt.mp hsize
    rw [follow_cons_ne hfirst hsize (List.concat_ne_nil name names)]
    by_cases hnames : names = []
    · subst hnames
      refine .inr ⟨_, follow_singleton hfirst hsize, ?_⟩
      split
      · exact .inl rfl
      · exact .inr (.inr ⟨⟨_, ‹_›⟩, rfl⟩)
      · exact .inr (.inl ⟨‹_›, rfl⟩)
    · rw [follow_cons_ne hfirst hsize hnames]
      split
      · exact ih _
      · exact .inl ⟨_, rfl, rfl⟩
      · exact .inl ⟨_, rfl, rfl⟩

/-- A path is followed, or it is refused for its form alone. -/
theorem find_cases (t : Tree) (p : Path) :
    p.Fits ∧ t.find p = t.follow (t.origin p) p.parts ∨
      t.find p = .error .nullCharacter ∨ t.find p = .error .nameTooLong := by
  rw [find]
  split
  · exact .inr (.inl rfl)
  · split
    · exact .inr (.inr rfl)
    · exact .inl ⟨⟨Bool.eq_false_iff.mpr ‹_›, Nat.not_lt.mp ‹_›⟩, rfl⟩

theorem find_of_fits (h : p.Fits) : t.find p = t.follow (t.origin p) p.parts := by
  rw [find, if_neg (Bool.eq_false_iff.mp h.1), if_neg (Nat.not_lt.mpr h.2), origin]

theorem find_of_directories (h : t.KeepsDirectories u) (hfind : t.find p = .ok place) :
    u.find p = .ok place := by
  rcases t.find_cases p with ⟨hfits, hfollow⟩ | hnone | hnone
  · rw [hfollow] at hfind
    rw [find_of_fits hfits, origin, h.1]
    exact follow_of_directories h hfind
  · exact absurd (hnone.symm.trans hfind) (by simp)
  · exact absurd (hnone.symm.trans hfind) (by simp)

/-- A path leads to a node at a place. -/
def Leads (t : Tree) (p : Path) (q : Place) (n : Node) : Prop :=
  t.find p = .ok q ∧ t.get? q = some n

theorem Leads.of_directories (h : t.Leads p q .directory) (hu : t.KeepsDirectories u) :
    u.Leads p q .directory :=
  ⟨find_of_directories hu h.1, hu.2 q h.2⟩

theorem Leads.node? {n : Node} (h : t.Leads p q n) : t.node? p = .ok (some n) := by
  rw [Tree.node?, h.1, ← h.2]

/-- A path leads to what was put where it leads. -/
theorem leads_set (hfind : t.find p = .ok q) (hget : t.get? q ≠ some .directory) (n : Node) :
    (t.set q n).Leads p q n := by
  refine ⟨find_of_directories (keepsDirectories_set hget n) hfind, ?_⟩
  rw [get?_set hget, if_pos rfl]

/-- In `u` there is a directory on the way to `p` where there is nothing in `t`. -/
structure MadeFor (t u : Tree) (p : Path) (q : Place) : Prop where
  nothing : t.get? q = none
  directory : u.get? q = some .directory
  above : ∃ a : Path, a.Above p ∧ u.find a = .ok q

theorem MadeFor.of_directories (h : t.MadeFor u p q) (hu : u.KeepsDirectories v) :
    t.MadeFor v p q := by
  obtain ⟨a, ha, hfind⟩ := h.above
  exact ⟨h.nothing, hu.2 q h.directory, a, ha, find_of_directories hu hfind⟩

/-- The tree `u` is `t` with at most some new directories, all of them on the way to `p`. -/
structure Adds (t u : Tree) (p : Path) : Prop where
  home : u.home = t.home
  node : ∀ q, u.get? q = t.get? q ∨ t.MadeFor u p q

theorem Adds.refl (t : Tree) (p : Path) : t.Adds t p := ⟨rfl, fun _ ↦ .inl rfl⟩

theorem Adds.keepsDirectories (h : t.Adds u p) : t.KeepsDirectories u := by
  refine ⟨h.home, fun q hq ↦ ?_⟩
  rcases h.node q with hsame | hmade
  · rw [hsame, hq]
  · exact hmade.directory

theorem Adds.trans {a : Path} (h : t.Adds u a) (ha : a.Above p) (h' : u.Adds v p) : t.Adds v p := by
  refine ⟨h'.home.trans h.home, fun q ↦ ?_⟩
  rcases h.node q with hsame | hmade
  · rcases h'.node q with hsame' | hmade'
    · exact .inl (hsame'.trans hsame)
    · exact .inr ⟨hsame ▸ hmade'.nothing, hmade'.directory, hmade'.above⟩
  · obtain ⟨hnothing, hdir, b, hb, hfind⟩ := hmade.of_directories h'.keepsDirectories
    exact .inr ⟨hnothing, hdir, b, hb.trans ha, hfind⟩

/-- Files are neither made nor lost. -/
theorem Adds.file_iff {content : Bytes} (h : t.Adds u p) :
    u.get? q = some (.file content) ↔ t.get? q = some (.file content) := by
  rcases h.node q with hsame | hmade
  · rw [hsame]
  · simp [hmade.nothing, hmade.directory]

/-- Nothing is where a path leads, or on the way there. -/
def Lacks (t : Tree) (p : Path) : Prop :=
  t.find p = .error .missing ∨ ∃ place, t.find p = .ok place ∧ t.get? place = none

theorem Leads.not_lacks {n : Node} (h : t.Leads p q n) : ¬ t.Lacks p := by
  rintro (hmissing | ⟨place, hplace, hnone⟩)
  · exact absurd (hmissing.symm.trans h.1) (by simp)
  · have hq : q = place := Except.ok.inj (h.1.symm.trans hplace)
    exact absurd (h.2.symm.trans (hq ▸ hnone)) (by simp)

/-- If something is missing on the way to a path, nothing is where its parent leads. -/
theorem find_parent_of_missing (h : t.find p = .error .missing) :
    p.parts ≠ [] ∧ t.Lacks p.parent := by
  rcases t.find_cases p with ⟨hfits, hfollow⟩ | hnone | hnone
  · rw [hfollow] at h
    have hparts : p.parts ≠ [] := by
      intro hnil
      rw [hnil, follow] at h
      exact absurd h (by simp)
    refine ⟨hparts, ?_⟩
    have hparent := find_of_fits (t := t) hfits.parent
    rw [← List.dropLast_concat_getLast hparts] at h
    rcases t.follow_concat (t.origin p) p.parts.dropLast (p.parts.getLast hparts) with
      ⟨r, hr, hall⟩ | ⟨o, ho, hall | ⟨hget, _⟩ | ⟨_, hall⟩⟩
    · rw [hall] at h
      exact .inl (hparent.trans (hr.trans h))
    · exact absurd (hall.symm.trans h) (follow_singleton_ne_missing o _)
    · exact .inr ⟨o, hparent.trans ho, hget⟩
    · exact absurd (hall.symm.trans h) (by simp)
  · exact absurd (hnone.symm.trans h) (by simp)
  · exact absurd (hnone.symm.trans h) (by simp)

/-- What a name in a directory means is found out from the directory on. -/
theorem find_child_of_fits (h : t.Leads p q .directory) (hfits : (p.child name).Fits) :
    t.find (p.child name) = t.follow q [name] := by
  have hparent : (p.child name).parent = p := by simp [Path.child, Path.parent]
  have hfind := find_of_fits (t := t) (hparent ▸ hfits.parent)
  rw [h.1] at hfind
  rw [find_of_fits hfits]
  rcases t.follow_concat (t.origin p) p.parts name with ⟨r, hr, _⟩ | ⟨o, ho, hall⟩
  · exact absurd (hfind.trans hr) (by simp)
  · have hplace : q = o := Except.ok.inj (hfind.trans ho)
    subst hplace
    rcases hall with hall | ⟨hget, _⟩ | ⟨⟨content, hget⟩, _⟩
    · exact hall
    · exact absurd (h.2.symm.trans hget) (by simp)
    · exact absurd (h.2.symm.trans hget) (by simp)

/-- A name in a directory is looked up in the same way in every tree that has the directory. -/
theorem find_child_congr (ht : t.Leads p q .directory) (hu : u.Leads p q .directory) (name : Text) :
    t.find (p.child name) = u.find (p.child name) := by
  by_cases hfits : (p.child name).Fits
  · rw [find_child_of_fits ht hfits, find_child_of_fits hu hfits, follow, follow]
    rfl
  · rw [find, find]
    split
    · rfl
    · split
      · rfl
      · rename_i hnull hsize
        exact absurd ⟨Bool.eq_false_iff.mpr hnull, Nat.not_lt.mp hsize⟩ hfits

theorem eq_of_find_child (h : t.Leads p q .directory) (hname : name ≠ "..")
    (hfind : t.find (p.child name) = .ok place) : place = q ++ [name] := by
  rcases t.find_cases (p.child name) with ⟨hfits, _⟩ | hnone | hnone
  · rw [find_child_of_fits h hfits] at hfind
    by_cases hsize : longestName < Utf8.size name
    · rw [follow_cons_long hname hsize] at hfind
      exact absurd hfind (by simp)
    · rw [follow_singleton hname (Nat.not_lt.mp hsize)] at hfind
      exact (Except.ok.inj hfind).symm
  · exact absurd (hnone.symm.trans hfind) (by simp)
  · exact absurd (hnone.symm.trans hfind) (by simp)

theorem node?_eq_some {n : Node} (h : t.node? p = .ok (some n)) :
    ∃ place, t.Leads p place n := by
  rw [node?] at h
  split at h
  · rename_i place hplace
    exact ⟨place, hplace, Except.ok.inj h⟩
  · split at h
    · exact absurd (Except.ok.inj h) (by simp)
    · exact absurd h (by simp)

theorem isDirectory_eq_true (h : t.isDirectory p = .ok true) :
    ∃ place, t.Leads p place .directory := by
  refine node?_eq_some ?_
  rw [isDirectory] at h
  rcases hnode : t.node? p with r | node
  · rw [hnode] at h
    exact absurd h (by simp [Except.map])
  · rw [hnode] at h
    have : (decide (node = some .directory)) = true := Except.ok.inj h
    rw [of_decide_eq_true this]

theorem makeDirectory_eq_ok (h : t.makeDirectory p = .ok u) :
    ∃ q, t.find p = .ok q ∧ t.get? q = none ∧ u = t.set q .directory := by
  rcases hfind : t.find p with r | q
  · rw [makeDirectory, hfind] at h
    exact absurd h (by simp [bind, Except.bind])
  · rcases hget : t.get? q with _ | n
    · refine ⟨q, rfl, hget, ?_⟩
      simpa [makeDirectory, hfind, hget, bind, Except.bind, pure, Except.pure] using h.symm
    · rw [makeDirectory, hfind] at h
      simp [bind, Except.bind, hget] at h

/-- What is missing on the way is a reason to make it; any other refusal is final. -/
theorem makeDirectory_eq_error {r : Refusal} (h : t.makeDirectory p = .error r) :
    r = .missing ∧ t.find p = .error .missing ∨ r ≠ .missing ∧ ¬ t.Lacks p := by
  rw [makeDirectory] at h
  rcases hfind : t.find p with r' | q
  · have hr : r' = r := by simpa [hfind, bind, Except.bind] using h
    subst hr
    by_cases hr : r' = .missing
    · exact .inl ⟨hr, by rw [hr]⟩
    · exact .inr ⟨hr, by simp [Lacks, hfind, hr]⟩
  · rcases hget : t.get? q with _ | n
    · simp [hfind, hget, bind, Except.bind, pure, Except.pure] at h
    · have hr : Refusal.occupied = r := by simpa [hfind, hget, bind, Except.bind] using h
      exact .inr ⟨hr ▸ by simp, by simp [Lacks, hfind, hget]⟩

end Tree

/-! ## Runs on a tree -/

section Runs

variable {α β : Type} {t u v : Tree} {p : Path} {r : Refusal}

theorem run_bind {x : StateM Tree α} {a : α} (h : x.run t = (a, u)) (f : α → StateM Tree β) :
    (x >>= f).run t = (f a).run u := by
  show (f (x.run t).1).run (x.run t).2 = (f a).run u
  rw [h]

/-- In a tree, making a directory succeeds with a new tree or fails with the old one. -/
theorem run_makeDirectory_ok (h : t.makeDirectory p = .ok u) :
    (FileSystem.makeDirectory p : StateM Tree _).run t = (.ok (), u) := by
  show change (·.makeDirectory p) t = _
  rw [change, h]

theorem run_makeDirectory_error (h : t.makeDirectory p = .error r) :
    (FileSystem.makeDirectory p : StateM Tree _).run t = (.error r, t) := by
  show change (·.makeDirectory p) t = _
  rw [change, h]

/-- A refusal counts unless there is a directory after all.  It only looks. -/
theorem run_unlessDirectory (p : Path) (r : Refusal) (t : Tree) :
    ∃ s, (unlessDirectory p r : StateM Tree _).run t = (s, t) ∧
      (s = .ok () → ∃ q, t.Leads p q .directory) := by
  have hlook : (FileSystem.isDirectory p : StateM Tree _).run t = (t.isDirectory p, t) := rfl
  rw [unlessDirectory, run_bind hlook]
  split
  · rename_i hdir
    exact ⟨_, rfl, fun _ ↦ Tree.isDirectory_eq_true hdir⟩
  · exact ⟨_, rfl, fun h ↦ absurd h (by simp)⟩

/-- What making the directory at `p` does to the tree `t`, with the answer `s`: -/
structure Makes (t : Tree) (p : Path) (s : Except SystemError Unit) (u : Tree) : Prop where
  /-- at most, directories on the way to `p` are added; -/
  adds : t.Adds u p
  /-- if it succeeds, the directory is there; -/
  directory : s = .ok () → ∃ q, u.Leads p q .directory
  /-- if something is there already, nothing happens; -/
  unchanged : ¬ t.Lacks p → u = t
  /-- if nothing is there, something happens, whether or not it succeeds. -/
  changed : t.Lacks p → ∃ q, t.get? q = none ∧ u.get? q = some .directory

theorem makes_of_makeDirectory (h : t.makeDirectory p = .ok u) : Makes t p (.ok ()) u := by
  obtain ⟨q, hfind, hget, rfl⟩ := Tree.makeDirectory_eq_ok h
  have hne : t.get? q ≠ some .directory := by simp [hget]
  have hleads := Tree.leads_set hfind hne .directory
  refine ⟨⟨Tree.home_set t q _, fun q' ↦ ?_⟩, fun _ ↦ ⟨q, hleads⟩,
    fun hlacks ↦ absurd (.inr ⟨q, hfind, hget⟩) hlacks, fun _ ↦ ⟨q, hget, hleads.2⟩⟩
  by_cases hq : q' = q
  · subst hq
    exact .inr ⟨hget, hleads.2, p, p.above_self, hleads.1⟩
  · exact .inl (Tree.get?_set_of_ne t hq _)

/-- Unless something is missing on the way, the first attempt decides. -/
theorem makes_of_find_ne_missing (n : Nat) (h : t.find p ≠ .error .missing) :
    Makes t p ((makeDirectoriesAt n p : StateM Tree _).run t).1
      ((makeDirectoriesAt n p : StateM Tree _).run t).2 := by
  unfold makeDirectoriesAt
  rcases hmake : t.makeDirectory p with r | u
  · rw [run_bind (run_makeDirectory_error hmake)]
    obtain ⟨s, hrun, hdir⟩ := run_unlessDirectory p r t
    rcases Tree.makeDirectory_eq_error hmake with ⟨_, hfind⟩ | ⟨hr, hlacks⟩
    · exact absurd hfind h
    have hmakes : Makes t p s t := ⟨.refl t p, hdir, fun _ ↦ rfl, fun hl ↦ absurd hl hlacks⟩
    cases r with
    | missing => exact absurd rfl hr
    | _ => exact hrun ▸ hmakes
  · rw [run_bind (run_makeDirectory_ok hmake)]
    exact makes_of_makeDirectory hmake

/-- What is missing on the way is made first. -/
theorem Makes.of_parent {r s : Except SystemError Unit} (hmissing : t.find p = .error .missing)
    (hparent : Makes t p.parent r u) (hadds : u.Adds v p)
    (hdir : s = .ok () → ∃ q, v.Leads p q .directory) : Makes t p s v where
  adds := hparent.adds.trans p.above_parent hadds
  directory := hdir
  unchanged h := absurd (.inl hmissing) h
  changed _ := by
    obtain ⟨q, hnone, hq⟩ := hparent.changed (Tree.find_parent_of_missing hmissing).2
    exact ⟨q, hnone, hadds.keepsDirectories.2 q hq⟩

theorem makes_makeDirectoriesAt (n : Nat) (p : Path) (hn : p.parts.length ≤ n) (t : Tree) :
    Makes t p ((makeDirectoriesAt n p : StateM Tree _).run t).1
      ((makeDirectoriesAt n p : StateM Tree _).run t).2 := by
  induction n generalizing p with
  | zero =>
    refine makes_of_find_ne_missing 0 fun hfind ↦ (Tree.find_parent_of_missing hfind).1 ?_
    exact List.length_eq_zero_iff.mp (Nat.le_zero.mp hn)
  | succ n ih =>
    by_cases hfind : t.find p = .error .missing
    · -- First the parent is made, and then the directory again, which may fail for another reason.
      have hmake : t.makeDirectory p = .error .missing := by rw [Tree.makeDirectory, hfind]; rfl
      have hparent := ih p.parent (by rw [Path.parent, List.length_dropLast]; omega)
      rcases hrun : (makeDirectoriesAt n p.parent : StateM Tree _).run t with ⟨r, u⟩
      rw [hrun] at hparent
      rw [makeDirectoriesAt, run_bind (run_makeDirectory_error hmake)]
      simp only
      rw [run_bind hrun]
      rcases r with e | _
      · exact hparent.of_parent hfind (.refl u p) fun h ↦ absurd h (by simp)
      simp only
      rcases hagain : u.makeDirectory p with r | v
      · rw [run_bind (run_makeDirectory_error hagain)]
        obtain ⟨s, hs, hdir⟩ := run_unlessDirectory p r u
        simp only [hs]
        exact hparent.of_parent hfind (.refl u p) hdir
      · rw [run_bind (run_makeDirectory_ok hagain)]
        have hmakes := makes_of_makeDirectory hagain
        exact hparent.of_parent hfind hmakes.adds hmakes.directory
    · exact makes_of_find_ne_missing _ hfind

theorem makes_makeDirectories (p : Path) (t : Tree) :
    Makes t p ((makeDirectories p : StateM Tree _).run t).1
      ((makeDirectories p : StateM Tree _).run t).2 :=
  makes_makeDirectoriesAt p.parts.length p (Nat.le_refl _) t

end Runs

end File

end Advplc

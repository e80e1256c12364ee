import Advplc.File.System

/-!
# Trees of files

A `Tree` is a file system as a value: files and directories at their places below the root, one of
which is the working directory.  There are no links and no permissions, so a path leads to one place
or nowhere, and a double point leads to the directory that a directory lies in.  The root lies in
itself.
-/

set_option autoImplicit false

namespace Advplc.File

/-- A place: the names on the way to it from the root. -/
abbrev Place := List Text

/-- What stands at a place. -/
inductive Node where
  | file (content : Bytes)
  | directory
deriving DecidableEq

/-- A file system. -/
structure Tree where
  /-- The working directory. -/
  home : Place := []
  /-- What stands where. -/
  nodes : List (Place × Node) := []
  /-- At most one node stands at a place. -/
  distinct : (nodes.map Prod.fst).Nodup := by simp
  /-- The working directory and the directories that it lies in are there without being listed. -/
  unlisted : ∀ entry ∈ nodes, entry.1.isPrefixOf home = false := by simp

namespace Tree

/-- What stands at a place. -/
def get? (t : Tree) (p : Place) : Option Node :=
  if p.isPrefixOf t.home then some .directory else t.nodes.lookup p

/-- The tree with a node at a place, instead of what stands there.  The working directory and the
directories that it lies in stay where they are. -/
def set (t : Tree) (p : Place) (n : Node) : Tree :=
  if h : p.isPrefixOf t.home then t
  else
    { t with
      nodes := (p, n) :: t.nodes.filter fun entry ↦ entry.1 ≠ p
      distinct := by
        have hothers : p ∉ (t.nodes.filter fun entry ↦ entry.1 ≠ p).map Prod.fst := by simp
        exact List.nodup_cons.mpr ⟨hothers, t.distinct.sublist (List.filter_sublist.map _)⟩
      unlisted := by
        intro entry hentry
        obtain rfl | hentry := List.mem_cons.mp hentry
        · exact Bool.eq_false_iff.mpr h
        · exact t.unlisted entry ((List.mem_filter.mp hentry).1) }

theorem lookup_filter_ne {p q : Place} (h : q ≠ p) (nodes : List (Place × Node)) :
    (nodes.filter fun entry ↦ entry.1 ≠ p).lookup q = nodes.lookup q := by
  induction nodes with
  | nil => rfl
  | cons entry nodes ih =>
    obtain ⟨place, node⟩ := entry
    rw [List.lookup_cons, List.filter_cons]
    by_cases hp : place = p
    · have hq : (q == place) = false := by simp [hp, h]
      rw [if_neg (by simp [hp]), hq, ih]
    · rw [if_pos (by simp [hp]), List.lookup_cons, ih]

/-- The node that was put at a place is the one that stands there. -/
theorem get?_set_self (t : Tree) {p : Place} (h : p.isPrefixOf t.home = false) (n : Node) :
    (t.set p n).get? p = some n := by
  rw [set, dif_neg (Bool.eq_false_iff.mp h)]
  simp [get?, h]

/-- A node that was put at a place changes no other place. -/
theorem get?_set_of_ne (t : Tree) {p q : Place} (h : q ≠ p) (n : Node) :
    (t.set p n).get? q = t.get? q := by
  have hq : (q == p) = false := by simp [h]
  rw [set]
  split
  · rfl
  · simp only [get?, List.lookup_cons, hq, lookup_filter_ne h]

/-- The most bytes of a name. -/
def longestName : Nat := 255

/-- The most bytes of a path. -/
def longestPath : Nat := 4095

/-- Where names lead from the directory `here`.  All but the last must be directories. -/
def follow (t : Tree) (here : Place) : List Text → Except Refusal Place
  | [] => .ok here
  | name :: rest =>
    if name = ".." then follow t here.dropLast rest
    else if longestName < Utf8.size name then .error .nameTooLong
    else
      let place := here ++ [name]
      match rest with
      | [] => .ok place
      | next :: rest =>
        match t.get? place with
        | some .directory => follow t place (next :: rest)
        | some (.file _) => .error .notDirectory
        | none => .error .missing

/-- Where a path leads. -/
def find (t : Tree) (p : Path) : Except Refusal Place :=
  if p.parts.any fun name ↦ name.contains ('\x00' : CodePoint) then .error .nullCharacter
  else if longestPath < Utf8.size p.label then .error .nameTooLong
  else t.follow (if p.root.isEmpty then t.home else []) p.parts

/-- What a path leads to.  That there is nothing is no reason to refuse. -/
def node? (t : Tree) (p : Path) : Except Refusal (Option Node) :=
  match t.find p with
  | .ok place => .ok (t.get? place)
  | .error r => if r.meansNothing then .ok none else .error r

/-- Whether a node is a file. -/
def isFileNode : Option Node → Bool
  | some (.file _) => true
  | _ => false

/-- Whether a path leads to a file. -/
def isFile (t : Tree) (p : Path) : Except Refusal Bool := (t.node? p).map isFileNode

/-- Whether a path leads to a directory. -/
def isDirectory (t : Tree) (p : Path) : Except Refusal Bool :=
  (t.node? p).map fun node ↦ node = some .directory

/-- The content of the file that a path leads to, or nothing. -/
def content (t : Tree) (p : Path) : Bytes :=
  match t.node? p with
  | .ok (some (.file content)) => content
  | _ => []

/-- The next name on the way from a place to the working directory, if there is one. -/
def homeward (t : Tree) (place : Place) : Option Text :=
  if place.isPrefixOf t.home then t.home[place.length]? else none

/-- The names in a directory. -/
def names (t : Tree) (p : Path) : List Text :=
  match t.find p with
  | .ok place => (t.homeward place).toList ++ t.nodes.filterMap fun entry ↦
      if entry.1.dropLast = place then entry.1.getLast? else none
  | .error _ => []

/-- The tree with a new directory. -/
def makeDirectory (t : Tree) (p : Path) : Except Refusal Tree := do
  let place ← t.find p
  match t.get? place with
  | some _ => .error .occupied
  | none => return t.set place .directory

/-- The tree with an empty file. -/
def openFile (t : Tree) (p : Path) : Except Refusal Tree := do
  let place ← t.find p
  match t.get? place with
  | some .directory => .error .isDirectory
  | _ => return t.set place (.file [])

/-- The tree with a file filled. -/
def fill (t : Tree) (p : Path) (content : Bytes) : Tree :=
  match t.find p with
  | .ok place => t.set place (.file content)
  | .error _ => t

/-- What lies in the working directory, with the way to it from there. -/
def listing (t : Tree) : List (Place × Node) :=
  t.nodes.filterMap fun entry ↦
    if t.home.isPrefixOf entry.1 then some (entry.1.drop t.home.length, entry.2) else none

end Tree

/-- Replaces the tree by the result of a change, if there is one. -/
def change (f : Tree → Except Refusal Tree) : StateM Tree (Except Refusal Unit) := fun t ↦
  match f t with
  | .ok t' => (.ok (), t')
  | .error r => (.error r, t)

instance : FileSystem (StateM Tree) where
  isFile p := fun t ↦ (t.isFile p, t)
  isDirectory p := fun t ↦ (t.isDirectory p, t)
  read p := fun t ↦ (t.content p, t)
  names p := fun t ↦ (t.names p, t)
  makeDirectory p := change fun t ↦ t.makeDirectory p
  openFile p := change fun t ↦ t.openFile p
  fill p content := fun t ↦ ((), t.fill p content)

end Advplc.File

import Advplc.Proofs.Flow.Machine
import Advplc.Target.Code
import Mathlib.Algebra.GroupWithZero.Nat

/-!
# The control flow of ADVPL code

ADVPL code is executed line by line.  A `Line` is a line of code together with what it does to the
control flow: it begins a block, ends one, jumps, or does none of these.  `codeLines` says what the
lines of generated code are meant to do; how that is told from their texts is the subject of
`Advplc.Proofs.Flow.Reading`.  The blocks have to be found by counting lines that begin and end
them, which is what `seek` does.

The machine is in a state that consists of the lines from the current one on and of the loops that
have been entered and not left.  Of such a loop it keeps what is asked at its beginning and the
lines behind that, which is enough to go back to the beginning and to find the end.
-/

set_option autoImplicit false

namespace Advplc.Flow

open Target (Code Branches Entry)

/-! ## Lines -/

/-- A line of code, with its part in the control flow. -/
inductive Line where
  /-- A line that is run, or that stands for itself. -/
  | plain (text : Text)
  | ret (value : Option Text)
  | exit
  | loop
  | whileDo (test : Text)
  | endDo
  | forTo (header : Text)
  | next
  | ifThen (test : Text)
  | elseIf (test : Text)
  | orElse
  | endIf
  /-- The first line of a function. -/
  | function (header : Text)
deriving DecidableEq

namespace Line

/-- The line as it is written, without indentation. -/
def text : Line → Text
  | plain t => t
  | ret none => "Return"
  | ret (some v) => "Return " ++ v
  | exit => "Exit"
  | loop => "Loop"
  | whileDo test => "While " ++ test
  | endDo => "EndDo"
  | forTo header => "For " ++ header
  | next => "Next"
  | ifThen test => "If " ++ test
  | elseIf test => "ElseIf " ++ test
  | orElse => "Else"
  | endIf => "EndIf"
  | function header => header

/-- Whether a block of a loop or an `If` begins with the line. -/
def opens : Line → Bool
  | whileDo _ | forTo _ | ifThen _ => true
  | _ => false

/-- Whether such a block ends with the line. -/
def closes : Line → Bool
  | endDo | next | endIf => true
  | _ => false

/-- Whether a branch of an `If` ends before the line. -/
def divides : Line → Bool
  | elseIf _ | orElse | endIf => true
  | _ => false

end Line

mutual

/-- The lines of a piece of code. -/
def codeLines : Code → List Line
  | .line t => [.plain t]
  | .ret v => [.ret v]
  | .exit => [.exit]
  | .loop => [.loop]
  | .whileLoop test body => .whileDo test :: (linesOf body ++ [.endDo])
  | .forLoop header body => .forTo header :: (linesOf body ++ [.next])
  | .branch test yes rest => .ifThen test :: (linesOf yes ++ (branchLines rest ++ [.endIf]))
  | .function header body ends =>
    .function header :: (linesOf body ++ ((if ends then [] else [.ret none]) ++ [.plain []]))

/-- The lines of the further branches of an `If`. -/
def branchLines : Branches → List Line
  | .done => []
  | .otherwise body => .orElse :: linesOf body
  | .elseIf test yes rest => .elseIf test :: (linesOf yes ++ branchLines rest)

/-- The lines of several pieces of code. -/
def linesOf : List Code → List Line
  | [] => []
  | c :: cs => codeLines c ++ linesOf cs

end

@[simp] theorem linesOf_append (cs ds : List Code) :
    linesOf (cs ++ ds) = linesOf cs ++ linesOf ds := by
  induction cs with
  | nil => rfl
  | cons c cs ih => simp [linesOf, ih]

@[simp] theorem linesOf_map_line (ts : List Text) : linesOf (ts.map .line) = ts.map .plain := by
  induction ts with
  | nil => rfl
  | cons t ts ih => simp [linesOf, codeLines, ih]

/-! The lines are those that are written. -/

theorem text_inside (es : List Entry) :
    (Target.inside es).map Entry.text = es.map Entry.text := by
  rw [Target.inside, List.map_map]
  rfl

mutual

theorem text_codeLines (c : Code) : (codeLines c).map Line.text = c.entries.map Entry.text := by
  cases c with
  | line t => rfl
  | ret v => cases v <;> rfl
  | exit => rfl
  | loop => rfl
  | whileLoop test body =>
    simp [codeLines, Code.entries, text_inside, text_linesOf body, Line.text, Target.outer]
  | forLoop header body =>
    simp [codeLines, Code.entries, text_inside, text_linesOf body, Line.text, Target.outer]
  | branch test yes rest =>
    simp [codeLines, Code.entries, text_inside, text_linesOf yes, text_branchLines rest, Line.text,
      Target.outer]
  | function header body ends =>
    cases ends <;>
      simp [codeLines, Code.entries, text_inside, text_linesOf body, Line.text, Target.outer]

theorem text_branchLines (bs : Branches) :
    (branchLines bs).map Line.text = bs.entries.map Entry.text := by
  cases bs with
  | done => rfl
  | otherwise body =>
    simp [branchLines, Branches.entries, text_inside, text_linesOf body, Line.text, Target.outer]
  | elseIf test yes rest =>
    simp [branchLines, Branches.entries, text_inside, text_linesOf yes, text_branchLines rest,
      Line.text, Target.outer]

theorem text_linesOf (cs : List Code) :
    (linesOf cs).map Line.text = (Code.entriesAll cs).map Entry.text := by
  cases cs with
  | nil => rfl
  | cons c cs =>
    simp only [linesOf, Code.entriesAll, List.map_append, text_codeLines c, text_linesOf cs]

end

/-! ## Finding the end of a block -/

/-- The lines from the first one on that satisfies `stop` and stands in as many blocks as the
present one; `depth` is the number of further blocks that the present one stands in. -/
def seek (stop : Line → Bool) : Nat → List Line → List Line
  | _, [] => []
  | depth, l :: ls =>
    if depth = 0 ∧ stop l then l :: ls
    else if l.opens then seek stop (depth + 1) ls
    else if l.closes then seek stop (depth - 1) ls
    else seek stop depth ls

/-- The lines behind the block that the lines begin in. -/
def behind (ls : List Line) : List Line := (seek Line.closes 0 ls).tail

/-- Where an `If` goes on if its test does not hold, given the lines behind the test.  An `ElseIf`
that is come to in this way is an `If` of its own. -/
def otherBranch (ls : List Line) : List Line :=
  match seek Line.divides 0 ls with
  | .elseIf test :: ls => .ifThen test :: ls
  | _ :: ls => ls
  | [] => []

/-! Code is passed over as a whole: the blocks in it are closed in it. -/

section

variable {stop : Line → Bool}

theorem seek_opens {l : Line} (h : l.opens) (hl : stop l = false) (depth : Nat) (ls : List Line) :
    seek stop depth (l :: ls) = seek stop (depth + 1) ls := by
  rw [seek, if_neg (by simp [hl]), if_pos h]

theorem seek_closes {l : Line} (h : l.opens = false) (hcloses : l.closes) (depth : Nat)
    (ls : List Line) : seek stop (depth + 1) (l :: ls) = seek stop depth ls := by
  rw [seek, if_neg (by simp), if_neg (by simp [h]), if_pos hcloses, Nat.add_sub_cancel]

theorem seek_passes {l : Line} (h : l.opens = false) (hcloses : l.closes = false) {depth : Nat}
    (hl : depth = 0 → stop l = false) (ls : List Line) :
    seek stop depth (l :: ls) = seek stop depth ls := by
  rw [seek, if_neg (fun h ↦ by simp [hl h.1] at h), if_neg (by simp [h]),
    if_neg (by simp [hcloses])]

/-- A line that neither ends a block nor a branch is not what is sought. -/
def StopsAtEnds (stop : Line → Bool) : Prop :=
  ∀ l : Line, l.closes = false → l.divides = false → stop l = false

theorem stopsAtEnds_closes : StopsAtEnds Line.closes := fun _ h _ ↦ h

theorem stopsAtEnds_divides : StopsAtEnds Line.divides := fun _ _ h ↦ h

mutual

theorem seek_codeLines (hstop : StopsAtEnds stop) (c : Code) (depth : Nat) (ls : List Line) :
    seek stop depth (codeLines c ++ ls) = seek stop depth ls := by
  cases c with
  | line t => exact seek_passes rfl rfl (fun _ ↦ hstop _ rfl rfl) ls
  | ret v => exact seek_passes rfl rfl (fun _ ↦ hstop _ rfl rfl) ls
  | exit => exact seek_passes rfl rfl (fun _ ↦ hstop _ rfl rfl) ls
  | loop => exact seek_passes rfl rfl (fun _ ↦ hstop _ rfl rfl) ls
  | whileLoop test body =>
    simp only [codeLines, List.cons_append, List.append_assoc, List.nil_append]
    rw [seek_opens rfl (hstop _ rfl rfl), seek_linesOf hstop body, seek_closes rfl rfl]
  | forLoop header body =>
    simp only [codeLines, List.cons_append, List.append_assoc, List.nil_append]
    rw [seek_opens rfl (hstop _ rfl rfl), seek_linesOf hstop body, seek_closes rfl rfl]
  | branch test yes rest =>
    simp only [codeLines, List.cons_append, List.append_assoc, List.nil_append]
    rw [seek_opens rfl (hstop _ rfl rfl), seek_linesOf hstop yes,
      seek_branchLines hstop rest (.inl (Nat.succ_ne_zero depth)), seek_closes rfl rfl]
  | function header body ends =>
    simp only [codeLines, List.cons_append, List.append_assoc, List.nil_append]
    rw [seek_passes rfl rfl (fun _ ↦ hstop _ rfl rfl), seek_linesOf hstop body]
    cases ends with
    | false =>
      rw [if_neg Bool.false_ne_true, List.singleton_append,
        seek_passes rfl rfl (fun _ ↦ hstop _ rfl rfl),
        seek_passes rfl rfl (fun _ ↦ hstop _ rfl rfl)]
    | true => rw [if_pos rfl, List.nil_append, seek_passes rfl rfl (fun _ ↦ hstop _ rfl rfl)]

/-- Further branches are passed over where a new branch is not what is sought. -/
theorem seek_branchLines (hstop : StopsAtEnds stop) (bs : Branches) {depth : Nat}
    (h : depth ≠ 0 ∨ ∀ l : Line, l.closes = false → stop l = false) (ls : List Line) :
    seek stop depth (branchLines bs ++ ls) = seek stop depth ls := by
  have hpass : ∀ l : Line, l.closes = false → depth = 0 → stop l = false :=
    fun l hl hzero ↦ h.resolve_left (fun hne ↦ hne hzero) l hl
  cases bs with
  | done => rfl
  | otherwise body =>
    rw [branchLines, List.cons_append, seek_passes rfl rfl (hpass _ rfl), seek_linesOf hstop body]
  | elseIf test yes rest =>
    rw [branchLines, List.cons_append, List.append_assoc, seek_passes rfl rfl (hpass _ rfl),
      seek_linesOf hstop yes, seek_branchLines hstop rest h]

theorem seek_linesOf (hstop : StopsAtEnds stop) (cs : List Code) (depth : Nat) (ls : List Line) :
    seek stop depth (linesOf cs ++ ls) = seek stop depth ls := by
  cases cs with
  | nil => rfl
  | cons c cs =>
    rw [linesOf, List.append_assoc, seek_codeLines hstop c, seek_linesOf hstop cs]

end

end

theorem behind_linesOf (cs : List Code) {l : Line} (h : l.closes) (ls : List Line) :
    behind (linesOf cs ++ l :: ls) = ls := by
  rw [behind, seek_linesOf stopsAtEnds_closes, seek, if_pos ⟨rfl, h⟩, List.tail_cons]

theorem behind_branches (cs : List Code) (bs : Branches) (ls : List Line) :
    behind (linesOf cs ++ (branchLines bs ++ .endIf :: ls)) = ls := by
  rw [behind, seek_linesOf stopsAtEnds_closes,
    seek_branchLines stopsAtEnds_closes bs (.inr fun _ h ↦ h), seek, if_pos ⟨rfl, rfl⟩,
    List.tail_cons]

/-- The lines at which an `If` goes on whose test does not hold. -/
def branchesFrom (bs : Branches) (ls : List Line) : List Line :=
  match bs with
  | .done => ls
  | .otherwise body => linesOf body ++ .endIf :: ls
  | .elseIf test yes rest => .ifThen test :: (linesOf yes ++ (branchLines rest ++ .endIf :: ls))

theorem otherBranch_linesOf (yes : List Code) (bs : Branches) (ls : List Line) :
    otherBranch (linesOf yes ++ (branchLines bs ++ .endIf :: ls)) = branchesFrom bs ls := by
  rw [otherBranch, seek_linesOf stopsAtEnds_divides]
  cases bs with
  | done => rfl
  | otherwise body => rfl
  | elseIf test yes rest =>
    rw [branchLines, List.cons_append, List.append_assoc, seek, if_pos ⟨rfl, rfl⟩, branchesFrom]

/-! ## Executing lines -/

/-- A loop that has been entered. -/
structure OpenLoop where
  /-- What is asked before each round. -/
  question : Question
  /-- The lines behind the first line of the loop. -/
  inside : List Line

/-- Where a run is. -/
structure Place where
  /-- The lines from the current one on. -/
  lines : List Line
  /-- The loops around the current line, the innermost one first. -/
  loops : List OpenLoop

namespace Place

/-- Before a round of a loop. -/
def round (loop : OpenLoop) (loops : List OpenLoop) : Move Place :=
  .asks loop.question fun goesOn ↦
    if goesOn then ⟨loop.inside, loop :: loops⟩ else ⟨behind loop.inside, loops⟩

/-- Executes the current line.  `Loop` and the end of a loop go back to its beginning, `Exit` goes
behind its end, and a branch that ends goes behind its `EndIf`.  Functions are not executed. -/
def step : Place → Move Place
  | ⟨[], []⟩ => .ends .finished
  | ⟨[], _ :: _⟩ => .ends .stray
  | ⟨.plain t :: ls, loops⟩ => .shows t ⟨ls, loops⟩
  | ⟨.ret v :: _, _⟩ => .ends (.returned v)
  | ⟨.whileDo test :: ls, loops⟩ => round ⟨.test test, ls⟩ loops
  | ⟨.forTo header :: ls, loops⟩ => round ⟨.count header, ls⟩ loops
  | ⟨.endDo :: _, loop :: loops⟩ | ⟨.next :: _, loop :: loops⟩ | ⟨.loop :: _, loop :: loops⟩ =>
    round loop loops
  | ⟨.exit :: _, loop :: loops⟩ => .quietly ⟨behind loop.inside, loops⟩
  | ⟨.endDo :: _, []⟩ | ⟨.next :: _, []⟩ | ⟨.loop :: _, []⟩ | ⟨.exit :: _, []⟩ => .ends .stray
  | ⟨.ifThen test :: ls, loops⟩ =>
    .asks (.test test) fun holds ↦ if holds then ⟨ls, loops⟩ else ⟨otherBranch ls, loops⟩
  | ⟨.elseIf _ :: ls, loops⟩ | ⟨.orElse :: ls, loops⟩ => .quietly ⟨behind ls, loops⟩
  | ⟨.endIf :: ls, loops⟩ => .quietly ⟨ls, loops⟩
  | ⟨.function _ :: _, _⟩ => .ends .stray

/-- The number of lines that the run may come to without going back. -/
def rank (p : Place) : Nat :=
  p.lines.length + (p.loops.map fun loop ↦ loop.inside.length).sum

end Place

theorem length_seek_le (stop : Line → Bool) (depth : Nat) (ls : List Line) :
    (seek stop depth ls).length ≤ ls.length := by
  fun_induction seek stop depth ls with
  | case1 => exact Nat.le_refl _
  | case2 => exact Nat.le_refl _
  | case3 depth l ls _ _ ih => exact Nat.le_succ_of_le ih
  | case4 depth l ls _ _ _ ih => exact Nat.le_succ_of_le ih
  | case5 depth l ls _ _ _ ih => exact Nat.le_succ_of_le ih

theorem length_behind_le (ls : List Line) : (behind ls).length ≤ ls.length := by
  rw [behind, List.length_tail]
  exact Nat.le_trans (Nat.sub_le _ _) (length_seek_le Line.closes 0 ls)

theorem Place.rank_lt {p p' : Place} (h : p.step = .quietly p') : p'.rank < p.rank := by
  unfold Place.step at h
  split at h
  all_goals try cases h
  · rename_i loop loops
    have := length_behind_le loop.inside
    simp only [rank, List.length_cons, List.map_cons, List.sum_cons]
    omega
  · rename_i ls loops
    have := length_behind_le ls
    simp only [rank, List.length_cons]
    omega
  · rename_i ls loops
    have := length_behind_le ls
    simp only [rank, List.length_cons]
    omega
  · simp only [rank, List.length_cons]
    omega

/-- The machine that executes lines. -/
def listing : Machine Place := ⟨Place.step, Place.rank, Place.rank_lt⟩

end Advplc.Flow

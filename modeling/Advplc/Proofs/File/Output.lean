import Advplc.File.Compile
import Advplc.Proofs.File.Tree

/-!
# What a run on one file changes

`compileFile_changes` says what a tree of files looks like after a file has been compiled.  A run
that succeeds has written the generated code, made the directories it lies in, and done nothing
else.  A run that fails has done nothing, with two exceptions, which the theorem describes exactly:
directories that were made on the way stay, and an output that was opened stays empty if its text
cannot be encoded (`unencodable_output_left_empty`).

The proof follows the program: `Writes` lists the four ways in which writing a text can end, and
`compileFile_cases` says that a run either ends before it writes anything or ends as writing does.
-/

set_option autoImplicit false

namespace Advplc.File

variable {options : Target.Options} {input output : Path} {t u v : Tree} {p : Path} {q : Place}

/-! ## Writing a text -/

theorem Tree.openFile_eq_ok (h : t.openFile p = .ok u) :
    ∃ q, t.find p = .ok q ∧ t.get? q ≠ some .directory ∧ u = t.set q (.file []) := by
  rcases hfind : t.find p with r | q
  · rw [openFile, hfind] at h
    exact absurd h (by simp [bind, Except.bind])
  · by_cases hget : t.get? q = some .directory
    · simp [openFile, hfind, hget, bind, Except.bind] at h
    · refine ⟨q, rfl, hget, ?_⟩
      rw [openFile, hfind] at h
      simp only [bind, Except.bind] at h
      exact (Except.ok.inj h).symm

/-- The ways in which writing a text into a file ends. -/
inductive Writes (output : Path) (text : Text) (t : Tree) : Except FileError Unit → Tree → Prop
  /-- Its directory cannot be made. -/
  | noDirectory {e : SystemError} {u : Tree} (hmakes : Makes t output.parent (.error e) u) :
    Writes output text t (.error (.system e)) u
  /-- The file cannot be opened. -/
  | notOpened {r : Refusal} {u : Tree} (hmakes : Makes t output.parent (.ok ()) u) :
    Writes output text t (.error (.system ⟨r, output⟩)) u
  /-- The text cannot be encoded, and the file is empty. -/
  | notEncoded {e : Utf8.EncodeError} {u : Tree} {q : Place}
    (hmakes : Makes t output.parent (.ok ()) u) (hfind : u.find output = .ok q)
    (hget : u.get? q ≠ some .directory) (hencode : Utf8.encode text = .error e) :
    Writes output text t (.error (.encode e)) (u.set q (.file []))
  /-- The text is written. -/
  | written {bytes : Bytes} {u : Tree} {q : Place}
    (hmakes : Makes t output.parent (.ok ()) u) (hfind : u.find output = .ok q)
    (hget : u.get? q ≠ some .directory) (hencode : Utf8.encode text = .ok bytes) :
    Writes output text t (.ok ()) (u.set q (.file bytes))

theorem writes_writeText (output : Path) (text : Text) (t : Tree) :
    Writes output text t ((writeText output text : StateM Tree _).run t).1
      ((writeText output text : StateM Tree _).run t).2 := by
  have hmakes := makes_makeDirectories output.parent t
  rcases hmake : (makeDirectories output.parent : StateM Tree _).run t with ⟨_ | _, u⟩
  · rw [hmake] at hmakes
    rw [writeText, run_bind hmake]
    exact .noDirectory hmakes
  rw [hmake] at hmakes
  rw [writeText, run_bind hmake]
  rcases hopen : u.openFile output with r | v
  · have hrun : (FileSystem.openFile output : StateM Tree _).run u = (.error r, u) := by
      show change (·.openFile output) u = _
      rw [change, hopen]
    simp only
    rw [run_bind hrun]
    exact .notOpened hmakes
  · have hrun : (FileSystem.openFile output : StateM Tree _).run u = (.ok (), v) := by
      show change (·.openFile output) u = _
      rw [change, hopen]
    obtain ⟨q, hfind, hget, rfl⟩ := Tree.openFile_eq_ok hopen
    simp only
    rw [run_bind hrun]
    rcases hencode : Utf8.encode text with e | bytes
    · exact .notEncoded hmakes hfind hget hencode
    · have hfill : (FileSystem.fill output bytes : StateM Tree _).run (u.set q (.file [])) =
          ((), u.set q (.file bytes)) := by
        have hfind' := Tree.find_of_directories (Tree.keepsDirectories_set hget (.file [])) hfind
        show ((), (u.set q (.file [])).fill output bytes) = _
        rw [Tree.fill, hfind', ← Tree.set_set u q (.file []) (.file bytes)]
      simp only
      rw [run_bind hfill]
      exact .written hmakes hfind hget hencode

/-! ## Compiling a file -/

/-- The code that the bytes of a script are compiled to. -/
def Generates (options : Target.Options) (source : Bytes) (code : Text) : Prop :=
  ∃ text, Utf8.decode source = .ok text ∧ (compile options (plainLineEnds text)).outcome = .ok code

/-- The code that a file is compiled to. -/
def Translates (options : Target.Options) (t : Tree) (input : Path) (code : Text) : Prop :=
  ∃ source, t.node? input = .ok (some (.file source)) ∧ Generates options source code

theorem Tree.isFile_eq_true_iff :
    t.isFile p = .ok true ↔ ∃ source, t.node? p = .ok (some (.file source)) := by
  rw [isFile]
  rcases t.node? p with r | _ | _ | _ <;> simp [Except.map, isFileNode]

theorem Tree.content_of_node? {source : Bytes} (h : t.node? p = .ok (some (.file source))) :
    t.content p = source := by
  rw [content, h]

theorem translates_iff {source : Bytes} {code : Text}
    (h : t.node? input = .ok (some (.file source))) :
    Translates options t input code ↔ Generates options source code := by
  simp [Translates, h]

/-- Nothing but a file is compiled. -/
theorem not_translates_of_isFile {code : Text} (h : t.isFile input ≠ .ok true) :
    ¬ Translates options t input code := by
  rintro ⟨source, hnode, _⟩
  exact h (Tree.isFile_eq_true_iff.mpr ⟨source, hnode⟩)

/-- A run that compiles a file ends without code before anything is written, or it has code and ends
as writing the code does. -/
theorem compileFile_cases (options : Target.Options) (input : Path) (output : Option Path)
    (t : Tree) : ∃ result u,
      (compileFile options input output : StateM Tree _).run t = (result, u) ∧
        ((∃ e, result.outcome = .error e) ∧ u = t ∧ (∀ code, ¬ Translates options t input code) ∨
          ∃ code s, Translates options t input code ∧
            Writes (output.getD (input.withEnding targetEnding)) code t s u ∧
            result.outcome = s.map fun _ ↦ output.getD (input.withEnding targetEnding)) := by
  have hlook : (FileSystem.isFile input : StateM Tree _).run t = (t.isFile input, t) := rfl
  have hread : (FileSystem.read input : StateM Tree _).run t = (t.content input, t) := rfl
  rw [compileFile, run_bind hlook]
  rcases hfile : t.isFile input with r | _ | _
  · exact ⟨_, _, rfl, .inl ⟨⟨_, rfl⟩, rfl, fun _ ↦ not_translates_of_isFile (by simp [hfile])⟩⟩
  · exact ⟨_, _, rfl, .inl ⟨⟨_, rfl⟩, rfl, fun _ ↦ not_translates_of_isFile (by simp [hfile])⟩⟩
  obtain ⟨source, hnode⟩ := Tree.isFile_eq_true_iff.mp hfile
  simp only [translates_iff hnode]
  rw [run_bind hread, Tree.content_of_node? hnode]
  rcases hdecode : Utf8.decode source with e | text
  · exact ⟨_, _, rfl, .inl ⟨⟨_, rfl⟩, rfl, by simp [Generates, hdecode]⟩⟩
  rcases hcompile : (compile options (plainLineEnds text)).outcome with e | code
  · refine ⟨_, _, rfl, .inl ⟨⟨.compile e, ?_⟩, ?_, by simp [Generates, hdecode, hcompile]⟩⟩
    · simp only [hcompile]
      rfl
    · simp only [hcompile]
      rfl
  have hwrites := writes_writeText (output.getD (input.withEnding targetEnding)) code t
  rcases hwrite : (writeText (output.getD (input.withEnding targetEnding)) code :
    StateM Tree _).run t with ⟨s, u⟩
  rw [hwrite] at hwrites
  simp only [hcompile]
  rw [run_bind hwrite]
  refine ⟨_, _, rfl, .inr ⟨code, s, ⟨text, hdecode, hcompile⟩, ?_, ?_⟩⟩
  · rcases s with e | _
    · exact hwrites
    · exact hwrites
  · rcases s with e | _ <;> rfl

/-! ## What has changed -/

theorem Tree.Same.refl (t : Tree) : t.Same t := ⟨rfl, fun _ ↦ rfl⟩

/-- A directory that is made is a change that stays. -/
theorem Makes.not_same {s : Except SystemError Unit} (h : Makes t p s u) (hu : u.KeepsDirectories v)
    (hlacks : t.Lacks p) : ¬ t.Same v := by
  intro hsame
  obtain ⟨q, hnone, hq⟩ := h.changed hlacks
  exact absurd ((hsame.2 q).symm.trans (hu.2 q hq)) (by simp [hnone])

theorem Makes.same_iff {s : Except SystemError Unit} (h : Makes t p s u) :
    t.Same u ↔ ¬ t.Lacks p := by
  refine ⟨fun hsame hlacks ↦ h.not_same ⟨rfl, fun _ hq ↦ hq⟩ hlacks hsame, fun hlacks ↦ ?_⟩
  rw [h.unchanged hlacks]
  exact .refl t

/-- An emptied file is a change unless it was empty. -/
theorem Tree.same_set_iff (hfind : t.find p = .ok q) (hget : t.get? q ≠ some .directory) :
    t.Same (t.set q (.file [])) ↔ t.node? p = .ok (some (.file [])) := by
  have hnode : t.node? p = .ok (t.get? q) := by rw [node?, hfind]
  rw [hnode, Except.ok.injEq]
  refine ⟨fun h ↦ ?_, fun h ↦ ⟨home_set t q _, fun q' ↦ ?_⟩⟩
  · rw [← h.2 q, get?_set hget, if_pos rfl]
  · rw [get?_set hget]
    split
    · rw [‹q' = q›, h]
    · rfl

theorem Writes.same_iff {text : Text} {e : FileError} (h : Writes output text t (.error e) u) :
    t.Same u ↔ ¬ (t.Lacks output.parent ∨
      (∃ x, e = .encode x) ∧ t.node? output ≠ .ok (some (.file []))) := by
  cases h with
  | noDirectory hmakes => simp [hmakes.same_iff]
  | notOpened hmakes => simp [hmakes.same_iff]
  | @notEncoded x v q hmakes hfind hget hencode =>
    by_cases hlacks : t.Lacks output.parent
    · have hnot := hmakes.not_same (Tree.keepsDirectories_set hget (.file [])) hlacks
      exact iff_of_false hnot (not_not_intro (.inl hlacks))
    · have hv := hmakes.unchanged hlacks
      subst hv
      simp [Tree.same_set_iff hfind hget, hlacks]

/-- Beside the place that is written to there are at most new directories. -/
theorem Makes.node_set {s : Except SystemError Unit} (h : Makes t p s u)
    (hget : u.get? q ≠ some .directory) (n : Node) {q' : Place} (hq' : q' ≠ q) :
    (u.set q n).get? q' = t.get? q' ∨ t.MadeFor (u.set q n) p q' := by
  rw [Tree.get?_set_of_ne u hq']
  exact (h.adds.node q').imp_right (·.of_directories (Tree.keepsDirectories_set hget n))

theorem Writes.home {text : Text} {s : Except FileError Unit} (h : Writes output text t s u) :
    u.home = t.home := by
  cases h with
  | noDirectory hmakes => exact hmakes.adds.home
  | notOpened hmakes => exact hmakes.adds.home
  | notEncoded hmakes => rw [Tree.home_set, hmakes.adds.home]
  | written hmakes => rw [Tree.home_set, hmakes.adds.home]

theorem Writes.node_of_error {text : Text} {e : FileError}
    (h : Writes output text t (.error e) u) (q : Place) :
    u.get? q = t.get? q ∨ t.MadeFor u output.parent q ∨
      (∃ x, e = .encode x) ∧ u.Leads output q (.file []) := by
  cases h with
  | noDirectory hmakes => exact (hmakes.adds.node q).imp_right .inl
  | notOpened hmakes => exact (hmakes.adds.node q).imp_right .inl
  | @notEncoded x v place hmakes hfind hget hencode =>
    by_cases hq : q = place
    · subst hq
      exact .inr (.inr ⟨⟨x, rfl⟩, Tree.leads_set hfind hget _⟩)
    · exact (hmakes.node_set hget _ hq).imp_right .inl

theorem Writes.of_ok {text : Text} (h : Writes output text t (.ok ()) u) :
    ∃ bytes q, Utf8.encode text = .ok bytes ∧ u.Leads output q (.file bytes) ∧
      ∀ q' ≠ q, u.get? q' = t.get? q' ∨ t.MadeFor u output.parent q' := by
  cases h with
  | @written bytes v q hmakes hfind hget hencode =>
    exact ⟨bytes, q, hencode, Tree.leads_set hfind hget _, fun q' ↦ hmakes.node_set hget _⟩

/-- A run that succeeds changes the file whose path it returns, makes directories for it, and does
nothing else.  A run that fails leaves the tree as it is, unless the script was compiled and then a
directory had to be made or the code could not be encoded; it leaves behind at most such directories
and an empty file. -/
theorem compileFile_changes (options : Target.Options) (input : Path) (output : Option Path)
    (t : Tree) :
    let (result, u) := (compileFile options input output : StateM Tree _).run t
    let target := output.getD (input.withEnding targetEnding)
    u.home = t.home ∧
    match result.outcome with
    | .ok path => path = target ∧ ∃ code bytes q,
        Translates options t input code ∧ Utf8.encode code = .ok bytes ∧
        u.Leads path q (.file bytes) ∧
        ∀ q' ≠ q, u.get? q' = t.get? q' ∨ t.MadeFor u path.parent q'
    | .error e =>
        (t.Same u ↔ ¬ ((∃ code, Translates options t input code) ∧
          (t.Lacks target.parent ∨
            (∃ x, e = .encode x) ∧ t.node? target ≠ .ok (some (.file []))))) ∧
        ∀ q, u.get? q = t.get? q ∨ t.MadeFor u target.parent q ∨
          (∃ x, e = .encode x) ∧ u.Leads target q (.file []) := by
  obtain ⟨result, u, hrun, ⟨⟨e, he⟩, rfl, hcode⟩ | ⟨code, s, hcode, hwrites, hresult⟩⟩ :=
    compileFile_cases options input output t
  · rw [hrun]
    simp only [he]
    refine ⟨trivial, iff_of_true (.refl u) ?_, fun q ↦ .inl trivial⟩
    rintro ⟨⟨code, hgenerated⟩, _⟩
    exact hcode code hgenerated
  · rw [hrun]
    simp only [hresult]
    refine ⟨hwrites.home, ?_⟩
    rcases s with e | _
    · have hany : ∃ code, Translates options t input code := ⟨code, hcode⟩
      refine ⟨?_, hwrites.node_of_error⟩
      rw [hwrites.same_iff, and_iff_right hany]
    · obtain ⟨bytes, q, hencode, hleads, hothers⟩ := hwrites.of_ok
      exact ⟨rfl, code, bytes, q, hcode, hencode, hleads, hothers⟩

/-- A string that names a surrogate is code that cannot be encoded: the run fails, and leaves an
empty file. -/
theorem unencodable_output_left_empty :
    let source : Bytes := "x = \"\\ud800\";".toList.map fun c ↦ c.toNat.toUInt8
    let t : Tree :=
      { nodes := [(["a.js"], .file source)], distinct := by decide, unlisted := by decide }
    let run := (compileFile {} (Path.ofText "a.js") none : StateM Tree _).run t
    run.1.outcome.isOk = false ∧ t.get? ["a.prw"] = none ∧
      run.2.get? ["a.prw"] = some (.file []) := by
  decide +kernel

end Advplc.File

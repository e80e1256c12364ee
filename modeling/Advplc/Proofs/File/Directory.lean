import Advplc.Proofs.File.Output
import Advplc.Proofs.Text.Escape
import Mathlib.Data.List.Nodup

/-!
# What a run on a directory changes

`compileDirectory_outputs` says what a tree of files looks like after all scripts of a directory
have been compiled.  The outputs may lie beside the scripts, so a run reads a directory that it
writes to: no output is a script (`targetName_ne`), and two scripts share an output only if they are
called `.js` and `.js.js` (`targetName_eq_iff`).  For these two, what was generated first is lost
(`outputs_coincide`).

A run that succeeds is a chain of `Emits`, one for each script.  What one link keeps (directories,
and every place but its output) the chain keeps by induction, and `EmitsAll.emitted` follows one
script through the chain.
-/

set_option autoImplicit false

namespace Advplc

/-! ## The order of names -/

theorem CodePoint.le_antisymm {a b : CodePoint} (hab : a.le b) (hba : b.le a) : a = b := by
  have hval : a.val = b.val := Nat.le_antisymm (of_decide_eq_true hab) (of_decide_eq_true hba)
  rw [← CodePoint.ofNat_val a, hval, CodePoint.ofNat_val]

theorem Text.le_trans (r s t : Text) (hrs : le r s) (hst : le s t) : le r t := by
  induction r generalizing s t with
  | nil => rw [le]
  | cons a r ih =>
    rcases s with _ | ⟨b, s⟩
    · simp [le] at hrs
    rcases t with _ | ⟨c, t⟩
    · simp [le] at hst
    rw [le] at hrs hst ⊢
    by_cases hab : a = b
    · subst hab
      rw [if_pos rfl] at hrs
      by_cases hac : a = c
      · rw [if_pos hac] at hst ⊢
        exact ih s t hrs hst
      · rwa [if_neg hac] at hst ⊢
    rw [if_neg hab] at hrs
    by_cases hbc : b = c
    · subst hbc
      rwa [if_neg hab]
    rw [if_neg hbc] at hst
    by_cases hac : a = c
    · subst hac
      exact absurd (CodePoint.le_antisymm hrs hst) hab
    · rw [if_neg hac, CodePoint.le]
      exact decide_eq_true (Nat.le_trans (of_decide_eq_true hrs) (of_decide_eq_true hst))

theorem Text.le_total (s t : Text) : (le s t || le t s) = true := by
  induction s generalizing t with
  | nil => simp [le]
  | cons a s ih =>
    rcases t with _ | ⟨b, t⟩
    · simp [le]
    · by_cases hab : a = b
      · simpa [le, hab] using ih t
      · have := Nat.le_total a.val b.val
        simpa [le, hab, Ne.symm hab, CodePoint.le] using this

theorem ok_of_toOption {ε α : Type} {x : Except ε α} {a : α} (h : x.toOption = some a) :
    x = .ok a := by
  rcases x with e | b
  · exact absurd h (by simp [Except.toOption])
  · rw [Option.some.inj h]

namespace File

/-! ## Names of scripts and of their outputs -/

/-- The name of the output of a script. -/
def targetName (name : Text) : Text := Path.stem name ++ targetEnding

theorem Path.name_withEnding_child (p : Path) (name : Text) :
    ((p.child name).withEnding targetEnding).name = targetName name := by
  simp [Path.child, Path.withEnding, Path.name, targetName]

theorem Path.stem_append (s : Text) :
    stem (s ++ sourceEnding) = if s = [] then sourceEnding else s := by
  have hending :
      ((s ++ sourceEnding).reverse.takeWhile fun c : CodePoint ↦ c ≠ '.').length = 2 := by
    simp [sourceEnding, Text.ofString]
  have hlength : (s ++ sourceEnding).length = s.length + 3 := List.length_append
  rw [stem]
  simp only [hending, hlength]
  by_cases hs : s = []
  · rw [if_pos hs, hs, if_neg (by simp)]
    rfl
  · have hpos := List.length_pos_iff.mpr hs
    rw [if_neg hs, if_pos (by omega)]
    simp

/-- Two scripts have outputs of the same name only if one is called `.js` and the other `.js.js`. -/
theorem targetName_eq_iff {m n : Text} (hm : sourceEnding <:+ m) (hn : sourceEnding <:+ n) :
    targetName m = targetName n ↔
      m = n ∨ m = ".js" ∧ n = ".js.js" ∨ m = ".js.js" ∧ n = ".js" := by
  obtain ⟨s, rfl⟩ := hm
  obtain ⟨r, rfl⟩ := hn
  have htwice : (".js.js" : Text) = sourceEnding ++ sourceEnding := rfl
  have honce : (".js" : Text) = [] ++ sourceEnding := rfl
  rw [htwice, honce, targetName, targetName, Path.stem_append, Path.stem_append]
  simp only [List.append_left_inj]
  by_cases hs : s = []
  · by_cases hr : r = []
    · simp [hs, hr]
    · simp [hs, hr, eq_comm]
  · by_cases hr : r = []
    · simp [hs, hr]
    · simp [hs, hr]

/-- No output is a script. -/
theorem targetName_ne {m n : Text} (hn : sourceEnding <:+ n) : n ≠ targetName m := by
  obtain ⟨s, rfl⟩ := hn
  intro h
  have hlast := congrArg List.getLast? h
  simp [targetName, sourceEnding, targetEnding, Text.ofString] at hlast

theorem targetName_ne_dots (n : Text) : targetName n ≠ ".." := by
  intro h
  have hlast := congrArg List.getLast? h
  simp [targetName, targetEnding, Text.ofString] at hlast

namespace Tree

variable {t u : Tree} {p : Path} {d : Place} {name : Text}

theorem homeward_eq_some_iff : t.homeward d = some name ↔ (d ++ [name]).isPrefixOf t.home := by
  rw [List.isPrefixOf_iff_prefix, homeward]
  split
  · rename_i hd
    obtain ⟨rest, hrest⟩ := List.isPrefixOf_iff_prefix.mp hd
    rw [← hrest, List.getElem?_append_right (Nat.le_refl _), Nat.sub_self,
      List.prefix_append_right_inj]
    rcases rest with _ | ⟨first, rest⟩
    · simp
    · simp [eq_comm]
  · rename_i hd
    refine iff_of_false (by simp) fun hprefix ↦ hd ?_
    exact List.isPrefixOf_iff_prefix.mpr ((List.prefix_append d [name]).trans hprefix)

theorem nameIn_eq_some_iff {place : Place} :
    (if place.dropLast = d then place.getLast? else none) = some name ↔ place = d ++ [name] := by
  refine ⟨fun h ↦ ?_, fun h ↦ by simp [h]⟩
  split at h
  · rename_i hd
    rw [← hd, List.dropLast_append_getLast? name h]
  · exact absurd h (by simp)

theorem mem_names (h : t.find p = .ok d) :
    name ∈ t.names p ↔ t.get? (d ++ [name]) ≠ none := by
  rw [names, h, get?]
  simp only [List.mem_append, Option.mem_toList, List.mem_filterMap, homeward_eq_some_iff,
    nameIn_eq_some_iff]
  by_cases hhome : (d ++ [name]).isPrefixOf t.home
  · simp [hhome]
  · rw [if_neg hhome, or_iff_right hhome, ← Option.isSome_iff_ne_none, List.lookup_isSome_iff]
    refine exists_congr fun entry ↦ and_congr_right fun _ ↦ ?_
    rw [beq_iff_eq, eq_comm]

theorem nodup_names (t : Tree) (p : Path) : (t.names p).Nodup := by
  rw [names]
  split
  · rename_i d _
    refine .append (by rcases t.homeward d <;> simp) ?_ ?_
    · -- Different entries stand at different places, so they have different names in a directory.
      have hplaces := List.pairwise_map.mp t.distinct
      refine hplaces.filterMap _ fun a b hab m hm n hn hmn ↦ hab ?_
      rw [nameIn_eq_some_iff.mp hm, nameIn_eq_some_iff.mp hn, hmn]
    · intro name hhome hname
      rw [Option.mem_toList, homeward_eq_some_iff] at hhome
      obtain ⟨entry, hentry, hplace⟩ := List.mem_filterMap.mp hname
      rw [← nameIn_eq_some_iff.mp hplace, t.unlisted entry hentry] at hhome
      exact absurd hhome (by simp)
  · exact List.nodup_nil

end Tree

/-- The scripts among distinct names, in order. -/
theorem scriptNames_spec {names : List Text} (h : names.Nodup) :
    (scriptNames names).Pairwise (fun m n ↦ Text.le m n) ∧ (scriptNames names).Nodup ∧
      ∀ n, n ∈ scriptNames names ↔ n ∈ names ∧ sourceEnding <:+ n := by
  have hperm := List.mergeSort_perm (names.filter sourceEnding.isSuffixOf) Text.le
  refine ⟨List.pairwise_mergeSort Text.le_trans Text.le_total _, ?_, fun n ↦ ?_⟩
  · exact hperm.nodup_iff.mpr (h.filter _)
  · rw [scriptNames, hperm.mem_iff, List.mem_filter, List.isSuffixOf_iff_suffix]

theorem nodup_targets {names : List Text} (output : Path) (hnodup : names.Nodup)
    (hnames : ∀ n ∈ names, sourceEnding <:+ n) :
    (names.map fun n ↦ output.child (targetName n)).Nodup ↔
      ¬ ((".js" : Text) ∈ names ∧ (".js.js" : Text) ∈ names) := by
  have hchild : ∀ m n, output.child (targetName m) = output.child (targetName n) ↔
      targetName m = targetName n := by simp [Path.child]
  rw [List.nodup_map_iff_inj_on hnodup]
  simp only [hchild]
  refine ⟨fun hinj hboth ↦ ?_, fun hpair m hm n hn heq ↦ ?_⟩
  · exact absurd (hinj _ hboth.1 _ hboth.2 (by decide)) (by decide)
  · obtain heq | ⟨rfl, rfl⟩ | ⟨rfl, rfl⟩ :=
      (targetName_eq_iff (hnames m hm) (hnames n hn)).mp heq
    · exact heq
    · exact absurd ⟨hm, hn⟩ hpair
    · exact absurd ⟨hn, hm⟩ hpair

/-- Among sorted names, no later one has the same output, except `.js.js` after `.js`. -/
theorem targetName_notMem {before behind : List Text} {n : Text}
    (hsorted : (before ++ n :: behind).Pairwise (fun m n ↦ Text.le m n))
    (hnodup : (before ++ n :: behind).Nodup)
    (hnames : ∀ m ∈ before ++ n :: behind, sourceEnding <:+ m)
    (hpair : ¬ (n = ".js" ∧ (".js.js" : Text) ∈ before ++ n :: behind)) :
    targetName n ∉ behind.map targetName := by
  intro hmem
  obtain ⟨m, hm, heq⟩ := List.mem_map.mp hmem
  have hm' : m ∈ before ++ n :: behind := by simp [hm]
  obtain rfl | ⟨rfl, rfl⟩ | ⟨rfl, rfl⟩ :=
    (targetName_eq_iff (hnames m hm') (hnames n (by simp))).mp heq
  · exact (List.nodup_cons.mp (List.nodup_append.mp hnodup).2.1).1 hm
  · have hle := (List.pairwise_cons.mp (List.pairwise_append.mp hsorted).2.1).1 _ hm
    exact absurd hle (by decide)
  · exact hpair ⟨rfl, hm'⟩

/-! ## One script after another -/

section

variable {options : Target.Options} {input output : Path} {d o : Place} {t u v : Tree} {n : Text}
  {names : List Text}

/-- The script `n` is compiled: the directory `input` is at the place `d`, the directory `output` at
the place `o`. -/
inductive Emits (options : Target.Options) (input output : Path) (d o : Place) (t : Tree)
    (n : Text) : Tree → Prop
  | intro {source : Bytes} {code : Text} {bytes : Bytes}
    (hsource : t.Leads (input.child n) (d ++ [n]) (.file source))
    (hcode : Generates options source code) (hencode : Utf8.encode code = .ok bytes)
    (htarget : t.find (output.child (targetName n)) = .ok (o ++ [targetName n]))
    (hfree : t.get? (o ++ [targetName n]) ≠ some .directory) :
    Emits options input output d o t n (t.set (o ++ [targetName n]) (.file bytes))

/-- The scripts of a list are compiled one after another. -/
inductive EmitsAll (options : Target.Options) (input output : Path) (d o : Place) :
    Tree → List Text → Tree → Prop
  | nil (t : Tree) : EmitsAll options input output d o t [] t
  | cons {t u v : Tree} {n : Text} {names : List Text} (hn : Emits options input output d o t n u)
    (hnames : EmitsAll options input output d o u names v) :
    EmitsAll options input output d o t (n :: names) v

theorem Emits.keepsDirectories (h : Emits options input output d o t n u) :
    t.KeepsDirectories u := by
  obtain ⟨_, _, _, _, hfree⟩ := h
  exact Tree.keepsDirectories_set hfree _

theorem emits_of_compileFile (hin : t.Leads input d .directory) (hout : t.Leads output o .directory)
    (hn : sourceEnding <:+ n) {result : Logged (Except FileError Path)} {path : Path}
    (hrun : (compileFile options (input.child n) (some (output.child (targetName n))) :
      StateM Tree _).run t = (result, u)) (hok : result.outcome = .ok path) :
    path = output.child (targetName n) ∧ Emits options input output d o t n u := by
  have hdots : n ≠ ".." := by
    rintro rfl
    exact absurd (List.isSuffixOf_iff_suffix.mpr hn) (by decide)
  have hparent : (output.child (targetName n)).parent = output := by simp [Path.child, Path.parent]
  obtain ⟨_, _, hrun', hcases⟩ :=
    compileFile_cases options (input.child n) (some (output.child (targetName n))) t
  cases hrun.symm.trans hrun'
  obtain ⟨⟨e, he⟩, -, -⟩ | ⟨code, s, ⟨source, hnode, hcode⟩, hwrites, hresult⟩ := hcases
  · exact absurd (he.symm.trans hok) (by simp)
  rw [hresult] at hok
  obtain ⟨q, hq⟩ := Tree.node?_eq_some hnode
  cases Tree.eq_of_find_child hin hdots hq.1
  cases hwrites with
  | noDirectory | notOpened | notEncoded => exact absurd hok (by simp [Except.map])
  | @written bytes v place hmakes hfind hget hencode =>
    simp only [Option.getD_some, hparent] at hmakes hfind hok ⊢
    have hv := hmakes.unchanged hout.not_lacks
    subst hv
    cases Tree.eq_of_find_child hout (targetName_ne_dots n) hfind
    exact ⟨(Except.ok.inj hok).symm, .intro hq hcode hencode hfind hget⟩

theorem emitsAll_of_compileAll (hin : t.Leads input d .directory)
    (hout : t.Leads output o .directory) (hnames : ∀ n ∈ names, sourceEnding <:+ n)
    {result : Logged (Except FileError (List Path))} {paths : List Path}
    (hrun : (compileAll options input output names : StateM Tree _).run t = (result, u))
    (hok : result.outcome = .ok paths) :
    paths = names.map (fun n ↦ output.child (targetName n)) ∧
      EmitsAll options input output d o t names u := by
  induction names generalizing t result paths with
  | nil =>
    cases hrun
    exact ⟨(Except.ok.inj hok).symm, .nil _⟩
  | cons n names ih =>
    rcases hfirst : (compileFile options (input.child n) (some (output.child (targetName n))) :
      StateM Tree _).run t with ⟨first, v⟩
    rw [compileAll, Path.name_withEnding_child, run_bind hfirst] at hrun
    rcases hpath : first.outcome with e | path
    · rw [hpath] at hrun
      cases hrun
      exact absurd hok (by simp)
    obtain ⟨rfl, hemits⟩ := emits_of_compileFile hin hout (hnames n List.mem_cons_self) hfirst hpath
    rcases hothers : (compileAll options input output names : StateM Tree _).run v with ⟨others, w⟩
    simp only [hpath] at hrun
    rw [run_bind hothers] at hrun
    cases hrun
    rcases hpaths : others.outcome with e | paths'
    · simp [hpaths, Except.map] at hok
    · have hkeeps := hemits.keepsDirectories
      obtain ⟨rfl, hall⟩ := ih (hin.of_directories hkeeps) (hout.of_directories hkeeps)
        (fun m hm ↦ hnames m (List.mem_cons_of_mem n hm)) hothers hpaths
      rw [hpaths] at hok
      exact ⟨(Except.ok.inj hok).symm, .cons hemits hall⟩

theorem EmitsAll.keepsDirectories (h : EmitsAll options input output d o t names u) :
    t.KeepsDirectories u := by
  induction h with
  | nil t => exact ⟨rfl, fun _ hq ↦ hq⟩
  | cons hn _ ih => exact ⟨ih.1.trans hn.keepsDirectories.1,
      fun q hq ↦ ih.2 q (hn.keepsDirectories.2 q hq)⟩

theorem Emits.get?_of_ne {q : Place} (h : Emits options input output d o t n u)
    (hq : q ≠ o ++ [targetName n]) : u.get? q = t.get? q := by
  obtain ⟨_, _, _, _, hfree⟩ := h
  exact Tree.get?_set_of_ne t hq _

theorem EmitsAll.get?_of_ne {q : Place} (h : EmitsAll options input output d o t names u)
    (hq : ∀ n ∈ names, q ≠ o ++ [targetName n]) : u.get? q = t.get? q := by
  induction h with
  | nil => rfl
  | @cons t u v n names hn _ ih =>
    rw [ih fun m hm ↦ hq m (List.mem_cons_of_mem n hm), hn.get?_of_ne (hq n List.mem_cons_self)]

/-- Each script is compiled from what it was before the others were compiled, and the last of those
with the same output decides what it is. -/
theorem EmitsAll.emitted (h : EmitsAll options input output d o t names u)
    (hin : t.Leads input d .directory) (hnames : ∀ n ∈ names, sourceEnding <:+ n)
    {before behind : List Text} (hsplit : names = before ++ n :: behind) :
    ∃ source code bytes, t.Leads (input.child n) (d ++ [n]) (.file source) ∧
      Generates options source code ∧ Utf8.encode code = .ok bytes ∧
      u.find (output.child (targetName n)) = .ok (o ++ [targetName n]) ∧
      (targetName n ∉ behind.map targetName →
        u.get? (o ++ [targetName n]) = some (.file bytes)) := by
  induction h generalizing before with
  | nil => exact absurd hsplit (by simp)
  | @cons t u v m names hm hrest ih =>
    rcases before with _ | ⟨m', before⟩
    · cases hsplit
      cases hm with
      | @intro source code bytes hsource hcode hencode htarget hfree =>
        have hleads := Tree.leads_set htarget hfree (.file bytes)
        refine ⟨source, code, bytes, hsource, hcode, hencode,
          Tree.find_of_directories hrest.keepsDirectories hleads.1, fun hlast ↦ ?_⟩
        rw [hrest.get?_of_ne, hleads.2]
        intro k hk heq
        exact hlast ((List.append_singleton_inj.mp heq).2 ▸ List.mem_map_of_mem hk)
    · cases hsplit
      have hin' := hin.of_directories hm.keepsDirectories
      obtain ⟨source, code, bytes, hsource, hcode, hencode, htarget, hlast⟩ :=
        ih hin' (fun k hk ↦ hnames k (List.mem_cons_of_mem _ hk)) rfl
      refine ⟨source, code, bytes, ⟨?_, ?_⟩, hcode, hencode, htarget, hlast⟩
      · rw [Tree.find_child_congr hin hin', hsource.1]
      · rw [← hsource.2, hm.get?_of_ne]
        intro heq
        exact targetName_ne (hnames n (by simp)) (List.append_singleton_inj.mp heq).2

theorem EmitsAll.emitted_of_mem (h : EmitsAll options input output d o t names u)
    (hin : t.Leads input d .directory) (hsorted : names.Pairwise fun m n ↦ Text.le m n)
    (hnodup : names.Nodup) (hnames : ∀ n ∈ names, sourceEnding <:+ n) (hn : n ∈ names) :
    ∃ source code bytes, t.Leads (input.child n) (d ++ [n]) (.file source) ∧
      Generates options source code ∧ Utf8.encode code = .ok bytes ∧
      u.find (output.child (targetName n)) = .ok (o ++ [targetName n]) ∧
      (¬ (n = ".js" ∧ (".js.js" : Text) ∈ names) →
        u.get? (o ++ [targetName n]) = some (.file bytes)) := by
  obtain ⟨before, behind, rfl⟩ := List.append_of_mem hn
  obtain ⟨source, code, bytes, hsource, hcode, hencode, htarget, hlast⟩ := h.emitted hin hnames rfl
  exact ⟨source, code, bytes, hsource, hcode, hencode, htarget,
    fun hpair ↦ hlast (targetName_notMem hsorted hnodup hnames hpair)⟩

theorem sourceEnding_suffix {n : Text} (h : n ∈ scriptNames (t.names input)) : sourceEnding <:+ n :=
  ((scriptNames_spec (t.nodup_names input)).2.2 n).mp h |>.2

theorem run_findDirectory (input : Path) (t : Tree) :
    ∃ s, (findDirectory input : StateM Tree _).run t = (s, t) ∧
      (s = .ok () ↔ t.isDirectory input = .ok true) := by
  have hlook : (FileSystem.isDirectory input : StateM Tree _).run t =
    (t.isDirectory input, t) := rfl
  rw [findDirectory, run_bind hlook]
  rcases t.isDirectory input with r | _ | _
  · exact ⟨_, rfl, by simp⟩
  · exact ⟨_, rfl, by simp⟩
  · exact ⟨_, rfl, by simp⟩

/-- With one directory found and the other made, all depends on the scripts. -/
theorem run_compileDirectory (options : Target.Options) (hfound : t.isDirectory input = .ok true)
    (hmake : (makeDirectories output : StateM Tree _).run t = (.ok (), v)) :
    ∃ log, (compileDirectory options input output : StateM Tree _).run t =
      let all := (compileAll options input output (scriptNames (v.names input)) :
        StateM Tree _).run v
      (⟨log, all.1.outcome⟩, all.2) := by
  obtain ⟨found, hrun, hfound'⟩ := run_findDirectory input t
  have hlist : (FileSystem.names input : StateM Tree _).run v = (v.names input, v) := rfl
  rcases hall : (compileAll options input output (scriptNames (v.names input)) :
    StateM Tree _).run v with ⟨all, w⟩
  rw [compileDirectory, run_bind hrun, hfound'.mpr hfound]
  simp only
  rw [run_bind hmake]
  simp only
  rw [run_bind hlist, run_bind hall]
  rcases hpaths : all.outcome with e | paths
  · exact ⟨_, rfl⟩
  · exact ⟨_, rfl⟩

/-- A run that succeeds has found one directory, made the other, and compiled the scripts. -/
theorem emitsAll_of_compileDirectory {result : Logged (Except FileError (List Path))}
    {paths : List Path}
    (hrun : (compileDirectory options input output : StateM Tree _).run t = (result, u))
    (hok : result.outcome = .ok paths) :
    ∃ d o v, t.Leads input d .directory ∧ t.Adds v output ∧ v.Leads output o .directory ∧
      paths = (scriptNames (v.names input)).map (fun n ↦ output.child (targetName n)) ∧
      EmitsAll options input output d o v (scriptNames (v.names input)) u := by
  obtain ⟨found, hfind, hfound⟩ := run_findDirectory input t
  have hmakes := makes_makeDirectories output t
  rcases hmake : (makeDirectories output : StateM Tree _).run t with ⟨made, v⟩
  rw [hmake] at hmakes
  rcases found with e | _
  · rw [compileDirectory, run_bind hfind] at hrun
    cases hrun
    exact absurd hok (by simp)
  rcases made with e | _
  · rw [compileDirectory, run_bind hfind] at hrun
    simp only at hrun
    rw [run_bind hmake] at hrun
    cases hrun
    exact absurd hok (by simp)
  obtain ⟨d, hin⟩ := Tree.isDirectory_eq_true (hfound.mp rfl)
  obtain ⟨o, hout⟩ := hmakes.directory rfl
  obtain ⟨log, hall⟩ := run_compileDirectory options (hfound.mp rfl) hmake
  cases hrun.symm.trans hall
  obtain ⟨hpaths, hemits⟩ := emitsAll_of_compileAll
    (hin.of_directories hmakes.adds.keepsDirectories) hout (fun _ ↦ sourceEnding_suffix) rfl hok
  exact ⟨d, o, v, hin, hmakes.adds, hout, hpaths, hemits⟩

/-- What a run on the directory `input` has made of the tree `t`, if it returns `paths`. -/
structure Outputs (options : Target.Options) (input output : Path) (t u : Tree) (paths : List Path)
    (d : Place) (names : List Text) : Prop where
  /-- The directory is at the place `d`. -/
  directory : t.Leads input d .directory
  /-- The scripts in it have the names `names`, -/
  mem_iff : ∀ n, n ∈ names ↔ sourceEnding <:+ n ∧ t.get? (d ++ [n]) ≠ none
  nodup : names.Nodup
  /-- in order. -/
  sorted : names.Pairwise fun m n ↦ Text.le m n
  /-- There is one path for each of them, -/
  paths_eq : paths = names.map fun n ↦ output.child (targetName n)
  /-- and the paths are different, unless there is a script called `.js` beside one called `.js.js`:
  these two have the same output. -/
  distinct : paths.Nodup ↔ ¬ ((".js" : Text) ∈ names ∧ (".js.js" : Text) ∈ names)
  /-- Each output is the code of what its script was before; the one output of those two is the code
  of `.js.js`. -/
  content : ∀ n ∈ names, ∃ code bytes, Translates options t (input.child n) code ∧
    Utf8.encode code = .ok bytes ∧ (¬ (n = ".js" ∧ (".js.js" : Text) ∈ names) →
      u.node? (output.child (targetName n)) = .ok (some (.file bytes)))
  /-- Nothing else has changed, except that directories were made for the outputs. -/
  others : ∀ q, (∀ path ∈ paths, u.find path ≠ .ok q) →
    u.get? q = t.get? q ∨ t.MadeFor u output q
  home : u.home = t.home

/-- A run on a directory that succeeds has compiled every script in it, and kept every output but
that of `.js` beside `.js.js`. -/
theorem compileDirectory_outputs {result : Logged (Except FileError (List Path))}
    {paths : List Path}
    (hrun : (compileDirectory options input output : StateM Tree _).run t = (result, u))
    (hok : result.outcome = .ok paths) :
    ∃ d names, Outputs options input output t u paths d names := by
  obtain ⟨d, o, v, hin, hadds, hout, rfl, hall⟩ := emitsAll_of_compileDirectory hrun hok
  have hin' := hin.of_directories hadds.keepsDirectories
  obtain ⟨hsorted, hnodup, hmem⟩ := scriptNames_spec (v.nodup_names input)
  have hemitted := fun n (hn : n ∈ scriptNames (v.names input)) ↦
    hall.emitted_of_mem hin' hsorted hnodup (fun _ ↦ sourceEnding_suffix) hn
  refine ⟨d, scriptNames (v.names input), ?_⟩
  refine ⟨hin, fun n ↦ ?_, hnodup, hsorted, rfl, nodup_targets output hnodup fun _ ↦
    sourceEnding_suffix, fun n hn ↦ ?_, fun q hq ↦ ?_, hall.keepsDirectories.1.trans hadds.home⟩
  · rw [hmem, Tree.mem_names hin'.1, and_comm]
    refine and_congr_right fun hsuffix ↦ ⟨fun hget ↦ ?_, fun hget ↦ ?_⟩
    · have hn := (hmem n).mpr ⟨(Tree.mem_names hin'.1).mpr hget, hsuffix⟩
      obtain ⟨source, _, _, hsource, _⟩ := hemitted n hn
      rw [hadds.file_iff.mp hsource.2]
      simp
    · rcases hadds.node (d ++ [n]) with hsame | hmade
      · rwa [hsame]
      · exact absurd hmade.nothing hget
  · obtain ⟨source, code, bytes, hsource, hcode, hencode, htarget, hlast⟩ := hemitted n hn
    have hfind := (Tree.find_child_congr hin hin' n).trans hsource.1
    refine ⟨code, bytes, ⟨source, ?_, hcode⟩, hencode, fun hpair ↦ ?_⟩
    · exact Tree.Leads.node? ⟨hfind, hadds.file_iff.mp hsource.2⟩
    · exact Tree.Leads.node? ⟨htarget, hlast hpair⟩
  · have hkept : u.get? q = v.get? q := by
      refine hall.get?_of_ne fun n hn hplace ↦ ?_
      obtain ⟨_, _, _, _, _, _, htarget, _⟩ := hemitted n hn
      exact hq _ (List.mem_map_of_mem hn) (hplace ▸ htarget)
    rw [hkept]
    exact (hadds.node q).imp_right fun hmade ↦ hmade.of_directories hall.keepsDirectories

/-- A run can be computed up to the order of the names. -/
theorem outcome_compileDirectory {paths : List Path} (hfound : t.isDirectory input = .ok true)
    (hmake : ((makeDirectories output : StateM Tree _).run t).1.toOption = some ())
    (hsorted : scriptNames (((makeDirectories output : StateM Tree _).run t).2.names input) = names)
    (hall : ((compileAll options input output names : StateM Tree _).run
      ((makeDirectories output : StateM Tree _).run t).2).1.outcome.toOption = some paths) :
    ((compileDirectory options input output : StateM Tree _).run t).1.outcome = .ok paths := by
  have hmake' : (makeDirectories output : StateM Tree _).run t = (.ok (), _) :=
    Prod.ext (ok_of_toOption hmake) rfl
  obtain ⟨log, hrun⟩ := run_compileDirectory options hfound hmake'
  rw [hrun, hsorted]
  exact ok_of_toOption hall

/-- A script in the working directory is compiled beside itself, and replaces an older output. -/
theorem compileDirectory_outputs_sample :
    let bytes : String → Bytes := fun s ↦ s.toList.map fun c ↦ c.toNat.toUInt8
    let t : Tree :=
      { home := ["w"]
        nodes := [(["w", "a.js"], .file (bytes "x = 1;")), (["w", "a.prw"], .file (bytes "old")),
          (["w", "b.js"], .file (bytes "y = 1;"))]
        distinct := by decide
        unlisted := by decide }
    let here := Path.ofText "."
    let run := (compileDirectory {} here here : StateM Tree _).run t
    let paths := [Path.ofText "a.prw", Path.ofText "b.prw"]
    run.1.outcome = .ok paths ∧ ∃ d names, Outputs {} here here t run.2 paths d names := by
  intro bytes t here run paths
  have hok : run.1.outcome = .ok paths :=
    outcome_compileDirectory (by decide +kernel) (by decide +kernel)
      (List.mergeSort_of_pairwise (by decide +kernel)) (by decide +kernel)
  exact ⟨hok, compileDirectory_outputs rfl hok⟩

/-- Two scripts with one output. -/
theorem outputs_coincide :
    let bytes : String → Bytes := fun s ↦ s.toList.map fun c ↦ c.toNat.toUInt8
    let t : Tree :=
      { nodes :=
          [([".js"], .file (bytes "let a = 1;\n")), ([".js.js"], .file (bytes "let b = 2;\n"))]
        distinct := by decide
        unlisted := by decide }
    let run := (compileDirectory {} (Path.ofText ".") (Path.ofText "out") : StateM Tree _).run t
    run.1.outcome = .ok [Path.ofText "out/.js.prw", Path.ofText "out/.js.prw"] := by
  intro bytes t run
  exact outcome_compileDirectory (by decide +kernel) (by decide +kernel)
    (List.mergeSort_of_pairwise (by decide +kernel)) (by decide +kernel)

end

end File

end Advplc

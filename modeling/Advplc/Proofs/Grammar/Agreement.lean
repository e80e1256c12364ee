import Advplc.Proofs.Grammar.Steps

/-!
# Parsers that agree on short streams

The rules of the grammar are closed off by counting tokens: a rule over `n` tokens is unrolled `n`
times, and a repetition goes round at most as often as there are tokens.  What makes the counts
harmless is that every rule takes a token before it comes back to itself.  `Agree k d p q` packs
that up in a form that goes through `bind`: on streams of at most `k` tokens `p` and `q` answer the
same, what they leave is an end of what they were given, and success has taken at least `d` tokens.

With `p = q` this says how a rule moves through the stream.  With two rules that differ only in how
often they were unrolled it says that the difference does not show.

Templates are counted in the same way, by how deep they nest, and this count is in the context.  So
`p` and `q` may run in two contexts, provided that these are `Context.Alike`: a rule asks its
context for nothing but the end of the stream and holes that are shorter than the templates they are
in.

* `agree_separated`, `agree_listed`, `agree_untilKind`: repetitions, with any two counts that are
  large enough.
* `separated_eq`, `listed_eq`, `untilKind_eq`: the same repetitions as equations without a count.
-/

set_option autoImplicit false

namespace Advplc.Grammar

open Script

variable {α β : Type}

/-- The tokens that an outcome leaves. -/
def Outcome.rest : Outcome α → List Token
  | ok _ rest | error _ rest => rest

/-! ## Contexts for one stream -/

/-- Whether two contexts are as good as each other for a stream: it ends at the same position in
both, and they read the same in whatever is shorter than one of the tokens. -/
structure Context.Alike (env env' : Context) (ts : List Token) : Prop where
  finish : env.finish = env'.finish
  hole : ∀ t ∈ ts, ∀ w, t.lexeme = .text w → ∀ source p, source.length < w.length →
    env.hole source p = env'.hole source p

namespace Context.Alike

variable {env env' : Context} {ts rest : List Token}

theorem refl (env : Context) (ts : List Token) : env.Alike env ts where
  finish := rfl
  hole _ _ _ _ _ _ _ := rfl

theorem symm (h : env.Alike env' ts) : env'.Alike env ts where
  finish := h.finish.symm
  hole t ht w hw source p hlt := (h.hole t ht w hw source p hlt).symm

theorem suffix (h : env.Alike env' ts) (hrest : rest <:+ ts) : env.Alike env' rest where
  finish := h.finish
  hole t ht := h.hole t (hrest.subset ht)

end Context.Alike

namespace Parse

/-! ## Agreement -/

/-- On streams of at most `k` tokens, `p` and `q` answer the same in contexts that are alike, leave
an end of the stream, and take at least `d` tokens when they succeed. -/
def Agree (k d : Nat) (p q : Parse α) : Prop :=
  ∀ env env' ts, env.Alike env' ts → ts.length ≤ k →
    p env ts = q env' ts ∧ (p env ts).rest <:+ ts ∧
      ∀ a rest, p env ts = .ok a rest → rest.length + d ≤ ts.length

namespace Agree

variable {k d e : Nat} {p q : Parse α}

theorem mono (h : Agree k d p q) {k' d' : Nat} (hk : k' ≤ k) (hd : d' ≤ d) : Agree k' d' p q := by
  intro env env' ts halike hts
  obtain ⟨heq, hrest, htake⟩ := h env env' ts halike (Nat.le_trans hts hk)
  refine ⟨heq, hrest, fun a rest hok ↦ ?_⟩
  have := htake a rest hok
  omega

theorem symm (h : Agree k d p q) : Agree k d q p := by
  intro env env' ts halike hts
  obtain ⟨heq, hrest, htake⟩ := h env' env ts halike.symm hts
  rw [heq] at hrest htake
  exact ⟨heq.symm, hrest, htake⟩

theorem trans {r : Parse α} (h : Agree k d p q) (h' : Agree k d q r) : Agree k d p r := by
  intro env env' ts halike hts
  obtain ⟨heq, hrest, htake⟩ := h env env' ts halike hts
  exact ⟨heq.trans (h' env' env' ts (.refl env' ts) hts).1, hrest, htake⟩

theorem left (h : Agree k d p q) : Agree k d p p := h.trans h.symm

theorem right (h : Agree k d p q) : Agree k d q q := h.symm.trans h

/-- How many tokens are taken at least can be forgotten. -/
theorem zero (h : Agree k d p q) : Agree k 0 p q := h.mono (Nat.le_refl k) (Nat.zero_le d)

section Run

variable {env : Context} {ts : List Token} (h : Agree k d p q) (hts : ts.length ≤ k)
include h hts

theorem eq : p env ts = q env ts := (h env env ts (.refl env ts) hts).1

theorem rest_suffix : (p env ts).rest <:+ ts := (h env env ts (.refl env ts) hts).2.1

theorem takes {a : α} {rest : List Token} (hok : p env ts = .ok a rest) :
    rest.length + d ≤ ts.length := (h env env ts (.refl env ts) hts).2.2 a rest hok

end Run

theorem pure (a : α) : Agree k 0 (pure a) (pure a) := by
  intro env _ ts _ _
  refine ⟨rfl, List.suffix_rfl, fun b rest h ↦ ?_⟩
  cases h
  exact Nat.le_refl _

/-- The second part of a sequence only sees what the first part has left. -/
theorem bind {f g : α → Parse β} (hp : Agree k d p q)
    (hf : ∀ a, d ≤ k → Agree (k - d) e (f a) (g a)) : Agree k (d + e) (p >>= f) (q >>= g) := by
  intro env env' ts halike hts
  obtain ⟨heq, hrest, htake⟩ := hp env env' ts halike hts
  cases hpe : p env ts with
  | error fault rest =>
    rw [hpe] at heq hrest
    rw [bind_of_error hpe, bind_of_error heq.symm]
    exact ⟨rfl, hrest, fun b r h ↦ by cases h⟩
  | ok a mid =>
    rw [hpe] at heq hrest
    have hmid := htake a mid hpe
    obtain ⟨heq', hrest', htake'⟩ :=
      hf a (by omega) env env' mid (halike.suffix hrest) (by omega)
    rw [bind_of_ok hpe, bind_of_ok heq.symm]
    refine ⟨heq', hrest'.trans hrest, fun b rest h ↦ ?_⟩
    have := htake' b rest h
    omega

/-- A sequence whose first part takes nothing. -/
theorem bind_zero {f g : α → Parse β} (hp : Agree k 0 p q) (hf : ∀ a, Agree k d (f a) (g a)) :
    Agree k d (p >>= f) (q >>= g) := by
  have h := hp.bind fun a _ ↦ hf a
  rwa [Nat.zero_add] at h

/-- A sequence whose first part takes a token. -/
theorem bind_one {f g : α → Parse β} (hp : Agree k 1 p q)
    (hf : ∀ a, 1 ≤ k → Agree (k - 1) 0 (f a) (g a)) : Agree k 1 (p >>= f) (q >>= g) := hp.bind hf

theorem ite {c : Prop} [Decidable c] {p' q' : Parse α} (ht : Agree k d p q)
    (he : Agree k d p' q') : Agree k d (if c then p else p') (if c then q else q') := by
  split
  · exact ht
  · exact he

end Agree

/-! ### The parsers that look at the stream or read one token -/

variable {k : Nat}

/-- A parser that only looks at the stream. -/
theorem agree_look (g : List Token → α) :
    Agree k 0 (fun _ ts ↦ .ok (g ts) ts : Parse α) (fun _ ts ↦ .ok (g ts) ts) := by
  intro env _ ts _ _
  refine ⟨rfl, List.suffix_rfl, fun a rest h ↦ ?_⟩
  cases h
  exact Nat.le_refl _

theorem agree_peekToken : Agree k 0 peekToken peekToken := agree_look _

theorem agree_peek : Agree k 0 peek peek := agree_look _

theorem agree_check (ks : List Kind) : Agree k 0 (check ks) (check ks) := agree_look _

theorem agree_atWord (w : Text) : Agree k 0 (atWord w) (atWord w) := agree_look _

/-- The end of the stream is all of the context that goes into a fault. -/
theorem faultAt_alike {env env' : Context} {ts : List Token} (h : env.Alike env' ts) (w : Wanted)
    (label : Text) : faultAt w label env ts = faultAt w label env' ts := by
  cases ts with
  | nil => rw [faultAt, faultAt, h.finish]
  | cons t ts => rfl

theorem agree_throw (d : Nat) (f : Fault) : Agree k d (throw f : Parse α) (throw f) := by
  intro env _ ts _ _
  exact ⟨rfl, List.suffix_rfl, fun a rest h ↦ by cases h⟩

theorem agree_fail (d : Nat) (w : Wanted) (label : Text) :
    Agree k d (fail w label : Parse α) (fail w label) := by
  intro env env' ts halike _
  refine ⟨?_, List.suffix_rfl, fun a rest h ↦ by cases h⟩
  rw [fail, fail, faultAt_alike halike]

theorem agree_next : Agree k 1 next next := by
  intro env env' ts halike _
  refine ⟨?_, ?_, fun a rest h ↦ ?_⟩
  · cases ts with
    | nil => exact ((agree_fail (k := 0) 1 _ _) env env' [] halike (Nat.le_refl 0)).1
    | cons t ts => rfl
  · cases ts with
    | nil => exact List.suffix_rfl
    | cons t ts => exact List.suffix_cons t ts
  · cases ts with
    | nil => cases h
    | cons t ts => cases h; exact Nat.le_refl _

/-- A token and what it leads to, which may ask the contexts about that token. -/
theorem agree_next_bind {f g : Token → Parse β}
    (h : ∀ t env env' ts, env.Alike env' (t :: ts) →
      f t env ts = g t env' ts ∧ (f t env ts).rest <:+ ts) :
    Agree k 1 (next >>= f) (next >>= g) := by
  intro env env' ts halike hts
  cases ts with
  | nil =>
    have hnone : Agree 0 1 (next >>= f) (next >>= g) :=
      agree_next.bind_one fun _ hk ↦ absurd hk (by omega)
    exact hnone env env' [] halike (Nat.le_refl 0)
  | cons t ts =>
    obtain ⟨heq, hrest⟩ := h t env env' ts halike
    refine ⟨heq, hrest.trans (List.suffix_cons t ts), fun a rest hok ↦ ?_⟩
    have hrun : f t env ts = .ok a rest := hok
    rw [hrun] at hrest
    exact Nat.succ_le_succ hrest.length_le

theorem agree_expect (kind : Kind) : Agree k 1 (expect kind) (expect kind) := by
  intro env env' ts halike _
  refine ⟨?_, ?_, fun a rest h ↦ ?_⟩
  · cases ts with
    | nil => exact ((agree_fail (k := 0) 1 _ _) env env' [] halike (Nat.le_refl 0)).1
    | cons t ts =>
      rw [expect, expect]
      split
      · rfl
      · exact (agree_fail 1 _ _ env env' (t :: ts) halike (Nat.le_refl _)).1
  · cases ts with
    | nil => exact List.suffix_rfl
    | cons t ts =>
      rw [expect]
      split
      · exact List.suffix_cons t ts
      · exact List.suffix_rfl
  · cases ts with
    | nil => cases h
    | cons t ts =>
      rw [expect] at h
      split at h
      · cases h; exact Nat.le_refl _
      · cases h

theorem agree_word (w : Text) : Agree k 1 (word w) (word w) :=
  (agree_atWord w).bind_zero fun _ ↦ agree_next.ite (agree_fail 1 _ _)

theorem agree_textFor (use : Use) (l : Lexeme) : Agree k 0 (textFor use l) (textFor use l) := by
  cases l with
  | text t => exact Agree.pure t
  | number n => exact agree_throw 0 _
  | absent => exact agree_throw 0 _

/-! ### Counting the tokens that are left -/

/-- Parsers that are given the number of tokens left agree if they do for every number. -/
theorem agree_withSize {d : Nat} {f g : Nat → Parse α} (h : ∀ n, n ≤ k → Agree n d (f n) (g n)) :
    Agree k d (withSize f) (withSize g) :=
  fun env env' ts halike hts ↦ h ts.length hts env env' ts halike (Nat.le_refl _)

/-- A parser agrees with one that is given the number of tokens left if it does for every number. -/
theorem agree_withSize_right {d : Nat} {p : Parse α} {g : Nat → Parse α}
    (h : ∀ n, n ≤ k → Agree n d p (g n)) : Agree k d p (withSize g) :=
  fun env env' ts halike hts ↦ h ts.length hts env env' ts halike (Nat.le_refl _)

/-- The same for a parser on the left that is given the number. -/
theorem agree_withSize_left {d : Nat} {f : Nat → Parse α} {q : Parse α}
    (h : ∀ n, n ≤ k → Agree n d (f n) q) : Agree k d (withSize f) q :=
  fun env env' ts halike hts ↦ h ts.length hts env env' ts halike (Nat.le_refl _)

/-- Parsers that agree on streams of every length are equal. -/
theorem eq_of_agree {d : Nat} {p q : Parse α} (h : ∀ k, Agree k d p q) : p = q := by
  funext env ts
  exact (h ts.length).eq (Nat.le_refl _)

/-! ## Unrolling

A family `f n i` of parsers that was unrolled `n` times from a rule `F` is, on a stream of at most
`n` tokens, as good as any other unrolling, provided that `F` takes a token before it comes back to
the family.  Hence the family closed off by the number of tokens left satisfies the equation that
`F` stands for.  The index `i` is whatever the rule passes on to itself.
-/

section Unrolling

variable {ι : Type} {d : Nat} {f f' : Nat → ι → Parse α} {F F' : (ι → Parse α) → ι → Parse α}

/-- `f` is `F` unrolled, and on the empty stream one unrolling more does not show. -/
structure Unrolls (d : Nat) (f : Nat → ι → Parse α) (F : (ι → Parse α) → ι → Parse α) : Prop where
  succ : ∀ n i, f (n + 1) i = F (f n) i
  zero : ∀ P i, Agree 0 d (f 0 i) (F P i)

/-- On streams of at most `K` tokens, `F` and `F'` agree if what they are given agrees on shorter
streams. -/
def Guarded (K d : Nat) (F F' : (ι → Parse α) → ι → Parse α) : Prop :=
  ∀ k, k ≤ K → ∀ P Q, (∀ j, j < k → ∀ i, Agree j d (P i) (Q i)) → ∀ i, Agree k d (F P i) (F' Q i)

/-- **Unrolling further than the stream is long makes no difference.** -/
theorem Unrolls.agree (h : Unrolls d f F) (h' : Unrolls d f' F') {K : Nat}
    (hF : Guarded K d F F') :
    ∀ k, k ≤ K → ∀ n m, k ≤ n → k ≤ m → ∀ i, Agree k d (f n i) (f' m i) := by
  intro k
  induction k using Nat.strongRecOn with
  | ind k ih =>
    intro hK n m hn hm i
    match n, m with
    | 0, 0 =>
      obtain rfl : k = 0 := Nat.le_zero.mp hn
      have hFF := hF 0 hK (f 0) (f 0) (fun j hj ↦ absurd hj (Nat.not_lt_zero j)) i
      exact ((h.zero (f 0) i).trans hFF).trans (h'.zero (f 0) i).symm
    | 0, m + 1 =>
      obtain rfl : k = 0 := Nat.le_zero.mp hn
      rw [h'.succ]
      exact (h.zero (f' m) i).trans
        (hF 0 hK (f' m) (f' m) (fun j hj ↦ absurd hj (Nat.not_lt_zero j)) i)
    | n + 1, 0 =>
      obtain rfl : k = 0 := Nat.le_zero.mp hm
      rw [h.succ]
      exact (hF 0 hK (f n) (f n) (fun j hj ↦ absurd hj (Nat.not_lt_zero j)) i).trans
        (h'.zero (f n) i).symm
    | n + 1, m + 1 =>
      rw [h.succ, h'.succ]
      exact hF k hK (f n) (f' m) (fun j hj i ↦ ih j hj (by omega) n m (by omega) (by omega) i) i

/-- Two families that are closed off by the number of tokens left. -/
theorem Unrolls.agree_withSize (h : Unrolls d f F) (h' : Unrolls d f' F') {K : Nat}
    (hF : Guarded K d F F') (i : ι) :
    Agree K d (withSize fun n ↦ f n i) (withSize fun n ↦ f' n i) :=
  Parse.agree_withSize fun n hn ↦ h.agree h' hF n hn n n (Nat.le_refl n) (Nat.le_refl n) i

/-- **A family closed off by the number of tokens left is a fixed point of its rule.** -/
theorem Unrolls.withSize_eq (h : Unrolls d f F) (hF : ∀ K, Guarded K d F F) (i : ι) :
    (withSize fun n ↦ f n i) = F (fun i ↦ withSize fun n ↦ f n i) i := by
  refine eq_of_agree (d := d) fun k ↦ agree_withSize_left fun n _ ↦ ?_
  cases n with
  | zero => exact h.zero _ i
  | succ n =>
    rw [h.succ]
    refine hF (n + 1) (n + 1) (Nat.le_refl _) _ _ (fun j hj i ↦ ?_) i
    exact agree_withSize_right fun m hm ↦
      h.agree h (hF m) m (Nat.le_refl m) n m (by omega) (Nat.le_refl m) i

end Unrolling

/-! ### Items with commas between them -/

section Repetition

variable {item item' : Parse α}

/-- What `separated` does with the rest of the items. -/
def separatedStep (item : Parse α) (further : Unit → Parse (List α)) (_ : Unit) :
    Parse (List α) := do
  let a ← item
  if ← atMark .comma then
    let _ ← next
    return a :: (← further ())
  else return [a]

theorem guarded_separatedStep {K : Nat} (h : Agree K 1 item item') :
    Guarded K 1 (separatedStep item) (separatedStep item') := by
  intro k hk P Q hPQ i
  refine (h.mono hk (Nat.le_refl _)).bind_one fun a _ ↦ (agree_check _).bind_zero fun _ ↦
    Agree.ite ?_ (Agree.pure _)
  refine (agree_next.bind_one fun _ _ ↦ ?_).zero
  exact (hPQ (k - 1 - 1) (by omega) ()).zero.bind_zero fun _ ↦ Agree.pure _

theorem unrolls_separatedAt (h : Agree 0 1 item item) :
    Unrolls 1 (fun n (_ : Unit) ↦ separatedAt item n) (separatedStep item) where
  succ _ _ := rfl
  zero _ _ := h.bind_one fun _ hk ↦ absurd hk (by omega)

theorem agree_separated {K : Nat} (h : Agree K 1 item item') :
    Agree K 1 (separated item) (separated item') :=
  (unrolls_separatedAt (h.left.mono (Nat.zero_le _) (Nat.le_refl _))).agree_withSize
    (unrolls_separatedAt (h.right.mono (Nat.zero_le _) (Nat.le_refl _)))
    (guarded_separatedStep h) ()

theorem separated_eq (h : ∀ k, Agree k 1 item item) :
    separated item = separatedStep item (fun _ ↦ separated item) () :=
  (unrolls_separatedAt (h 0)).withSize_eq (fun K ↦ guarded_separatedStep (h K)) ()

/-- What `listed` does with the rest of the items. -/
def listedStep (close : Mark) (item : Parse α) (further : Unit → Parse (List α)) (_ : Unit) :
    Parse (List α) := do
  if ← atMark close then return []
  else
    let a ← item
    if ← atMark .comma then
      let _ ← next
      return a :: (← further ())
    else return [a]

theorem guarded_listedStep {K : Nat} (close : Mark) (h : Agree K 1 item item') :
    Guarded K 0 (listedStep close item) (listedStep close item') := by
  intro k hk P Q hPQ i
  refine (agree_check _).bind_zero fun _ ↦ Agree.ite (Agree.pure _) ?_
  refine ((h.mono hk (Nat.le_refl _)).bind_one fun a _ ↦ (agree_check _).bind_zero fun _ ↦
    Agree.ite ?_ (Agree.pure _)).zero
  refine (agree_next.bind_one fun _ _ ↦ ?_).zero
  exact (hPQ (k - 1 - 1) (by omega) ()).bind_zero fun _ ↦ Agree.pure _

theorem unrolls_listedAt (close : Mark) (h : Agree 0 1 item item) :
    Unrolls 0 (fun n (_ : Unit) ↦ listedAt close item n) (listedStep close item) where
  succ _ _ := rfl
  zero _ _ := (agree_check _).bind_zero fun _ ↦ Agree.ite (Agree.pure _)
    (h.bind_one fun _ hk ↦ absurd hk (by omega)).zero

theorem agree_listed {K : Nat} (close : Mark) (h : Agree K 1 item item') :
    Agree K 0 (listed close item) (listed close item') :=
  (unrolls_listedAt close (h.left.mono (Nat.zero_le _) (Nat.le_refl _))).agree_withSize
    (unrolls_listedAt close (h.right.mono (Nat.zero_le _) (Nat.le_refl _)))
    (guarded_listedStep close h) ()

theorem listed_eq (close : Mark) (h : ∀ k, Agree k 1 item item) :
    listed close item = listedStep close item (fun _ ↦ listed close item) () :=
  (unrolls_listedAt close (h 0)).withSize_eq (fun K ↦ guarded_listedStep close (h K)) ()

/-! ### Items up to a token of given kinds -/

/-- What `untilKind` does with the rest of the items. -/
def untilStep (stop : List Kind) (item : Parse α) (further : Unit → Parse (List α)) (_ : Unit) :
    Parse (List α) := do
  if ← check stop then return []
  else
    let a ← item
    return a :: (← further ())

theorem guarded_untilStep {K : Nat} (stop : List Kind) (h : Agree K 1 item item') :
    Guarded K 0 (untilStep stop item) (untilStep stop item') := by
  intro k hk P Q hPQ i
  refine (agree_check _).bind_zero fun _ ↦ Agree.ite (Agree.pure _) ?_
  refine ((h.mono hk (Nat.le_refl _)).bind_one fun a _ ↦ ?_).zero
  exact (hPQ (k - 1) (by omega) ()).bind_zero fun _ ↦ Agree.pure _

/-- The end of the stream has to stop the repetition, or else unrolling once would stop it too
early. -/
theorem unrolls_untilAt {stop : List Kind} (hs : .endOfInput ∈ stop) :
    Unrolls 0 (fun n (_ : Unit) ↦ untilAt stop item n) (untilStep stop item) where
  succ _ _ := rfl
  zero P _ := by
    intro env env' ts halike hts
    obtain rfl : ts = [] := List.length_eq_zero_iff.mp (Nat.le_zero.mp hts)
    have hstop : stop.contains .endOfInput = true := List.contains_iff_mem.mpr hs
    have hstep : untilStep stop item P () env' [] = .ok [] [] := by
      show (if stop.contains .endOfInput = true then pure [] else _ : Parse (List α)) env' [] = _
      rw [if_pos hstop]
      rfl
    rw [hstep]
    exact Agree.pure (k := 0) [] env env' [] halike hts

theorem agree_untilKind {K : Nat} {stop : List Kind} (hs : .endOfInput ∈ stop)
    (h : Agree K 1 item item') : Agree K 0 (untilKind stop item) (untilKind stop item') :=
  (unrolls_untilAt hs).agree_withSize (unrolls_untilAt hs) (guarded_untilStep stop h) ()

theorem untilKind_eq {stop : List Kind} (hs : .endOfInput ∈ stop) (h : ∀ k, Agree k 1 item item) :
    untilKind stop item = untilStep stop item (fun _ ↦ untilKind stop item) () :=
  (unrolls_untilAt hs).withSize_eq (fun K ↦ guarded_untilStep stop (h K)) ()

end Repetition

end Parse

end Advplc.Grammar

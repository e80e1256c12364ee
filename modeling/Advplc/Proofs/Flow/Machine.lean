import Advplc.Text.Basic

/-!
# Machines that execute control flow

To compare the control flow of a program with that of the code generated for it, both are executed
by machines of one kind.  A machine does not know the values of variables.  It runs lines of code,
which are texts to it, and where the control flow depends on a value it asks a question; an oracle
answers the questions in turn.

What can be seen of a run is an `Observation`: the lines that were run and the questions that were
asked, in order, and how the run ended, if it did.  Besides, a machine may move without doing
anything that can be seen, but not forever: such moves lower its `rank`.

`Machine.observe_eq` is the way to show that two machines cannot be told apart: relate their states
such that each move of the first machine is matched by the second one, which may make moves that
cannot be seen before it.
-/

set_option autoImplicit false

namespace Advplc.Flow

/-- What the control flow depends on. -/
inductive Question where
  /-- Whether a test holds. -/
  | test (text : Text)
  /-- Whether there is another value for the variable of a counting loop. -/
  | count (header : Text)
deriving DecidableEq

/-- One thing that can be seen of a run. -/
inductive Event where
  /-- A line was run. -/
  | ran (line : Text)
  /-- A question was asked and answered. -/
  | asked (question : Question) (answer : Bool)
deriving DecidableEq

/-- How a run ends. -/
inductive Ending where
  /-- There was nothing left to do. -/
  | finished
  /-- A `return`, with the value that it names. -/
  | returned (value : Option Text)
  /-- The run came to something that has no meaning there, as a `break` outside of loops. -/
  | stray
deriving DecidableEq

/-- What a machine does next. -/
inductive Move (σ : Type) where
  | ends (ending : Ending)
  /-- Goes on without doing anything that can be seen. -/
  | quietly (next : σ)
  | shows (line : Text) (next : σ)
  | asks (question : Question) (next : Bool → σ)

/-- Two moves look the same and lead to related states. -/
inductive Move.Alike {σ τ : Type} (related : σ → τ → Prop) : Move σ → Move τ → Prop where
  | ends (ending : Ending) : Move.Alike related (.ends ending) (.ends ending)
  | shows (line : Text) {s : σ} {t : τ} (h : related s t) :
      Move.Alike related (.shows line s) (.shows line t)
  | asks (q : Question) {f : Bool → σ} {g : Bool → τ}
      (h : ∀ answer, related (f answer) (g answer)) : Move.Alike related (.asks q f) (.asks q g)

/-- The move does not end the run astray, and leads to states with a property. -/
def Move.Keeps {σ : Type} (inv : σ → Prop) : Move σ → Prop
  | .ends ending => ending ≠ .stray
  | .quietly s => inv s
  | .shows _ s => inv s
  | .asks _ next => ∀ answer, inv (next answer)

/-- A machine, which moves from state to state. -/
structure Machine (σ : Type) where
  /-- The next move. -/
  step : σ → Move σ
  /-- How long the machine may go on without doing anything that can be seen. -/
  rank : σ → Nat
  rank_lt {s s' : σ} (h : step s = .quietly s') : rank s' < rank s

/-- What can be seen of a run. -/
structure Observation where
  /-- What happened, in order. -/
  events : List Event
  /-- How the run ended, if it did. -/
  ending : Option Ending
deriving DecidableEq

/-- The observation of a run that did something else before. -/
def Observation.after (e : Event) (o : Observation) : Observation := ⟨e :: o.events, o.ending⟩

/-- The answers to the questions of a run, in turn. -/
abbrev Oracle := Nat → Bool

/-- The answers after the first one. -/
def Oracle.rest (oracle : Oracle) : Oracle := fun i ↦ oracle (i + 1)

namespace Machine

variable {σ τ : Type}

/-- What can be seen of the first `n` steps of a run, moves that cannot be seen not counted. -/
def observe (m : Machine σ) (oracle : Oracle) (n : Nat) (s : σ) : Observation :=
  match _h : m.step s with
  | .ends ending => ⟨[], some ending⟩
  | .quietly s' => m.observe oracle n s'
  | .shows line s' =>
    match n with
    | 0 => ⟨[], none⟩
    | n + 1 => (m.observe oracle n s').after (.ran line)
  | .asks q next =>
    match n with
    | 0 => ⟨[], none⟩
    | n + 1 => (m.observe oracle.rest n (next (oracle 0))).after (.asked q (oracle 0))
termination_by (n, m.rank s)
decreasing_by
  · exact Prod.Lex.right _ (m.rank_lt _h)
  · exact Prod.Lex.left _ _ (Nat.lt_succ_self n)
  · exact Prod.Lex.left _ _ (Nat.lt_succ_self n)

/-! ## One step of a run -/

variable {m : Machine σ} {s s' : σ}

theorem observe_ends {ending : Ending} (h : m.step s = .ends ending) (oracle : Oracle) (n : Nat) :
    m.observe oracle n s = ⟨[], some ending⟩ := by
  rw [observe]
  split <;> simp_all

theorem observe_quietly (h : m.step s = .quietly s') (oracle : Oracle) (n : Nat) :
    m.observe oracle n s = m.observe oracle n s' := by
  rw [observe]
  split <;> simp_all

theorem observe_shows {line : Text} (h : m.step s = .shows line s') (oracle : Oracle) (n : Nat) :
    m.observe oracle n s =
      match n with
      | 0 => ⟨[], none⟩
      | n + 1 => (m.observe oracle n s').after (.ran line) := by
  rw [observe]
  split <;> simp_all

theorem observe_asks {q : Question} {next : Bool → σ} (h : m.step s = .asks q next)
    (oracle : Oracle) (n : Nat) :
    m.observe oracle n s =
      match n with
      | 0 => ⟨[], none⟩
      | n + 1 => (m.observe oracle.rest n (next (oracle 0))).after (.asked q (oracle 0)) := by
  rw [observe]
  split <;> simp_all

/-! ## Runs that do not stray -/

/-- A run that every step keeps from straying does not end astray. -/
theorem ending_ne_stray {m : Machine σ} {inv : σ → Prop} (hstep : ∀ s, inv s → (m.step s).Keeps inv)
    (oracle : Oracle) (n : Nat) (s : σ) (h : inv s) :
    (m.observe oracle n s).ending ≠ some .stray := by
  fun_induction observe m oracle n s with
  | case1 oracle n s ending hs =>
    have hkeeps := hstep s h
    rw [hs] at hkeeps
    exact fun heq ↦ hkeeps (Option.some.inj heq)
  | case2 oracle n s s' hs ih =>
    have hkeeps := hstep s h
    rw [hs] at hkeeps
    exact ih hkeeps
  | case3 => simp
  | case4 oracle s line s' hs n ih =>
    have hkeeps := hstep s h
    rw [hs] at hkeeps
    exact ih hkeeps
  | case5 => simp
  | case6 oracle s q next hs n ih =>
    have hkeeps := hstep s h
    rw [hs] at hkeeps
    exact ih (hkeeps (oracle 0))

/-! ## Simulation -/

/-- The machine comes from one state to another one without doing anything that can be seen. -/
inductive Quietly (m : Machine σ) : σ → σ → Prop where
  | refl (s : σ) : Quietly m s s
  | head {s s' s'' : σ} (h : m.step s = .quietly s') (rest : Quietly m s' s'') : Quietly m s s''

theorem Quietly.trans {s'' : σ} (h : m.Quietly s s') (h' : m.Quietly s' s'') :
    m.Quietly s s'' := by
  induction h with
  | refl => exact h'
  | head hstep _ ih => exact .head hstep (ih h')

theorem Quietly.observe_eq (h : m.Quietly s s') (oracle : Oracle) (n : Nat) :
    m.observe oracle n s = m.observe oracle n s' := by
  induction h with
  | refl => rfl
  | head h _ ih => rw [observe_quietly h, ih]

/-- What the second machine has to do in the state `t` when the first one is in the state `s`: it
stays related while the first machine moves unseen, and makes the same move otherwise, possibly
after moves that cannot be seen. -/
inductive Follows (m : Machine σ) (m' : Machine τ) (related : σ → τ → Prop) (s : σ) (t : τ) :
    Prop where
  | unseen {s' : σ} {t' : τ} (hs : m.step s = .quietly s') (ht : m'.Quietly t t')
      (h : related s' t') : Follows m m' related s t
  | seen {t' : τ} (ht : m'.Quietly t t') (h : Move.Alike related (m.step s) (m'.step t')) :
      Follows m m' related s t

theorem Follows.after {m : Machine σ} {m' : Machine τ} {related : σ → τ → Prop} {s : σ} {t t' : τ}
    (ht : m'.Quietly t t') (h : Follows m m' related s t') : Follows m m' related s t := by
  cases h with
  | unseen hs ht' h => exact .unseen hs (ht.trans ht') h
  | seen ht' h => exact .seen (ht.trans ht') h

/-- **Simulation.**  Two machines in related states cannot be told apart if every move of the first
one is followed by the second one. -/
theorem observe_eq {m : Machine σ} {m' : Machine τ} {related : σ → τ → Prop}
    (hstep : ∀ s t, related s t → Follows m m' related s t) (oracle : Oracle) (n : Nat) (s : σ)
    (t : τ) (h : related s t) : m.observe oracle n s = m'.observe oracle n t := by
  -- `n` goes down with a move that is seen, and the rank of the first machine with any other one.
  induction n using Nat.strongRecOn generalizing oracle s t with
  | ind n ihn =>
    induction hrank : m.rank s using Nat.strongRecOn generalizing s t with
    | ind k ihk =>
      obtain ⟨hs, ht, h'⟩ | ⟨ht, h'⟩ := hstep s t h
      · rw [observe_quietly hs, ht.observe_eq]
        exact ihk _ (hrank ▸ m.rank_lt hs) _ _ h' rfl
      · rw [ht.observe_eq]
        generalize ha : m.step s = a, hb : m'.step _ = b at h'
        cases h' with
        | ends ending => rw [observe_ends ha, observe_ends hb]
        | shows line h' =>
          rw [observe_shows ha, observe_shows hb]
          cases n with
          | zero => rfl
          | succ n => simp only [ihn n (Nat.lt_succ_self n) oracle _ _ h']
        | asks q h' =>
          rw [observe_asks ha, observe_asks hb]
          cases n with
          | zero => rfl
          | succ n => simp only [ihn n (Nat.lt_succ_self n) oracle.rest _ _ (h' (oracle 0))]

end Machine

end Advplc.Flow

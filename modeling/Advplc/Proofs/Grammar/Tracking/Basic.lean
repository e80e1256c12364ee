import Advplc.Proofs.Grammar.Places
import Advplc.Proofs.Grammar.RoundTrip
import Mathlib.Computability.Language

/-!
# Parsers that fail no later than they must

Every rule of the grammar reads from left to right, decides by the next token, and never goes back.
So it *tracks* the language of what can be written for it: as long as it has not failed, the tokens
read so far begin a word of the language, and it fails at the first token with which no word goes
on.

`Tracks env p L ts` says so for the run of `p` on the tokens `ts`.

* When `p` succeeds, it has read a word of `L`, and it would have read the same before every rest
  that begins with the same token.
* When `p` fails, it halts (`Halts`) at a token or at the end of the stream.  What stands before
  that place can be completed to a word (`Viable`), with tokens of the lexer; and with the token
  itself `p` fails in the same way, whatever follows.  Apart from that it may fail inside a
  template, or because a token has no text.

The languages are those of Mathlib, lists of tokens with `1` for the empty word, `+` for a choice
and `*` for what is written one behind the other.  A rule that reads one thing after another tracks
the product of their languages (`Tracks.bind`), provided that each of them has some word, so that
what is missing can be supplied.
-/

set_option autoImplicit false

namespace Advplc

/-- Whether the lexer produces a token for some source. -/
def Token.Scanned (t : Token) : Prop :=
  ∃ source start ts, tokenize source start = .ok ts ∧ t ∈ ts

theorem Token.Scanned.of_alone {t : Token} {w : Text}
    (h : (tokenize w Pos.origin).toOption = some [t]) : t.Scanned :=
  ⟨w, Pos.origin, [t], tokenize_of_toOption h, List.mem_singleton_self t⟩

namespace Grammar

open Script Parse

variable {α β : Type}

/-! ## Languages of tokens -/

/-- Whether tokens begin a word of a language and tokens of the lexer complete it. -/
def Viable (L : Language Token) (us : List Token) : Prop :=
  ∃ vs, us ++ vs ∈ L ∧ ∀ v ∈ vs, v.Scanned

/-- Whether tokens of the lexer make up a word of a language. -/
class Speakable (L : Language Token) : Prop where
  viable : Viable L []

/-- The words of one token with a property. -/
def single (P : Token → Prop) : Language Token := {us | ∃ t, P t ∧ us = [t]}

/-- The words of one token of the given kind. -/
def ofKind (k : Kind) : Language Token := single fun t ↦ t.kind = k

/-- The words that write something. -/
def phrases (written : α → List Token → Prop) : Language Token := {us | ∃ a, written a us}

/-- What completes tokens to a word. -/
def after (us : List Token) (L : Language Token) : Language Token := {vs | us ++ vs ∈ L}

section Languages

variable {L M : Language Token} {P : Token → Prop} {us : List Token} {t : Token}

theorem mem_single (h : P t) : [t] ∈ single P := ⟨t, h, rfl⟩

theorem nil_notMem_single : [] ∉ single P := by rintro ⟨t, -, ht⟩; cases ht

theorem nil_notMem_single_mul : [] ∉ single P * M := by
  rintro ⟨_, ⟨t, -, rfl⟩, vs, -, hvs⟩
  cases hvs

@[simp] theorem mem_after {vs : List Token} : vs ∈ after us L ↔ us ++ vs ∈ L := Iff.rfl

theorem after_after {vs : List Token} : after vs (after us L) = after (us ++ vs) L := by
  ext ws
  rw [mem_after, mem_after, mem_after, List.append_assoc]

theorem Viable.of_mem (h : us ∈ L) : Viable L us := ⟨[], by rwa [List.append_nil], by simp⟩

theorem Viable.of_speakable [Speakable L] : Viable L [] := Speakable.viable

theorem Viable.mono (h : Viable L us) (hle : ∀ vs ∈ L, vs ∈ M) : Viable M us := by
  obtain ⟨vs, hvs, hscanned⟩ := h
  exact ⟨vs, hle _ hvs, hscanned⟩

/-- What begins a word of `L` begins a word of `M` if all of `L` does. -/
theorem Viable.trans (h : Viable L us) (hle : ∀ vs ∈ L, Viable M vs) : Viable M us := by
  obtain ⟨vs, hvs, hscanned⟩ := h
  obtain ⟨ws, hws, hscanned'⟩ := hle _ hvs
  refine ⟨vs ++ ws, by rwa [← List.append_assoc], fun t ht ↦ ?_⟩
  exact (List.mem_append.mp ht).elim (hscanned t) (hscanned' t)

instance : Speakable (1 : Language Token) := ⟨.of_mem rfl⟩

instance [Speakable L] [Speakable M] : Speakable (L * M) := by
  obtain ⟨us, hus, hscanned⟩ := Viable.of_speakable (L := L)
  obtain ⟨vs, hvs, hscanned'⟩ := Viable.of_speakable (L := M)
  refine ⟨us ++ vs, Language.mem_mul.mpr ⟨us, hus, vs, hvs, rfl⟩, fun t ht ↦ ?_⟩
  exact (List.mem_append.mp ht).elim (hscanned t) (hscanned' t)

instance [Speakable L] : Speakable (L + M) :=
  ⟨Viable.of_speakable.mono fun _ h ↦ .inl h⟩

theorem speakable_single (ht : t.Scanned) (h : P t) : Speakable (single P) :=
  ⟨[t], mem_single h, by simpa using ht⟩

/-- A reserved word at the beginning of a source. -/
def keywordToken (w : Keyword) : Token := ⟨.keyword w, w.spelling, Pos.origin⟩

theorem scanned_markToken (m : Mark) : (markToken m).Scanned := by
  have hall : ∀ m ∈ Mark.all, (tokenize m.spelling Pos.origin).toOption = some [markToken m] := by
    decide +kernel
  exact .of_alone (hall m m.mem_all)

theorem scanned_keywordToken (w : Keyword) : (keywordToken w).Scanned := by
  have hall : ∀ w ∈ Keyword.all,
      (tokenize w.spelling Pos.origin).toOption = some [keywordToken w] := by decide +kernel
  exact .of_alone (hall w w.mem_all)

theorem scanned_identifierToken : (identifierToken "x").Scanned :=
  .of_alone (w := "x") (by decide +kernel)

/-- The string `""` at the beginning of a source. -/
def emptyString : Token := ⟨.string, "\"\"", Pos.origin⟩

theorem scanned_emptyString : emptyString.Scanned := .of_alone (w := "\"\"") (by decide +kernel)

instance (m : Mark) : Speakable (ofKind (.mark m)) := speakable_single (scanned_markToken m) rfl

instance (w : Keyword) : Speakable (ofKind (.keyword w)) :=
  speakable_single (scanned_keywordToken w) rfl

instance : Speakable (ofKind .identifier) := speakable_single scanned_identifierToken rfl

instance : Speakable (ofKind .string) := speakable_single scanned_emptyString rfl

end Languages

/-! ## Tracking a language -/

/-- Whether a fault says what was wanted in the place of a token. -/
structure Fault.Blames (f : Fault) (t : Token) : Prop where
  wanted : f.wanted?.isSome = true
  found : f.found? = some t.kind.name
  pos : f.pos? = some t.pos

/-- Why a parser that tracks a language fails. -/
inductive Halts (env : Context) (p : Parse α) (L : Language Token) (ts : List Token) (f : Fault) :
    Prop where
  /-- No word goes on with a token; whatever stands behind it, the fault is the same. -/
  | token (us : List Token) (t : Token) (rest : List Token) (hts : ts = us ++ t :: rest)
      (hblames : f.Blames t) (hviable : Viable L us)
      (hsame : ∀ env' rest', env'.hole = env.hole →
        ∃ rest'', p env' (us ++ t :: rest') = .error f rest'')
  /-- The stream ends before a word is complete; wherever its end is, the fault is there. -/
  | ending (wanted : Wanted) (label : Text) (hf : f = faultAt wanted label env [])
      (hviable : Viable L ts) (hsame : ∀ env', env'.hole = env.hole →
        ∃ rest, p env' ts = .error (faultAt wanted label env' []) rest)
  /-- A hole of a template is open, or cannot be read. -/
  | template (t : Token) (ht : t ∈ ts) (hkind : t.kind = .template)
      (hf : f = .openHole t.pos ∨ ∃ hole ∈ Token.holes t, env.hole hole.1 hole.2 = .error f)
  /-- A token has no text. -/
  | lexeme (t : Token) (ht : t ∈ ts) (htext : ∀ w, t.lexeme ≠ .text w)

/-- On the tokens `ts` the parser `p` reads a word of `L`, or fails where no word goes on. -/
structure Tracks (env : Context) (p : Parse α) (L : Language Token) (ts : List Token) : Prop where
  ok : ∀ ⦃a : α⦄ ⦃rest : List Token⦄, p env ts = .ok a rest → ∃ us, ts = us ++ rest ∧ us ∈ L ∧
    ∀ env' rest', env'.hole = env.hole → rest'.head? = rest.head? →
      p env' (us ++ rest') = .ok a rest'
  error : ∀ ⦃f : Fault⦄ ⦃rest : List Token⦄, p env ts = .error f rest → Halts env p L ts f

variable {env : Context} {p : Parse α} {f : α → Parse β} {L M : Language Token}
  {ts : List Token}

theorem Halts.mono {fault : Fault} (h : Halts env p L ts fault) (hle : ∀ us ∈ L, us ∈ M) :
    Halts env p M ts fault := by
  cases h with
  | token us t rest hts hblames hviable hsame =>
    exact .token us t rest hts hblames (hviable.mono hle) hsame
  | ending wanted label hf hviable hsame =>
    exact .ending wanted label hf (hviable.mono hle) hsame
  | template t ht hkind hf => exact .template t ht hkind hf
  | lexeme t ht htext => exact .lexeme t ht htext

theorem Tracks.mono (h : Tracks env p L ts) (hle : ∀ us ∈ L, us ∈ M) : Tracks env p M ts where
  ok a rest hok := by
    obtain ⟨us, hts, hus, hsame⟩ := h.ok hok
    exact ⟨us, hts, hle _ hus, hsame⟩
  error fault rest herror := (h.error herror).mono hle

theorem Viable.sharpen [Speakable M] {us : List Token} (h : Viable L us)
    (hle : ∀ t vs, us.head? = some t → t :: vs ∈ L → t :: vs ∈ M) : Viable M us := by
  cases us with
  | nil => exact .of_speakable
  | cons u us =>
    obtain ⟨vs, hvs, hscanned⟩ := h
    exact ⟨vs, hle u _ rfl hvs, hscanned⟩

/-- Only the words that begin with the next token have to be words of the larger language. -/
theorem Tracks.sharpen [Speakable M] (h : Tracks env p L ts) (hL : [] ∉ L)
    (hle : ∀ t us, ts.head? = some t → t :: us ∈ L → t :: us ∈ M) : Tracks env p M ts where
  ok a rest hok := by
    obtain ⟨us, rfl, hus, hsame⟩ := h.ok hok
    cases us with
    | nil => exact absurd hus hL
    | cons u us => exact ⟨u :: us, rfl, hle u us rfl hus, hsame⟩
  error fault rest herror := by
    cases h.error herror with
    | token us t rest hts hblames hviable hsame =>
      refine .token us t rest hts hblames (hviable.sharpen fun u vs hu ↦ hle u vs ?_) hsame
      rw [hts, List.head?_append, hu]
      rfl
    | ending wanted label hfault hviable hsame =>
      exact .ending wanted label hfault (hviable.sharpen fun u vs hu ↦ hle u vs hu) hsame
    | template t ht hkind hfault => exact .template t ht hkind hfault
    | lexeme t ht htext => exact .lexeme t ht htext

/-! ### Sequences -/

/-- A sequence fails when one of its parts does. -/
theorem bind_eq_error {fault : Fault} {rest : List Token} :
    (p >>= f) env ts = .error fault rest ↔ p env ts = .error fault rest ∨
      ∃ a mid, p env ts = .ok a mid ∧ f a env mid = .error fault rest := by
  rw [bind_apply]
  cases p env ts with
  | ok a mid => simp
  | error fault' mid => simp

theorem head?_append_congr {us vs ws : List Token} (h : vs.head? = ws.head?) :
    (us ++ vs).head? = (us ++ ws).head? := by
  rw [List.head?_append, List.head?_append, h]

/-- A sequence tracks `M` if its first part reads something with which a word of `M` begins, and its
second part goes on from there. -/
theorem Tracks.bind_of (hp : Tracks env p L ts) (hle : ∀ us ∈ L, Viable M us)
    (hf : ∀ us a rest, ts = us ++ rest → us ∈ L → p env ts = .ok a rest →
      Tracks env (f a) (after us M) rest) : Tracks env (p >>= f) M ts where
  ok b rest hok := by
    obtain ⟨a, mid, ha, hb⟩ := bind_eq_ok.mp hok
    obtain ⟨us, rfl, hus, hsame⟩ := hp.ok ha
    obtain ⟨vs, rfl, hvs, hsame'⟩ := (hf us a mid rfl hus ha).ok hb
    refine ⟨us ++ vs, by rw [List.append_assoc], hvs, fun env' rest' henv hhead ↦ ?_⟩
    rw [List.append_assoc, bind_of_ok (hsame env' (vs ++ rest') henv (head?_append_congr hhead))]
    exact hsame' env' rest' henv hhead
  error fault rest herror := by
    obtain ha | ⟨a, mid, ha, hb⟩ := bind_eq_error.mp herror
    · cases hp.error ha with
      | token us t rest hts hblames hviable hsame =>
        refine .token us t rest hts hblames (hviable.trans hle) fun env' rest' henv ↦ ?_
        obtain ⟨rest'', hrest''⟩ := hsame env' rest' henv
        exact ⟨rest'', bind_of_error hrest'' f⟩
      | ending wanted label hfault hviable hsame =>
        refine .ending wanted label hfault (hviable.trans hle) fun env' henv ↦ ?_
        obtain ⟨rest', hrest'⟩ := hsame env' henv
        exact ⟨rest', bind_of_error hrest' f⟩
      | template t ht hkind hfault => exact .template t ht hkind hfault
      | lexeme t ht htext => exact .lexeme t ht htext
    · obtain ⟨us, rfl, hus, hsame⟩ := hp.ok ha
      have hviable : ∀ vs, Viable (after us M) vs → Viable M (us ++ vs) := by
        rintro vs ⟨ws, hws, hscanned⟩
        exact ⟨ws, by rw [List.append_assoc]; exact hws, hscanned⟩
      cases (hf us a mid rfl hus ha).error hb with
      | token vs t rest hmid hblames hvs hsame' =>
        subst hmid
        refine .token (us ++ vs) t rest (by rw [List.append_assoc]) hblames (hviable vs hvs)
          fun env' rest' henv ↦ ?_
        have hhead : (vs ++ t :: rest').head? = (vs ++ t :: rest).head? := head?_append_congr rfl
        rw [List.append_assoc, bind_of_ok (hsame env' _ henv hhead)]
        exact hsame' env' rest' henv
      | ending wanted label hfault hvs hsame' =>
        refine .ending wanted label hfault (hviable mid hvs) fun env' henv ↦ ?_
        rw [bind_of_ok (hsame env' mid henv rfl)]
        exact hsame' env' henv
      | template t ht hkind hfault =>
        exact .template t (List.mem_append_right us ht) hkind hfault
      | lexeme t ht htext => exact .lexeme t (List.mem_append_right us ht) htext

/-- **A sequence tracks the product of the languages of its parts.** -/
theorem Tracks.bind [Speakable M] (hp : Tracks env p L ts)
    (hf : ∀ a rest, p env ts = .ok a rest → rest.length ≤ ts.length → Tracks env (f a) M rest) :
    Tracks env (p >>= f) (L * M) ts := by
  refine hp.bind_of (fun us hus ↦ ?_) fun us a rest hts hus hok ↦ ?_
  · obtain ⟨vs, hvs, hscanned⟩ := Viable.of_speakable (L := M)
    exact ⟨vs, Language.mem_mul.mpr ⟨us, hus, vs, hvs, rfl⟩, hscanned⟩
  · refine (hf a rest hok (by simp [hts])).mono fun vs hvs ↦ ?_
    exact Language.mem_mul.mpr ⟨us, hus, vs, hvs, rfl⟩

/-- The first two parts of a sequence may be taken together. -/
theorem Tracks.assoc {γ : Type} {g : β → Parse γ} (h : Tracks env (p >>= f >>= g) L ts) :
    Tracks env (p >>= fun a ↦ f a >>= g) L ts := by rwa [bind_assoc]

theorem tracks_pure {a : α} (h : [] ∈ L) : Tracks env (pure a) L ts where
  ok b rest hok := by
    obtain ⟨rfl, rfl⟩ := pure_eq_ok.mp hok
    exact ⟨[], rfl, h, fun _ _ _ _ ↦ rfl⟩
  error fault rest herror := by cases herror

/-- What a parser makes of its value does not matter. -/
theorem Tracks.bind_pure (hp : Tracks env p L ts) (hf : ∀ a, ∃ b, f a = pure b) :
    Tracks env (p >>= f) L ts := by
  rw [← mul_one L]
  refine hp.bind fun a _ _ _ ↦ ?_
  obtain ⟨b, hb⟩ := hf a
  rw [hb]
  exact tracks_pure rfl

theorem Tracks.map (hp : Tracks env p L ts) (g : α → β) :
    Tracks env (p >>= fun a ↦ pure (g a)) L ts := hp.bind_pure fun a ↦ ⟨g a, rfl⟩

/-! ### Looking at the stream -/

theorem tracks_look {g : Option Token → α} (h : Tracks env (f (g ts.head?)) L ts) :
    Tracks env ((fun _ us ↦ .ok (g us.head?) us : Parse α) >>= f) L ts where
  ok b rest hok := by
    obtain ⟨us, rfl, hus, hsame⟩ := h.ok hok
    refine ⟨us, rfl, hus, fun env' rest' henv hhead ↦ ?_⟩
    have heq := hsame env' rest' henv hhead
    rwa [← head?_append_congr hhead] at heq
  error fault rest herror := by
    cases h.error herror with
    | token us t rest hts hblames hviable hsame =>
      subst hts
      refine .token us t rest rfl hblames hviable fun env' rest' henv ↦ ?_
      have hhead : (us ++ t :: rest').head? = (us ++ t :: rest).head? := head?_append_congr rfl
      obtain ⟨rest'', heq⟩ := hsame env' rest' henv
      rw [← hhead] at heq
      exact ⟨rest'', heq⟩
    | ending wanted label hfault hviable hsame =>
      exact .ending wanted label hfault hviable hsame
    | template t ht hkind hfault => exact .template t ht hkind hfault
    | lexeme t ht htext => exact .lexeme t ht htext

theorem tracks_peek {f : Kind → Parse β} (h : Tracks env (f (nextKind ts)) L ts) :
    Tracks env (peek >>= f) L ts :=
  tracks_look (g := fun t ↦ (t.map Token.kind).getD .endOfInput) h

theorem tracks_peekToken {f : Option Token → Parse β} (h : Tracks env (f ts.head?) L ts) :
    Tracks env (peekToken >>= f) L ts := tracks_look (g := id) h

theorem tracks_check_bind {ks : List Kind} {f : Bool → Parse β}
    (h : Tracks env (f (ks.contains (nextKind ts))) L ts) : Tracks env (check ks >>= f) L ts :=
  tracks_look (g := fun t ↦ ks.contains ((t.map Token.kind).getD .endOfInput)) h

/-- A parser that asks for the next kind tracks what its branches track. -/
theorem tracks_check {ks : List Kind} {p q : Parse β} (hp : nextKind ts ∈ ks → Tracks env p L ts)
    (hq : nextKind ts ∉ ks → Tracks env q L ts) :
    Tracks env (do if ← check ks then p else q) L ts := by
  refine tracks_check_bind ?_
  split
  · rename_i h
    exact hp (List.contains_iff_mem.mp h)
  · rename_i h
    exact hq fun hmem ↦ h (List.contains_iff_mem.mpr hmem)

theorem tracks_atMark {m : Mark} {p q : Parse β}
    (hp : nextKind ts = .mark m → Tracks env p L ts)
    (hq : nextKind ts ≠ .mark m → Tracks env q L ts) :
    Tracks env (do if ← atMark m then p else q) L ts :=
  tracks_check (fun h ↦ hp (List.mem_singleton.mp h))
    fun h ↦ hq fun heq ↦ h (List.mem_singleton.mpr heq)

theorem tracks_atKeyword {w : Keyword} {p q : Parse β}
    (hp : nextKind ts = .keyword w → Tracks env p L ts)
    (hq : nextKind ts ≠ .keyword w → Tracks env q L ts) :
    Tracks env (do if ← atKeyword w then p else q) L ts :=
  tracks_check (fun h ↦ hp (List.mem_singleton.mp h))
    fun h ↦ hq fun heq ↦ h (List.mem_singleton.mpr heq)

theorem tracks_atWord {w : Text} {p q : Parse β}
    (hp : ∀ t rest, ts = t :: rest → t.kind = .identifier → t.lexeme = .text w →
      Tracks env p L ts) (hq : Tracks env q L ts) :
    Tracks env (do if ← atWord w then p else q) L ts := by
  refine tracks_look
    (g := fun t ↦ t.any fun t ↦ decide (t.kind = .identifier ∧ t.lexeme = .text w)) ?_
  split
  · rename_i h
    cases ts with
    | nil => cases h
    | cons t rest =>
      have ht : t.kind = .identifier ∧ t.lexeme = .text w := by simpa using h
      exact hp t rest rfl ht.1 ht.2
  · exact hq

/-! ### Failing -/

theorem tracks_fail [Speakable L] (wanted : Wanted) (label : Text) :
    Tracks env (fail wanted label : Parse α) L ts where
  ok a rest hok := absurd hok fail_ne_ok
  error fault rest herror := by
    cases herror
    cases ts with
    | nil => exact .ending wanted label rfl .of_speakable fun env' _ ↦ ⟨[], rfl⟩
    | cons t rest =>
      exact .token [] t rest rfl ⟨rfl, rfl, rfl⟩ .of_speakable fun env' rest' _ ↦ ⟨_, rfl⟩

/-- A token without a text may break off any rule. -/
theorem Tracks.of_lexeme {t : Token} (ht : t ∈ ts) (htext : ∀ w, t.lexeme ≠ .text w)
    (h : ∀ a rest, p env ts ≠ .ok a rest) : Tracks env p L ts where
  ok a rest hok := absurd hok (h a rest)
  error _ _ _ := .lexeme t ht htext

theorem tracks_textFor {use : Use} {w : Text} {f : Text → Parse β} (h : Tracks env (f w) L ts) :
    Tracks env (textFor use (.text w) >>= f) L ts := h

/-! ### Reading tokens -/

theorem exists_cons_of_nextKind {k : Kind} (h : nextKind ts = k) (hk : k ≠ .endOfInput) :
    ∃ t rest, ts = t :: rest ∧ t.kind = k := by
  cases ts with
  | nil => exact absurd h.symm hk
  | cons t rest => exact ⟨t, rest, rfl, h⟩

theorem tracks_next_of {f : Token → Parse β} {t : Token} {rest : List Token}
    (h : Tracks env (f t) (after [t] L) rest) : Tracks env (next >>= f) L (t :: rest) where
  ok b rest' hok := by
    obtain ⟨us, rfl, hus, hsame⟩ := h.ok hok
    exact ⟨t :: us, rfl, hus, hsame⟩
  error fault rest' herror := by
    cases h.error herror with
    | token us u rest hrest hblames hviable hsame =>
      exact .token (t :: us) u rest (by rw [hrest]; rfl) hblames hviable hsame
    | ending wanted label hfault hviable hsame =>
      exact .ending wanted label hfault hviable hsame
    | template u hu hkind hfault => exact .template u (List.mem_cons_of_mem t hu) hkind hfault
    | lexeme u hu htext => exact .lexeme u (List.mem_cons_of_mem t hu) htext

theorem tracks_next {f : Token → Parse β} {P : Token → Prop} {t : Token} {rest : List Token}
    (ht : P t) (h : Tracks env (f t) L rest) :
    Tracks env (next >>= f) (single P * L) (t :: rest) :=
  tracks_next_of (h.mono fun _ hvs ↦ Language.mem_mul.mpr ⟨[t], mem_single ht, _, hvs, rfl⟩)

/-- Reading a token whose kind is known already. -/
theorem tracks_next_kind {f : Token → Parse β} {k : Kind} (hts : nextKind ts = k)
    (hk : k ≠ .endOfInput)
    (h : ∀ t rest, t.kind = k → rest.length < ts.length → Tracks env (f t) L rest) :
    Tracks env (next >>= f) (ofKind k * L) ts := by
  obtain ⟨t, rest, rfl, ht⟩ := exists_cons_of_nextKind hts hk
  exact tracks_next ht (h t rest ht (by simp))

/-- Reading a token that is known to have one of several kinds. -/
theorem tracks_next_mem {f : Token → Parse β} {ks : List Kind} (hts : nextKind ts ∈ ks)
    (hks : .endOfInput ∉ ks)
    (h : ∀ t rest, t.kind ∈ ks → rest.length < ts.length → Tracks env (f t) L rest) :
    Tracks env (next >>= f) ((single fun t ↦ t.kind ∈ ks) * L) ts := by
  obtain ⟨t, rest, rfl, ht⟩ := exists_cons_of_nextKind rfl fun hend ↦ hks (hend ▸ hts)
  exact tracks_next hts (h t rest hts (by simp))

theorem tracks_expect {k : Kind} [Speakable (ofKind k)] : Tracks env (expect k) (ofKind k) ts where
  ok t rest hok := by
    obtain ⟨rfl, ht⟩ := expect_eq_ok.mp hok
    exact ⟨[t], rfl, mem_single ht, fun env' rest' _ _ ↦ expect_cons ht env' rest'⟩
  error fault rest herror := by
    cases ts with
    | nil =>
      cases herror
      exact .ending (.kind k) _ rfl .of_speakable fun env' _ ↦ ⟨[], rfl⟩
    | cons t rest =>
      rw [expect] at herror
      split at herror
      · cases herror
      · rename_i ht
        cases herror
        refine .token [] t rest rfl ⟨rfl, rfl, rfl⟩ .of_speakable fun env' rest' _ ↦
          ⟨t :: rest', ?_⟩
        rw [List.nil_append, expect, if_neg ht]
        rfl

theorem tracks_expect_bind {f : Token → Parse β} {k : Kind} [Speakable (ofKind k)] [Speakable L]
    (h : ∀ t rest, t.kind = k → rest.length < ts.length → Tracks env (f t) L rest) :
    Tracks env (expect k >>= f) (ofKind k * L) ts := by
  refine tracks_expect.bind fun t rest hok _ ↦ ?_
  obtain ⟨rfl, ht⟩ := expect_eq_ok.mp hok
  exact h t rest ht (by simp)

/-- The identifier `w`. -/
def ofWord (w : Text) : Language Token := single fun t ↦ t.kind = .identifier ∧ t.lexeme = .text w

theorem tracks_word {w : Text} [Speakable (ofWord w)] : Tracks env (word w) (ofWord w) ts := by
  refine tracks_atWord (fun t rest hts ht hw ↦ ?_) (tracks_fail _ _)
  subst hts
  exact ⟨fun a rest' hok ↦ by cases hok; exact ⟨[t], rfl, mem_single ⟨ht, hw⟩, fun _ _ _ _ ↦ rfl⟩,
    fun fault rest' herror ↦ by cases herror⟩

/-- What is written between two marks, with the marks. -/
def between (l r : Mark) (L : Language Token) : Language Token :=
  ofKind (.mark l) * (L * ofKind (.mark r))

theorem mem_between {l r : Mark} {us : List Token} : us ∈ between l r L ↔
    ∃ t vs u, t.kind = .mark l ∧ vs ∈ L ∧ u.kind = .mark r ∧ us = t :: (vs ++ [u]) := by
  constructor
  · rintro ⟨_, ⟨t, ht, rfl⟩, _, ⟨vs, hvs, _, ⟨u, hu, rfl⟩, rfl⟩, rfl⟩
    exact ⟨t, vs, u, ht, hvs, hu, rfl⟩
  · rintro ⟨t, vs, u, ht, hvs, hu, rfl⟩
    exact ⟨[t], ⟨t, ht, rfl⟩, vs ++ [u], ⟨vs, hvs, [u], ⟨u, hu, rfl⟩, rfl⟩, rfl⟩

instance {l r : Mark} [Speakable L] : Speakable (between l r L) :=
  inferInstanceAs (Speakable (_ * (_ * _)))

theorem tracks_between {l r : Mark} [Speakable L]
    (h : ∀ rest, rest.length < ts.length → Tracks env p L rest) (g : Token → α → β) :
    Tracks env (do
      let t ← mark l
      let a ← p
      let _ ← mark r
      return g t a) (between l r L) ts := by
  refine tracks_expect_bind fun t rest _ hrest ↦ (h rest hrest).bind fun a _ _ _ ↦ ?_
  exact tracks_expect.map fun _ ↦ g t a

/-! ### Repetition -/

section Repetition

variable {item : Parse α} {written : α → List Token → Prop}

instance [Speakable (phrases written)] : Speakable (phrases (WrittenSeparated written)) := by
  obtain ⟨us, ⟨a, ha⟩, hscanned⟩ := Viable.of_speakable (L := phrases written)
  exact ⟨us, ⟨[a], .last ha⟩, hscanned⟩

instance : Speakable (phrases (WrittenListed written)) := ⟨.of_mem ⟨[], .nil⟩⟩

/-- What may follow an item of a list: nothing, or a comma and the rest of the list. -/
def further (M : Language Token) : Language Token := 1 + ofKind (.mark .comma) * M

instance : Speakable (further M) := inferInstanceAs (Speakable (1 + _))

/-- What a list does behind an item. -/
theorem tracks_further {g : List α → β} {b : β} {more : Parse (List α)}
    (h : ∀ us, us.length < ts.length → Tracks env more L us) :
    Tracks env (do
      if ← atMark .comma then
        let _ ← next
        return g (← more)
      else return b) (further L) ts := by
  refine tracks_atMark (fun hcomma ↦ ?_) fun _ ↦ tracks_pure (.inl rfl)
  refine (tracks_next_kind hcomma (by decide) fun _ rest _ hrest ↦ ?_).mono fun _ hus ↦ .inr hus
  exact (h rest hrest).map g

theorem tracks_separated (hagree : ∀ k, Agree k 1 item item) [Speakable (phrases written)]
    (h : ∀ us, us.length ≤ ts.length → Tracks env item (phrases written) us) :
    Tracks env (separated item) (phrases (WrittenSeparated written)) ts := by
  induction hn : ts.length using Nat.strongRecOn generalizing ts with
  | ind n ih =>
    subst hn
    have hrest : ∀ us, us.length < ts.length →
        Tracks env (separated item) (phrases (WrittenSeparated written)) us := fun us hus ↦
      ih us.length hus (fun vs hvs ↦ h vs (by omega)) rfl
    rw [separated_eq hagree]
    refine ((h ts (Nat.le_refl _)).bind fun a rest _ hle ↦
      tracks_further (g := (a :: ·)) fun us hus ↦ hrest us (by omega)).mono ?_
    rintro _ ⟨us, ⟨a, ha⟩, vs, rfl | ⟨_, ⟨c, hc, rfl⟩, ws, ⟨as, has⟩, rfl⟩, rfl⟩
    · exact ⟨[a], by simpa using .last ha⟩
    · exact ⟨a :: as, .more c hc ha has⟩

/-- An item of a list is only read where the list is not closed. -/
theorem tracks_listed (close : Mark) (hagree : ∀ k, Agree k 1 item item)
    (h : ∀ us, us.length ≤ ts.length → nextKind us ≠ .mark close →
      Tracks env item (phrases written) us) :
    Tracks env (listed close item) (phrases (WrittenListed written)) ts := by
  induction hn : ts.length using Nat.strongRecOn generalizing ts with
  | ind n ih =>
    subst hn
    have hrest : ∀ us, us.length < ts.length →
        Tracks env (listed close item) (phrases (WrittenListed written)) us := fun us hus ↦
      ih us.length hus (fun vs hvs ↦ h vs (by omega)) rfl
    rw [listed_eq close hagree]
    refine tracks_atMark (fun _ ↦ tracks_pure ⟨[], .nil⟩) fun hclose ↦ ?_
    refine ((h ts (Nat.le_refl _) hclose).bind fun a rest _ hle ↦
      tracks_further (g := (a :: ·)) fun us hus ↦ hrest us (by omega)).mono ?_
    rintro _ ⟨us, ⟨a, ha⟩, vs, rfl | ⟨_, ⟨c, hc, rfl⟩, ws, ⟨as, has⟩, rfl⟩, rfl⟩
    · exact ⟨[a], by simpa using .last ha⟩
    · exact ⟨a :: as, .more c hc ha has⟩

end Repetition

end Grammar

end Advplc

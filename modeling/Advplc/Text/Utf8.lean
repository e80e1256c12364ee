import Advplc.Text.Quoted

/-!
# UTF-8

`decode` reads a text from bytes and `encode` writes one.  Reading is strict: it takes the shortest
form of every scalar value and nothing else, and it stops at the first place where the bytes are not
such a form.  There a `DecodeError` says which bytes are at fault: a byte that begins nothing on its
own; a beginning together with the continuation bytes that fit it, when the next byte does not; or
everything to the end, when the end comes too early.

A text that holds a surrogate cannot be written.  The error names the first surrogate and those that
follow it without a gap.
-/

set_option autoImplicit false

namespace Advplc

/-- A sequence of bytes. -/
abbrev Bytes := List UInt8

namespace Utf8

/-- What is wrong with bytes. -/
inductive Reason where
  | invalidStart
  | invalidContinuation
  | unexpectedEnd
deriving DecidableEq

/-- What is said about a reason. -/
def Reason.message : Reason → Text
  | invalidStart => "invalid start byte"
  | invalidContinuation => "invalid continuation byte"
  | unexpectedEnd => "unexpected end of data"

/-- Bytes that are not UTF-8. -/
structure DecodeError where
  /-- How many bytes stand before the wrong ones. -/
  start : Nat
  /-- The wrong bytes. -/
  bytes : Bytes
  /-- What is wrong with them. -/
  reason : Reason
deriving DecidableEq

/-- A place, or the first and the last of several. -/
def placeText (start count : Nat) : Text :=
  if count ≤ 1 then Text.ofNat start else Text.ofNat start ++ "-" ++ Text.ofNat (start + count - 1)

/-- What the error says. -/
def DecodeError.message (e : DecodeError) : Text :=
  let what : Text := match e.bytes with
    | [b] => "byte 0x" ++ hexDigits 2 b.toNat
    | _ => "bytes"
  "'utf-8' codec can't decode " ++ what ++ " in position " ++ placeText e.start e.bytes.length ++
    ": " ++ e.reason.message

/-- How a sequence of several bytes begins. -/
structure Lead where
  /-- How many continuation bytes follow. -/
  more : Nat
  /-- The bits that the first byte contributes. -/
  bits : Nat
  /-- The least byte that may follow it. -/
  low : UInt8
  /-- The greatest byte that may follow it. -/
  high : UInt8

/-- The sequence that a byte begins.  The bounds on the second byte keep out forms that are longer
than necessary, surrogates, and numbers beyond the last code point. -/
def lead? (b : UInt8) : Option Lead :=
  if b < 0xC2 then none
  else if b < 0xE0 then some ⟨1, b.toNat - 0xC0, 0x80, 0xBF⟩
  else if b < 0xF0 then
    some ⟨2, b.toNat - 0xE0, if b = 0xE0 then 0xA0 else 0x80, if b = 0xED then 0x9F else 0xBF⟩
  else if b < 0xF5 then
    some ⟨3, b.toNat - 0xF0, if b = 0xF0 then 0x90 else 0x80, if b = 0xF4 then 0x8F else 0xBF⟩
  else none

/-- Reads `n` continuation bytes, the first of them from `low` to `high`, after the bits `value`.
An error says why and how many of the bytes fit. -/
def continuation : Nat → UInt8 → UInt8 → Nat → Bytes → Except (Reason × Nat) (Nat × Bytes)
  | 0, _, _, value, rest => .ok (value, rest)
  | _ + 1, _, _, _, [] => .error (.unexpectedEnd, 0)
  | n + 1, low, high, value, c :: rest =>
    if low ≤ c ∧ c ≤ high then
      match continuation n 0x80 0xBF (value * 64 + (c.toNat - 0x80)) rest with
      | .ok r => .ok r
      | .error (reason, fitting) => .error (reason, fitting + 1)
    else .error (.invalidContinuation, 0)

theorem length_of_continuation {n : Nat} {low high : UInt8} {value v : Nat} {bytes rest : Bytes}
    (h : continuation n low high value bytes = .ok (v, rest)) : rest.length ≤ bytes.length := by
  induction n generalizing low high value bytes with
  | zero =>
    simp only [continuation, Except.ok.injEq, Prod.mk.injEq] at h
    simp [h.2]
  | succ n ih =>
    cases bytes with
    | nil => simp [continuation] at h
    | cons c bytes =>
      rw [continuation] at h
      split at h
      · split at h
        · rename_i r hr
          simp only [Except.ok.injEq] at h
          subst h
          exact Nat.le_succ_of_le (ih hr)
        · exact absurd h (by simp)
      · exact absurd h (by simp)

/-- Reads a text from bytes that stand behind `start` others. -/
def decodeFrom (start : Nat) (bytes : Bytes) : Except DecodeError Text :=
  match bytes with
  | [] => .ok []
  | b :: rest =>
    if b < 0x80 then do
      return CodePoint.ofNat b.toNat :: (← decodeFrom (start + 1) rest)
    else match lead? b with
      | none => .error ⟨start, [b], .invalidStart⟩
      | some l =>
        match _ : continuation l.more l.low l.high l.bits rest with
        | .ok (n, behind) => do
          return CodePoint.ofNat n :: (← decodeFrom (start + 1 + l.more) behind)
        | .error (reason, fitting) => .error ⟨start, b :: rest.take fitting, reason⟩
termination_by bytes.length
decreasing_by
  · simp
  · have := length_of_continuation ‹continuation l.more l.low l.high l.bits rest = .ok (n, behind)›
    simp only [List.length_cons]
    omega

/-- The text that bytes stand for. -/
def decode (bytes : Bytes) : Except DecodeError Text := decodeFrom 0 bytes

/-- A text that cannot be written as UTF-8. -/
structure EncodeError where
  /-- How many code points stand before the first surrogate. -/
  start : Nat
  /-- The first surrogate and those that follow it without a gap. -/
  surrogates : Text
deriving DecidableEq

/-- What the error says. -/
def EncodeError.message (e : EncodeError) : Text :=
  let what : Text := match e.surrogates with
    | [c] => "character '\\u" ++ hexDigits 4 c.val ++ "'"
    | _ => "characters"
  "'utf-8' codec can't encode " ++ what ++ " in position " ++
    placeText e.start e.surrogates.length ++ ": surrogates not allowed"

/-- Whether a code point is a surrogate. -/
def isSurrogate : CodePoint → Bool
  | .scalar _ => false
  | .surrogate _ => true

/-- The bytes for a text that stands behind `start` other code points. -/
def encodeFrom (start : Nat) : Text → Except EncodeError Bytes
  | [] => .ok []
  | .scalar c :: rest => do return String.utf8EncodeChar c ++ (← encodeFrom (start + 1) rest)
  | .surrogate i :: rest => .error ⟨start, .surrogate i :: rest.takeWhile isSurrogate⟩

/-- How many bytes stand for a code point.  A surrogate would take three. -/
def width : CodePoint → Nat
  | .scalar c => c.utf8Size
  | .surrogate _ => 3

/-- How many bytes stand for a text. -/
def size : Text → Nat
  | [] => 0
  | c :: rest => width c + size rest

/-- The bytes that stand for a text. -/
def encode (t : Text) : Except EncodeError Bytes := encodeFrom 0 t

end Utf8

end Advplc

/-
LineTrace.Text.Utf8 — bytes to text and back.

A byte that belongs to no well-formed sequence is decoded to the lone
surrogate `0xDC00 + byte`, one byte at a time, and encoding gives the byte
back; so `decodeEscaped` loses nothing, whatever the bytes. A byte sequence
that would spell a surrogate is not well-formed and is escaped too, which is
why no two byte strings share a text.

The strict readings refuse instead, and say where: the fault names the bytes
that were taken for the beginning of a sequence, an encoding fault the whole
run of code points that the encoding has no bytes for.
-/
import LineTrace.Text.Basic

namespace LineTrace.Text

/-! ## 1. Well-formed sequences -/

/-- What is wrong with the bytes at a place. -/
inductive Utf8Fault where
  | start
  | continuation
  | ended
  deriving DecidableEq, Repr

/-- The sequence that a lead byte opens: how many bytes follow, the bounds of
the first of them, and the bits that the lead byte itself carries. -/
structure Utf8Lead where
  tails : Nat
  low : Nat
  high : Nat
  bits : Nat

/-- The bounds on the byte after `0xE0`, `0xED`, `0xF0` and `0xF4` shut out
overlong forms, surrogates and numbers beyond the last code point. -/
def utf8Lead? (b : Nat) : Option Utf8Lead :=
  if b < 0x80 then some ⟨0, 0, 0, b⟩
  else if b < 0xC2 then none
  else if b < 0xE0 then some ⟨1, 0x80, 0xBF, b - 0xC0⟩
  else if b = 0xE0 then some ⟨2, 0xA0, 0xBF, 0⟩
  else if b = 0xED then some ⟨2, 0x80, 0x9F, 0xD⟩
  else if b < 0xF0 then some ⟨2, 0x80, 0xBF, b - 0xE0⟩
  else if b = 0xF0 then some ⟨3, 0x90, 0xBF, 0⟩
  else if b < 0xF4 then some ⟨3, 0x80, 0xBF, b - 0xF0⟩
  else if b = 0xF4 then some ⟨3, 0x80, 0x8F, 4⟩
  else none

/-- The code point of a sequence whose first byte is read, or the fault and
the number of bytes that it spans. -/
def utf8Tails : Nat → Nat → Nat → Nat → Nat → Bytes → Except (Utf8Fault × Nat) CodePoint
  | 0, _, _, value, _, _ => .ok value
  | _ + 1, _, _, _, seen, [] => .error (.ended, seen)
  | n + 1, low, high, value, seen, b :: rest =>
    if low ≤ b.toNat ∧ b.toNat ≤ high then
      utf8Tails n 0x80 0xBF (64 * value + (b.toNat - 0x80)) (seen + 1) rest
    else .error (.continuation, seen)

/-- The code point that starts with byte `b` and the number of bytes after it
that belong to it, or the fault and its span. -/
def utf8Front (b : UInt8) (rest : Bytes) : Except (Utf8Fault × Nat) (CodePoint × Nat) :=
  match utf8Lead? b.toNat with
  | none => .error (.start, 1)
  | some lead =>
    (utf8Tails lead.tails lead.low lead.high lead.bits 1 rest).map fun c => (c, lead.tails)

/-! ## 2. Decoding -/

/-- The text of any bytes, undecodable ones escaped. -/
def decodeEscaped : Bytes → Text
  | [] => []
  | b :: rest =>
    match utf8Front b rest with
    | .ok (c, n) => c :: decodeEscaped (rest.drop n)
    | .error _ => (0xDC00 + b.toNat) :: decodeEscaped rest
termination_by bs => bs.length
decreasing_by all_goals simp only [List.length_drop, List.length_cons]; omega

/-- Why bytes are no text: the first byte of the fault, where it stands, how
many bytes are at fault. -/
structure DecodeFault where
  fault : Utf8Fault
  byte : UInt8
  position : Nat
  span : Nat
  deriving DecidableEq, Repr

/-- The text of well-formed bytes that start at `position`. -/
def decodeFrom (position : Nat) : Bytes → Except DecodeFault Text
  | [] => .ok []
  | b :: rest =>
    match utf8Front b rest with
    | .ok (c, n) => (decodeFrom (position + n + 1) (rest.drop n)).map (c :: ·)
    | .error (fault, span) => .error ⟨fault, b, position, span⟩
termination_by bs => bs.length
decreasing_by simp only [List.length_drop, List.length_cons]; omega

/-- The text of well-formed bytes. -/
def decodeStrict (bs : Bytes) : Except DecodeFault Text := decodeFrom 0 bs

/-! ## 3. Encoding -/

/-- A surrogate, high or low. -/
def isSurrogate (c : CodePoint) : Bool := 0xD800 ≤ c && c ≤ 0xDFFF

/-- A code point that a byte sequence can spell: no surrogate, none beyond the
last code point. -/
def isScalar (c : CodePoint) : Bool := c < 0x110000 && !isSurrogate c

/-- The bytes of one code point. -/
def utf8Scalar (c : CodePoint) : Bytes :=
  if c < 0x80 then [c.toUInt8]
  else if c < 0x800 then [(0xC0 + c / 64).toUInt8, (0x80 + c % 64).toUInt8]
  else if c < 0x10000 then
    [(0xE0 + c / 4096).toUInt8, (0x80 + c / 64 % 64).toUInt8, (0x80 + c % 64).toUInt8]
  else
    [(0xF0 + c / 262144).toUInt8, (0x80 + c / 4096 % 64).toUInt8,
      (0x80 + c / 64 % 64).toUInt8, (0x80 + c % 64).toUInt8]

/-- The encodings that a text is written in. `utf8Escaped` writes an escaped
byte as that byte. -/
inductive Encoding where
  | ascii
  | utf8
  | utf8Escaped
  deriving DecidableEq, Repr

/-- The bytes that an encoding has for a code point. -/
def Encoding.bytes? : Encoding → CodePoint → Option Bytes
  | .ascii, c => if c < 128 then some [c.toUInt8] else none
  | .utf8, c => if isScalar c then some (utf8Scalar c) else none
  | .utf8Escaped, c =>
    if 0xDC80 ≤ c ∧ c ≤ 0xDCFF then some [(c - 0xDC00).toUInt8]
    else if isScalar c then some (utf8Scalar c)
    else none

/-- The code points that a fault report runs on over. -/
def Encoding.isForeign : Encoding → CodePoint → Bool
  | .ascii, c => 128 ≤ c
  | .utf8, c => !isScalar c
  | .utf8Escaped, c => !isScalar c

/-- Why a text has no bytes: the first code point without any, where it
stands, how long the run of foreign code points from there is. -/
structure EncodeFault where
  encoding : Encoding
  first : CodePoint
  position : Nat
  span : Nat
  deriving DecidableEq, Repr

/-- The bytes of a text that starts at `position`. -/
def encodeFrom (e : Encoding) (position : Nat) : Text → Except EncodeFault Bytes
  | [] => .ok []
  | c :: rest =>
    match e.bytes? c with
    | some bs => (encodeFrom e (position + 1) rest).map (bs ++ ·)
    | none => .error ⟨e, c, position, 1 + (rest.takeWhile e.isForeign).length⟩

/-- The bytes of a text. -/
def encode (e : Encoding) (t : Text) : Except EncodeFault Bytes := encodeFrom e 0 t

/-- The bytes of a text whose escaped bytes are written back; what no byte
stands for is written as its three-byte form, so that the function is total. -/
def encodeEscaped (t : Text) : Bytes :=
  t.flatMap fun c => (Encoding.utf8Escaped.bytes? c).getD (utf8Scalar c)

end LineTrace.Text

/-
LineTrace.Text.Basic — text and bytes, and the few operations on sequences
that every later module is written with.

A file name need not be valid UTF-8, and a name that is not has to survive
being read, compared, stored and written. So a text here is a list of code
points in which lone surrogates may stand: `Utf8.decodeEscaped` uses them for
the bytes it cannot decode, and `Utf8.encodeEscaped` gives those bytes back.
Lists, not arrays or packed strings, because every scanner below is a list
recursion and its laws are ordinary inductions.

Nothing here knows about any format; the sections are splitting, stripping,
order and decimal numerals.
-/

namespace LineTrace

/-- A code point is a number; surrogates are allowed to stand alone. -/
abbrev CodePoint := Nat

/-- A text is its code points in order. -/
abbrev Text := List CodePoint

/-- A byte string is its bytes in order. -/
abbrev Bytes := List UInt8

/-- The code points of a literal. -/
def Text.ofString (s : String) : Text := s.toList.map Char.toNat

instance : Coe String Text := ⟨Text.ofString⟩

/-- The code points of a character, as a number. -/
instance : Coe Char CodePoint := ⟨Char.toNat⟩

/-- The bytes of an ASCII literal. -/
def Bytes.ofString (s : String) : Bytes := s.toList.map fun c => c.toNat.toUInt8

namespace Text

/-! ## 1. Splitting -/

/-- The text before and after the first place where `d` occurs. -/
def cut? {α : Type} [DecidableEq α] (d : List α) : List α → Option (List α × List α)
  | [] => if d = [] then some ([], []) else none
  | x :: xs =>
    if d.isPrefixOf (x :: xs) then some ([], (x :: xs).drop d.length)
    else (cut? d xs).map fun (before, after) => (x :: before, after)

/-- The parts between the occurrences of `d`, taken from the left and never
overlapping, and what follows the last of them. With an empty `d` nothing is
cut. -/
def pieces {α : Type} [DecidableEq α] (d xs : List α) : List (List α) × List α :=
  match cut? d xs with
  | none => ([], xs)
  | some (before, after) =>
    if _h : after.length < xs.length then
      let (more, tail) := pieces d after
      (before :: more, tail)
    else ([], xs)
termination_by xs.length

/-- All parts between the occurrences of `d`, the last one included. -/
def splitOn {α : Type} [DecidableEq α] (d xs : List α) : List (List α) :=
  let (ps, tail) := pieces d xs
  ps ++ [tail]

/-- The parts between single separators; one part more than separators. -/
def splitAt1 {α : Type} [DecidableEq α] (sep : α) : List α → List (List α)
  | [] => [[]]
  | x :: xs =>
    if x = sep then [] :: splitAt1 sep xs
    else
      match splitAt1 sep xs with
      | [] => [[x]]
      | part :: parts => (x :: part) :: parts

/-- The parts with `sep` between them. -/
def joinWith {α : Type} (sep : List α) : List (List α) → List α
  | [] => []
  | [part] => part
  | part :: parts => part ++ sep ++ joinWith sep parts

/-! ## 2. Stripping -/

/-- The text without the leading and trailing code points that satisfy `p`. -/
def stripWhere {α : Type} (p : α → Bool) (xs : List α) : List α :=
  ((xs.dropWhile p).reverse.dropWhile p).reverse

/-- Whether `xs` ends with `tail`. -/
def endsWith {α : Type} [BEq α] (tail xs : List α) : Bool := tail.isSuffixOf xs

/-! ## 3. Order -/

/-- The order by code point, a proper beginning first. -/
def le : Text → Text → Bool
  | [], _ => true
  | _ :: _, [] => false
  | x :: xs, y :: ys => if x = y then le xs ys else x < y

/-- The texts in order by code point. -/
def sorted (xs : List Text) : List Text := xs.mergeSort le

/-- The first occurrence of each element, in order. -/
def dedup {α : Type} [DecidableEq α] (xs : List α) : List α :=
  xs.foldl (fun seen x => if x ∈ seen then seen else seen ++ [x]) []

/-! ## 4. Numerals -/

/-- The digit `d` in bases up to sixteen, letters in lower case. -/
def digit (d : Nat) : CodePoint := if d < 10 then 48 + d else 87 + d

/-- The digits of `n` in base `b`, most significant first; none for zero. -/
def digits (b n : Nat) : List Nat :=
  if h : 2 ≤ b ∧ 0 < n then
    have : n / b < n := Nat.div_lt_self h.2 h.1
    digits b (n / b) ++ [n % b]
  else []

/-- The numeral of `n` in base `b`. -/
def numeral (b n : Nat) : Text :=
  if n = 0 then [48] else (digits b n).map digit

/-- The decimal numeral of a natural number. -/
def ofNat (n : Nat) : Text := numeral 10 n

/-- The decimal numeral of an integer, with a minus sign below zero. -/
def ofInt : Int → Text
  | .ofNat n => ofNat n
  | .negSucc n => 45 :: ofNat (n + 1)

/-- The numeral filled up on the left with zeros to `width`. -/
def padLeft (width : Nat) (fill : CodePoint) (t : Text) : Text :=
  List.replicate (width - t.length) fill ++ t

/-- The value of decimal digits. -/
def decimalValue (ds : List Nat) : Nat := ds.foldl (fun n d => 10 * n + d) 0

/-- Whether a code point is one of the ten ASCII digits. -/
def isDigit (c : CodePoint) : Bool := 48 ≤ c && c ≤ 57

/-- The value of a hexadecimal digit. -/
def hexValue? (c : CodePoint) : Option Nat :=
  if 48 ≤ c ∧ c ≤ 57 then some (c - 48)
  else if 97 ≤ c ∧ c ≤ 102 then some (c - 87)
  else if 65 ≤ c ∧ c ≤ 70 then some (c - 55)
  else none

/-- The ASCII letters in lower case, all else as it is. -/
def lowerAscii (t : Text) : Text := t.map fun c => if 65 ≤ c && c ≤ 90 then c + 32 else c

end Text

end LineTrace

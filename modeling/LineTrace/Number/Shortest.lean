/-
LineTrace.Number.Shortest — numbers as decimal text.

`shortest` gives the fewest significant digits that read back as the number,
and among those the digits nearest to it, on a tie those with the even last
digit. For each count of digits the number's two neighbours on that decimal
grid are tried in exact arithmetic; the first grid with a hit wins. `fixed`
rounds the exact value to a given number of places, a tie to the even digit.

`floatText` is the written form of a number: positional from `1e-04` below
`1e+16`, otherwise with an exponent of at least two digits.
-/
import LineTrace.Number.Double

namespace LineTrace.Double

/-! ## 1. The fewest digits -/

/-- The number of digits before the decimal point of `num / den`: the least
`p` with `num / den < 10 ^ p`, for a positive ratio. -/
def decimalPoint (num den : Nat) : Int :=
  let p : Int := (Text.ofNat num).length - (Text.ofNat den).length
  if num * Nat.pow 10 (-p).toNat < den * Nat.pow 10 p.toNat then p else p + 1

/-- The grid points below and above `num / den` in units of `10 ^ unit`, the
nearer first, the even one on a tie. -/
def gridPoints (num den : Nat) (unit : Int) : List Nat :=
  let n := num * Nat.pow 10 (-unit).toNat
  let d := den * Nat.pow 10 unit.toNat
  let q := n / d
  if n % d = 0 then [q]
  else if roundHalfEven n d = q then [q, q + 1] else [q + 1, q]

/-- The first count of digits from `count` on whose grid holds a point that
reads back as `x`; `fuel` bounds the counts. -/
def shortestFrom (x : Double) (num den : Nat) (point : Int) : Nat → Nat → Nat × Int
  | 0, count => (num / den, count)
  | fuel + 1, count =>
    let unit := point - count
    match (gridPoints num den unit).find? fun q => ofDecimal false q unit = x with
    | some q => (q, unit)
    | none => shortestFrom x num den point fuel (count + 1)

/-- Digits and power of ten with the fewest digits that read back as the
magnitude of a finite number; seventeen always suffice. -/
def shortest (mantissa : Nat) (exponent : Int) : Nat × Int :=
  let (num, den) := ratio mantissa exponent
  shortestFrom (.finite false mantissa exponent) num den (decimalPoint num den) 17 1

/-! ## 2. The written form -/

/-- The digits without trailing zeros; none for zero. -/
def significant (digits : Nat) : Text :=
  ((Text.ofNat digits).reverse.dropWhile (· == 48)).reverse

/-- Significant digits with the decimal point after the first `point` places,
always with a digit on both sides. -/
def positional (ds : Text) (point : Int) : Text :=
  if point ≤ 0 then Text.ofString "0." ++ List.replicate (-point).toNat 48 ++ ds
  else
    let n := point.toNat
    let whole := ds.take n ++ List.replicate (n - ds.length) 48
    let fraction := ds.drop n
    whole ++ [46] ++ (if fraction = [] then [48] else fraction)

/-- An exponent with its sign and at least two digits. -/
def exponentText (e : Int) : Text :=
  (if e < 0 then [45] else [43]) ++ Text.padLeft 2 48 (Text.ofNat e.natAbs)

/-- Significant digits with the point after the first and an exponent. -/
def scientific (ds : Text) (e : Int) : Text :=
  let tail := ds.drop 1
  ds.take 1 ++ (if tail = [] then [] else 46 :: tail) ++ [101] ++ exponentText e

/-- The written form of the magnitude of a finite number. -/
def magnitudeText (mantissa : Nat) (exponent : Int) : Text :=
  if mantissa = 0 then Text.ofString "0.0"
  else
    let (digits, unit) := shortest mantissa exponent
    let point : Int := (Text.ofNat digits).length + unit
    let ds := significant digits
    if -4 < point ∧ point ≤ 16 then positional ds point else scientific ds (point - 1)

/-- The written form of a number. -/
def floatText : Double → Text
  | .nan => Text.ofString "nan"
  | .infinite negative => (if negative then [45] else []) ++ Text.ofString "inf"
  | .finite negative m e => (if negative then [45] else []) ++ magnitudeText m e

/-! ## 3. Fixed places -/

/-- A finite magnitude rounded to `places` decimal places. -/
def fixedMagnitude (mantissa : Nat) (exponent : Int) (places : Nat) : Text :=
  let (num, den) := ratio mantissa exponent
  let q := roundHalfEven (num * Nat.pow 10 places) den
  let whole := Text.ofNat (q / Nat.pow 10 places)
  if places = 0 then whole
  else whole ++ [46] ++ Text.padLeft places 48 (Text.ofNat (q % Nat.pow 10 places))

/-- A number with exactly `places` decimal places. -/
def fixed (places : Nat) : Double → Text
  | .finite negative m e => (if negative then [45] else []) ++ fixedMagnitude m e places
  | x => floatText x

/-! ## 4. A number of significant digits -/

/-- A positive ratio rounded to `count` significant digits, and the power of
ten of the first of them. -/
def significantDigits (num den count : Nat) : Nat × Int :=
  let point := decimalPoint num den
  let unit := point - count
  let q := roundHalfEven (num * Nat.pow 10 (-unit).toNat) (den * Nat.pow 10 unit.toNat)
  if q = Nat.pow 10 count then (Nat.pow 10 (count - 1), point) else (q, point - 1)

/-- The digits of a finite magnitude and the power of ten of the first. -/
def digitsOf (mantissa : Nat) (exponent : Int) (count : Nat) : Text × Int :=
  if mantissa = 0 then (List.replicate count 48, 0)
  else
    let (num, den) := ratio mantissa exponent
    let (q, e) := significantDigits num den count
    (Text.padLeft count 48 (Text.ofNat q), e)

/-- A finite magnitude with one digit before the point, `places` after it and
an exponent. -/
def exponentMagnitude (mantissa : Nat) (exponent : Int) (places : Nat) : Text :=
  let (ds, e) := digitsOf mantissa exponent (places + 1)
  scientific ds e

/-- The digits without zeros at the end, but at least one. -/
def withoutZeros (ds : Text) : Text :=
  let kept := (ds.reverse.dropWhile (· == 48)).reverse
  if kept = [] then [48] else kept

/-- A finite magnitude with up to `count` significant digits, positional where
the exponent is small; trailing zeros are kept only where that is asked for. -/
def generalMagnitude (mantissa : Nat) (exponent : Int) (count : Nat) (keepZeros : Bool) : Text :=
  let count := max count 1
  let (ds, e) := digitsOf mantissa exponent count
  let kept := if keepZeros then ds else withoutZeros ds
  if e < -4 ∨ (count : Int) ≤ e then scientific kept e
  else
    let t := positional kept (e + 1)
    if (kept.length : Int) ≤ e + 1 then t.take (e + 1).toNat else t

/-- A written magnitude with a point after its first digits, if it has none. -/
def withPoint (t : Text) : Text :=
  if 46 ∈ t then t
  else
    let whole := t.takeWhile fun c => 48 ≤ c && c ≤ 57
    whole ++ 46 :: t.drop whole.length

end LineTrace.Double

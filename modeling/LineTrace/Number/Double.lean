/-
LineTrace.Number.Double — binary floating-point numbers of 53 significant
bits, as exact values.

A finite number is a sign, a natural mantissa and a power of two, so its value
is a rational number and every operation is: work out the exact rational
result, then take the nearest number, the even mantissa on a tie. `nearest` is
the only place where anything is rounded. Nothing here uses the machine's own
floating-point type, about whose operations nothing can be proved.

In range means: mantissa below `2 ^ 53`, exponent from `-1074` to `971`, and
the mantissa at least `2 ^ 52` unless the exponent is the least one. `nearest`
gives numbers in range only.
-/
import LineTrace.Text.Basic

namespace LineTrace

/-- A binary floating-point number. -/
inductive Double where
  | nan
  | infinite (negative : Bool)
  | finite (negative : Bool) (mantissa : Nat) (exponent : Int)
  deriving DecidableEq, Repr

namespace Double

/-! ## 1. Rounding -/

/-- The integer nearest to `num / den`, the even one of two. -/
def roundHalfEven (num den : Nat) : Nat :=
  let q := num / den
  let twice := 2 * (num % den)
  if twice < den then q
  else if den < twice then q + 1
  else if q % 2 = 0 then q else q + 1

/-- The greatest `k` with `2 ^ k ≤ num / den`, for positive numbers. -/
def floorLog2 (num den : Nat) : Int :=
  let k : Int := (Nat.log2 num : Int) - Nat.log2 den
  if den * Nat.pow 2 k.toNat ≤ num * Nat.pow 2 (-k).toNat then k else k - 1

/-- The ratio `num / den` divided by `2 ^ e`, as a ratio. -/
def scaleDown (num den : Nat) (e : Int) : Nat × Nat :=
  (num * Nat.pow 2 (-e).toNat, den * Nat.pow 2 e.toNat)

/-- The number nearest to `num / den`, with a sign. -/
def nearest (negative : Bool) (num den : Nat) : Double :=
  if num = 0 then .finite negative 0 (-1074)
  else
    let e := max (floorLog2 num den - 52) (-1074)
    let (n, d) := scaleDown num den e
    let m := roundHalfEven n d
    let (m, e) := if m = Nat.pow 2 53 then (Nat.pow 2 52, e + 1) else (m, e)
    if 971 < e then .infinite negative else .finite negative m e

/-! ## 2. Making numbers -/

/-- The integer as a number, unless it lies beyond the greatest one. -/
def ofInt? (i : Int) : Option Double :=
  match nearest (i < 0) i.natAbs 1 with
  | .infinite _ => none
  | x => some x

/-- The number nearest to `digits * 10 ^ exponent`. Beyond four hundred places
the result no longer depends on the digits. -/
def ofDecimal (negative : Bool) (digits : Nat) (exponent : Int) : Double :=
  let places : Int := (Text.ofNat digits).length + exponent
  if digits = 0 ∨ places < -400 then nearest negative 0 1
  else if 400 < places then .infinite negative
  else nearest negative (digits * Nat.pow 10 exponent.toNat) (Nat.pow 10 (-exponent).toNat)

/-! ## 3. Value and arithmetic -/

/-- The magnitude of a finite number as a ratio. -/
def ratio (mantissa : Nat) (exponent : Int) : Nat × Nat :=
  (mantissa * Nat.pow 2 exponent.toNat, Nat.pow 2 (-exponent).toNat)

/-- A finite number without a fraction. -/
def isIntegral : Double → Bool
  | .finite _ m e => let (n, d) := ratio m e; n % d == 0
  | _ => false

/-- The integer that remains when the fraction is dropped. -/
def truncate? : Double → Option Int
  | .finite negative m e =>
    let (n, d) := ratio m e
    let q : Int := (n / d : Nat)
    some (if negative then -q else q)
  | _ => none

/-- The greatest integer that is not above a finite number. -/
def floor? : Double → Option Int
  | .finite negative m e =>
    let (n, d) := ratio m e
    some (if negative then (-(n : Int)).fdiv d else (n / d : Nat))
  | _ => none

/-- The least integer that is not below a finite number's thousandfold. -/
def thousandfoldCeiling? : Double → Option Int
  | .finite negative m e =>
    let (n, d) := ratio m e
    some (if negative then -(1000 * n / d : Nat) else -((-(1000 * n : Int)).fdiv d))
  | _ => none

/-- Whether a number lies below an integer. -/
def ltInt : Double → Int → Bool
  | .nan, _ => false
  | .infinite negative, _ => negative
  | .finite negative m e, i =>
    let (n, d) := ratio m e
    let v : Int := if negative then -n else n
    v < i * d

/-- Whether a number equals an integer. -/
def eqInt : Double → Int → Bool
  | .finite negative m e, i =>
    let (n, d) := ratio m e
    let v : Int := if negative then -n else n
    v == i * d
  | _, _ => false

/-- Whether so many thousandths lie above a number. -/
def exceededBy (x : Double) (thousandths : Nat) : Bool :=
  match x with
  | .nan => false
  | .infinite negative => negative
  | .finite negative m e =>
    let (n, d) := ratio m e
    negative && n != 0 || 1000 * n < thousandths * d

/-- Whether two numbers are equal: zeros of both signs are, and a number that
is none is not equal to itself. -/
def eq : Double → Double → Bool
  | .nan, _ => false
  | .finite _ 0 _, .finite _ 0 _ => true
  | x, y => x == y

/-- The sum, rounded once. -/
def add : Double → Double → Double
  | .nan, _ => .nan
  | _, .nan => .nan
  | .infinite a, .infinite b => if a = b then .infinite a else .nan
  | .infinite a, _ => .infinite a
  | _, .infinite b => .infinite b
  | .finite na ma ea, .finite nb mb eb =>
    let e := min ea eb
    let a : Int := ma * Nat.pow 2 (ea - e).toNat
    let b : Int := mb * Nat.pow 2 (eb - e).toNat
    let s := (if na then -a else a) + (if nb then -b else b)
    if s = 0 then .finite (na && nb) 0 (-1074)
    else
      let (n, d) := ratio s.natAbs e
      nearest (s < 0) n d

end Double

end LineTrace

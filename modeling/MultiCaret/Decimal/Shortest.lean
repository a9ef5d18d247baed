import MultiCaret.Decimal.Binary64
import MultiCaret.Text.Numeral

/-!
# Shortest decimals

The decimal with the fewest digits that still reads back as a given binary number, and among those the nearest one.  The
decimals that read back are those between the midpoints to the two neighbours of the number, the midpoints themselves
included when the mantissa is even.  For each number of digits only the two decimals around the value are in question.
-/

namespace MultiCaret

/-- The decimals that read back as a number: those between `low` and `high`, all over the common denominator `den`. -/
structure ReadBack where
  low : Nat
  value : Nat
  high : Nat
  den : Nat
  inclusive : Bool

namespace ReadBack

/-- The interval of `m · 2 ^ e`.  Below a power of two the numbers lie twice as close. -/
def ofBinary (m : Nat) (e : Int) : ReadBack :=
  let lowGap := if m = Binary64.twoTo 52 ∧ Binary64.minExponent < e then 1 else 2
  let up := if 0 ≤ e then Binary64.twoTo e.toNat else 1
  let den := if 0 ≤ e then 4 else 4 * Binary64.twoTo (-e).toNat
  ⟨(4 * m - lowGap) * up, 4 * m * up, (4 * m + 2) * up, den, m % 2 = 0⟩

/-- Does `d · 10 ^ k` read back? -/
def holds (r : ReadBack) (d : Nat) (k : Int) : Bool :=
  let x := if 0 ≤ k then d * Binary64.tenTo k.toNat * r.den else d * r.den
  let s := if 0 ≤ k then 1 else Binary64.tenTo (-k).toNat
  if r.inclusive then r.low * s ≤ x && x ≤ r.high * s else r.low * s < x && x < r.high * s

/-- The value divided by `10 ^ k`, as a fraction. -/
def dividedBy (r : ReadBack) (k : Int) : Nat × Nat :=
  if 0 ≤ k then (r.value, r.den * Binary64.tenTo k.toNat) else (r.value * Binary64.tenTo (-k).toNat, r.den)

/-- The decimal on the grid of `10 ^ k` that reads back and is nearest to the value. -/
def onGrid? (r : ReadBack) (k : Int) : Option Nat :=
  let (num, den) := r.dividedBy k
  let d := num / den
  let below := r.holds d k
  let above := r.holds (d + 1) k
  let rest := num % den
  if below && above then
    some (if 2 * rest < den ∨ (2 * rest = den ∧ d % 2 = 0) then d else d + 1)
  else if below then some d
  else if above then some (d + 1)
  else none

/-- The number of digits in front of the point, for a value of at least one; otherwise the number of zeros behind it,
negated. -/
def magnitude (r : ReadBack) : Int :=
  if r.den ≤ r.value then (Nat.toDigits 10 (r.value / r.den)).length
  else
    let inverse := (r.den + r.value - 1) / r.value
    1 - (Nat.toDigits 10 (inverse - 1)).length

/-- The first grid that holds a decimal that reads back, trying `n` grids from `10 ^ k` downwards. -/
def search (r : ReadBack) : Nat → Int → Nat × Int
  | 0, k => (r.dividedBy k |>.1, k)
  | n + 1, k =>
    match r.onGrid? k with
    | some d => (d, k)
    | none => r.search n (k - 1)

end ReadBack

/-- The shortest digits of a positive number and the power of ten of the last one. -/
def shortestDecimal (m : Nat) (e : Int) : Text × Int :=
  let r := ReadBack.ofBinary m e
  let (d, k) := r.search 20 (r.magnitude - 1)
  let digits := natural d
  let kept := (digits.reverse.dropWhile (· == '0')).reverse
  (kept, k + (digits.length - kept.length))

/-- Digits with the point behind the first `point` of them. -/
def withPoint (digits : Text) (point : Int) : Text :=
  if point ≤ 0 then '0' :: '.' :: List.replicate (-point).toNat '0' ++ digits
  else if digits.length ≤ point then digits ++ List.replicate (point.toNat - digits.length) '0' ++ ['.', '0']
  else digits.take point.toNat ++ '.' :: digits.drop point.toNat

/-- Digits with the point behind the first one and an exponent of at least two digits. -/
def withExponent (digits : Text) (exponent : Int) : Text :=
  let mantissa := match digits with
    | [] => []
    | [d] => [d]
    | d :: ds => d :: '.' :: ds
  mantissa ++ 'e' :: (if exponent < 0 then '-' else '+') :: padLeft '0' 2 (natural exponent.natAbs)

/-- A number in its shortest form, positional from `0.0001` up to sixteen digits in front of the point. -/
def Binary64.text : Binary64 → Text
  | .nan => "nan".toList
  | .infinite negative => (if negative then "-inf" else "inf").toList
  | .finite negative m e =>
    let sign := if negative then ['-'] else []
    if m = 0 then sign ++ "0.0".toList
    else
      let (digits, k) := shortestDecimal m e
      let point := digits.length + k
      sign ++ if -4 < point ∧ point ≤ 16 then withPoint digits point else withExponent digits (point - 1)

end MultiCaret

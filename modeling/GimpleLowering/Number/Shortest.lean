import GimpleLowering.Number.Double

/-!
# The shortest decimal text of a binary64 number

`Double.shortest` finds the decimal with the fewest digits to which no other number is nearer,
and of those with as few digits the one nearest to the number. The search goes through the decimal
grids `10 ^ k` from coarse to fine. On each grid only the two neighbours of the number can be
nearest, so a grid is tried by testing these two in exact arithmetic, and the first grid with a
hit has the fewest digits. Seventeen digits always suffice. A number can lie in the middle between
the two; then a `Tie` says which of them is taken.

`Double.text` writes those digits, positionally unless they are far away from the point. What is
far, how an exponent is written and where a tie goes is up to a `DecimalStyle`. There are two of
them, one for documents and one for constants.

## Main definitions

* `Double.IsNearest` — the number is the one that a decimal rounds to
* `Double.shortest` — digits and decimal exponent
* `Double.DecimalStyle`, `Double.text` — the written form
-/

namespace GimpleLowering

namespace Double

/-! ### Decimal grids -/

/-- `c * 10 ^ k` as a quotient of natural numbers. -/
def decimalRatio (c : Nat) (k : Int) : Nat × Nat :=
  if 0 ≤ k then (c * Nat.pow 10 k.toNat, 1) else (c, Nat.pow 10 (-k).toNat)

/-- The number `d` is the one that the decimal `c * 10 ^ k` rounds to: the decimal lies in the
interval of reals that round to `d`. The interval reaches half a unit of the last place to either
side, only a quarter downwards from a power of two, and includes its ends when the significand is
even. -/
def IsNearest (d : Double) (c : Nat) (k : Int) : Prop :=
  let m := d.significand
  let (num, den) := decimalRatio c k
  let (unit, per) := binaryRatio 1 d.exponent
  let down := if d.fraction = 0 ∧ 1 < d.exponentField then 1 else 2
  let x := 4 * num * per
  let low := (4 * m - down) * unit * den
  let high := (4 * m + 2) * unit * den
  if m % 2 = 0 then low ≤ x ∧ x ≤ high else low < x ∧ x < high

instance (d : Double) (c : Nat) (k : Int) : Decidable (d.IsNearest c k) := by
  unfold IsNearest
  infer_instance

/-- Which of two decimals is taken that are equally near to a number. -/
inductive Tie where
  /-- The greater one. -/
  | up
  /-- The one whose last digit is even. -/
  | even
  deriving DecidableEq, Repr

/-- Between `c` and `c + 1`, whether `c + 1` is taken. -/
def Tie.isUpper : Tie → (c : Nat) → Bool
  | up, _ => true
  | even, c => c % 2 == 1

/-- The neighbours of `d` on the grid `10 ^ k` that round to `d`, the nearer one first. -/
def neighbours (tie : Tie) (d : Double) (k : Int) : List Nat :=
  let (num, den) := d.ratio
  let (unit, per) := decimalRatio 1 k
  let c := num * per / (den * unit)
  let rest := num * per % (den * unit)
  let upper := den * unit < 2 * rest || (2 * rest == den * unit && tie.isUpper c)
  let pair := if upper then [c + 1, c] else [c, c + 1]
  pair.filter fun x => decide (d.IsNearest x k)

/-- The number of decimal digits before the point of a positive number, which is negative for a
number below a tenth. The number is scaled up far enough for its integer part to show it. -/
def leadingPlace (d : Double) : Int :=
  let (num, den) := d.ratio
  (toString (num * Nat.pow 10 400 / den)).length - 400

/-- The first hit on the grids `10 ^ k`, `10 ^ (k - 1)`, …, with at most `tries` of them. -/
def search (tie : Tie) (d : Double) : (tries : Nat) → (k : Int) → Nat × Int
  | 0, k => (0, k)
  | tries + 1, k =>
    match d.neighbours tie k with
    | c :: _ => (c, k)
    | [] => search tie d tries (k - 1)

/-- Trailing zeros moved into the exponent. -/
def trimZeros : Nat → Nat → Int → Nat × Int
  | 0, c, k => (c, k)
  | fuel + 1, c, k =>
    if c % 10 = 0 ∧ c ≠ 0 then trimZeros fuel (c / 10) (k + 1) else (c, k)

/-- The fewest decimal digits that round to the magnitude of a finite, nonzero number, as an
integer `c` and an exponent `k` that stand for `c * 10 ^ k`. -/
def shortest (tie : Tie) (d : Double) : Nat × Int :=
  let (c, k) := d.search tie 18 (d.leadingPlace - 1)
  trimZeros 18 c k

/-! ### Written form -/

/-- How a decimal is written. It is written positionally if the exponent of its first digit is at
least `least` and below sixteen, and otherwise with an exponent, which has a plus sign or none when
it is positive. -/
structure DecimalStyle where
  least : Int
  plus : Bool
  tie : Tie
  deriving DecidableEq, Repr

/-- Numbers of documents, as in `0.00001`, `1e-6` and `1e+16`. -/
def DecimalStyle.document : DecimalStyle := ⟨-5, true, .even⟩

/-- Constants of the program, as in `0.0001`, `1e-5` and `1e16`. -/
def DecimalStyle.constant : DecimalStyle := ⟨-4, false, .up⟩

/-- The text of a positive decimal `c * 10 ^ k` whose digits are `c`'s. -/
def decimalText (style : DecimalStyle) (c : Nat) (k : Int) : String :=
  let digits := toString c
  let count := digits.length
  let e : Int := k + count - 1
  if style.least ≤ e ∧ e < 16 then
    if 0 ≤ k then digits ++ String.ofList (List.replicate k.toNat '0') ++ ".0"
    else if 0 ≤ e then
      let whole := (e + 1).toNat
      String.ofList (digits.toList.take whole) ++ "." ++ String.ofList (digits.toList.drop whole)
    else "0." ++ String.ofList (List.replicate (-(e + 1)).toNat '0') ++ digits
  else
    let tail := digits.toList.drop 1
    let point := if tail.isEmpty then "" else "." ++ String.ofList tail
    let sign := if e < 0 then "-" else if style.plus then "+" else ""
    String.ofList (digits.toList.take 1) ++ point ++ "e" ++ sign ++ toString e.natAbs

/-- The text of a number: always with a point or an exponent, so that it never reads as an
integer. -/
def text (style : DecimalStyle) (d : Double) : String :=
  if d.isNaN then "NaN"
  else
    let sign := if d.negative then "-" else ""
    if ¬ d.isFinite then sign ++ "inf"
    else if d.isZero then sign ++ "0.0"
    else
      let (c, k) := d.shortest style.tie
      sign ++ decimalText style c k

example : decimalText .document 1 (-5) = "0.00001" := by decide +kernel
example : decimalText .constant 1 (-5) = "1e-5" := by decide +kernel
example : (ofRatio false 93431280974653125 100000).neighbours .even (-4)
    = [9343128097465312, 9343128097465313] := by decide +kernel
example : (ofRatio false 93431280974653125 100000).neighbours .up (-4)
    = [9343128097465313, 9343128097465312] := by decide +kernel

end Double

end GimpleLowering

import GimpleLowering.Number.Double

/-!
# Reading decimals

A decimal is read with the arithmetic of binary64: its leading digits, as many as fit sixty-four
bits, are rounded to a number, and this number is multiplied or divided by the number nearest to a
power of ten. Both steps round, so the outcome is the number nearest to the decimal as long as the
digits are below `2 ^ 53` and the power is at most `10 ^ 22`, where both operands are exact; beyond
that it can be a neighbour of that number. A reader that wanted the nearest number throughout would
tell some decimals apart that are the same here.

The digits of the whole part are kept up to the first that does not fit, and so are those of the
fraction, which starts anew: a fraction that begins with a zero can still add to a whole part
whose own next digit did not fit.

## Main definitions

* `Double.leadingDigits`, `Double.appendDigits` — the digits that are kept
* `Double.timesPower`, `Double.overPower` — one rounded product or quotient with a power of ten
* `Double.ofDecimal?` — the number for a decimal, or none when it is too large for one
-/

namespace GimpleLowering

namespace Double

/-! ### Powers of ten -/

/-- The greatest power of ten below infinity is `10 ^ 308`. -/
def greatestPower : Nat := 308

/-- The magnitude of the number nearest to `10 ^ k`, as a quotient of natural numbers. -/
def powerRatio (k : Nat) : Nat × Nat := (ofRatio false (Nat.pow 10 k) 1).ratio

/-- The magnitude of `d` times a power of ten. -/
def timesPower (d : Double) (k : Nat) : Double :=
  ofRatio false (d.ratio.1 * (powerRatio k).1) (d.ratio.2 * (powerRatio k).2)

/-- The magnitude of `d` divided by a power of ten. -/
def overPower (d : Double) (k : Nat) : Double :=
  ofRatio false (d.ratio.1 * (powerRatio k).2) (d.ratio.2 * (powerRatio k).1)

/-! ### Kept digits -/

/-- The leading digits of `c` that fit sixty-four bits, and the number of those that do not. The
fuel bounds the digits that are dropped. -/
def leadingDigits : (fuel : Nat) → (c : Nat) → Nat × Nat
  | 0, c => (c, 0)
  | fuel + 1, c =>
    if c ≤ 18446744073709551615 then (c, 0)
    else
      let (kept, dropped) := leadingDigits fuel (c / 10)
      (kept, dropped + 1)

/-- Decimal digits appended to `c` as long as the outcome fits sixty-four bits, and the number of
those that were appended. -/
def appendDigits : (c : Nat) → (digits : List Nat) → Nat × Nat
  | c, [] => (c, 0)
  | c, digit :: rest =>
    if 10 * c + digit ≤ 18446744073709551615 then
      let (kept, appended) := appendDigits (10 * c + digit) rest
      (kept, appended + 1)
    else (c, 0)

/-! ### Decimals -/

/-- The magnitude of `d` times `10 ^ k`, or none when that is too large. A division by more than
the greatest power is taken in steps; two of them leave nothing of a number below `2 ^ 64`, so
that three steps are always enough. -/
def scale : (steps : Nat) → (d : Double) → (k : Int) → Option Double
  | 0, _, _ => some (ofRatio false 0 1)
  | steps + 1, d, k =>
    if d.isZero then some d
    else if greatestPower < k then none
    else if 0 ≤ k then
      let r := d.timesPower k.toNat
      if r.isFinite then some r else none
    else if -greatestPower ≤ k then some (d.overPower (-k).toNat)
    else scale steps (d.overPower greatestPower) (k + greatestPower)

/-- The number for a decimal with the given sign, whole part, digits of the fraction and exponent,
or none when it is too large. -/
def ofDecimal? (negative : Bool) (whole : Nat) (fraction : List Nat) (exponent : Int) :
    Option Double :=
  let (c, dropped) := leadingDigits (toString whole).length whole
  let (c, appended) := appendDigits c fraction
  (scale 3 (ofRatio false c 1) (exponent + dropped - appended)).map fun d => d.withSign negative

example : (ofDecimal? false 0 [1] 0).map bits = some 0x3fb999999999999a := by decide
example : (ofDecimal? true 0 [0] 0).map bits = some 0x8000000000000000 := by decide
example : (ofDecimal? false 5 [] (-324)).map bits = some 1 := by decide +kernel
example : ofDecimal? false 1 [] 309 = none := by decide
example : leadingDigits 20 18446744073709551616 = (1844674407370955161, 1) := by decide
example : appendDigits 1844674407370955161 [5, 0] = (18446744073709551615, 1) := by decide

end Double

end GimpleLowering

/-!
# Binary64 numbers

A real constant is carried through the whole program as a binary64 number and is never computed
with, so `Double` is nothing but its 64 bits. The two ways in are a quotient of natural numbers
(`Double.ofRatio`), on which the reading of decimals builds, and an integer (`Double.ofInt`). Both
round to nearest and send a tie to the even neighbour.

Everything is exact arithmetic on `Nat`: no operation of the processor is involved, and every
definition evaluates in the kernel. The borders between the fields are written in hexadecimal:
`0x10000000000000` is `2 ^ 52`, and the exponents above it have `0x800` values.

## Main definitions

* `Double.ofRatio`, `Double.ofInt` — the nearest number to a quotient and to an integer
* `Double.significand`, `Double.exponent` — a finite number as `significand * 2 ^ exponent`
* `Double.ratio` — the same as a quotient of natural numbers
-/

namespace GimpleLowering

/-- A binary64 number: a sign bit, eleven exponent bits and fifty-two fraction bits. Two numbers
are the same exactly when their bits are, so `0.0` and `-0.0` are told apart. -/
structure Double where
  bits : UInt64
  deriving DecidableEq, Repr, Inhabited

namespace Double

/-! ### Taking a number apart -/

/-- The sign bit. -/
def negative (d : Double) : Bool := 0x8000000000000000 ≤ d.bits.toNat

/-- The eleven exponent bits. -/
def exponentField (d : Double) : Nat := d.bits.toNat / 0x10000000000000 % 0x800

/-- The fifty-two fraction bits. -/
def fraction (d : Double) : Nat := d.bits.toNat % 0x10000000000000

/-- All exponent bits are set in infinities and in values that are not numbers. -/
def isFinite (d : Double) : Bool := d.exponentField != 2047

/-- Not a number: all exponent bits are set, and some fraction bit is. -/
def isNaN (d : Double) : Bool := d.exponentField == 2047 && d.fraction != 0

/-- Zero, of either sign. -/
def isZero (d : Double) : Bool := d.exponentField == 0 && d.fraction == 0

/-- The magnitude of a finite number is `significand * 2 ^ exponent`. Numbers with the least
exponent lack the leading bit that all others have. -/
def significand (d : Double) : Nat :=
  if d.exponentField = 0 then d.fraction else d.fraction + 0x10000000000000

/-- The magnitude of a finite number is `significand * 2 ^ exponent`. -/
def exponent (d : Double) : Int :=
  if d.exponentField = 0 then -1074 else d.exponentField - 1075

/-- `m * 2 ^ q` as a quotient of natural numbers. -/
def binaryRatio (m : Nat) (q : Int) : Nat × Nat :=
  if 0 ≤ q then (m * Nat.pow 2 q.toNat, 1) else (m, Nat.pow 2 (-q).toNat)

/-- The magnitude of a finite number as a quotient of natural numbers. -/
def ratio (d : Double) : Nat × Nat := binaryRatio d.significand d.exponent

/-! ### Putting a number together -/

/-- `num / den` rounded to the nearest natural number, a tie going to the even one. -/
def roundDiv (num den : Nat) : Nat :=
  let q := num / den
  let r := num % den
  if 2 * r < den then q
  else if den < 2 * r then q + 1
  else if q % 2 = 0 then q else q + 1

/-- The exponent of the greatest power of two that is at most `num / den`, both positive. -/
def floorLog (num den : Nat) : Int :=
  let guess : Int := num.log2 - den.log2
  let reached :=
    if 0 ≤ guess then decide (den * Nat.pow 2 guess.toNat ≤ num)
    else decide (den ≤ num * Nat.pow 2 (-guess).toNat)
  if reached then guess else guess - 1

/-- The bits of the magnitude nearest to `num / den`. The rounded significand is added to the
exponent field, not or-ed into it: a significand that rounds up to the next power of two carries
into the exponent, and one below `2 ^ 52` leaves it zero. A sum that reaches the last exponent
field is infinity. -/
def magnitudeBits (num den : Nat) : Nat :=
  if num = 0 then 0
  else
    let e := max (floorLog num den - 52) (-1074)
    let m := if 0 ≤ e then roundDiv num (den * Nat.pow 2 e.toNat)
      else roundDiv (num * Nat.pow 2 (-e).toNat) den
    min ((e + 1074).toNat * 0x10000000000000 + m) 0x7ff0000000000000

/-- The number nearest to `num / den`, with the given sign. Too large a quotient gives infinity. -/
def ofRatio (negative : Bool) (num den : Nat) : Double :=
  ⟨UInt64.ofNat (magnitudeBits num den + if negative then 0x8000000000000000 else 0)⟩

/-- The number of the same magnitude with the given sign. -/
def withSign (d : Double) (negative : Bool) : Double :=
  ⟨UInt64.ofNat (d.bits.toNat % 0x8000000000000000 + if negative then 0x8000000000000000 else 0)⟩

/-- The number nearest to an integer. -/
def ofInt (i : Int) : Double := ofRatio (decide (i < 0)) i.natAbs 1

example : (ofInt 1).bits = 0x3ff0000000000000 := by decide
example : (ofInt 9007199254740993).bits = (ofInt 9007199254740992).bits := by decide
example : (ofRatio true 1 10).bits = 0xbfb999999999999a := by decide
example : (ofRatio false 18014398509481983 1).bits = (ofInt 18014398509481984).bits := by decide

end Double

end GimpleLowering

import GimpleLowering.Json.Fields
import GimpleLowering.Proofs.Except
import Mathlib.Tactic.Common
import Mathlib.Tactic.Ring

/-!
# Numbers that are read are finite

A number of sixty-four bits is far from infinity, and what is too large for a decimal is refused, so
no text is read as an infinity or as a value that is not a number. A quotient below `2 ^ b` rounds
to a number below `2 ^ (b + 4)`; the few steps in which a decimal is scaled cannot lead from
sixty-four bits to infinity.

## Main definitions

* `Double.Below` — a bound of the magnitude by a power of two
* `Json.Reading.IsBounded` — what a numeral can be read as

## Main results

* `Double.below_ofRatio` — a quotient rounds to a number that is not much larger
* `Double.isFinite_of_ofDecimal?`, `isFinite_ofInt` — decimals and integers are finite numbers
* `Json.Document.isFinite_of_asDouble` — so are documents
-/

namespace GimpleLowering

namespace Double

/-! ### Bounds -/

/-- The magnitude is below `2 ^ b`. -/
def Below (d : Double) (b : Nat) : Prop := d.exponentField ≤ 1022 + b

theorem Below.isFinite {d : Double} {b : Nat} (h : d.Below b) (hb : b ≤ 1024) : d.isFinite := by
  unfold Below at h
  simp only [Double.isFinite, bne_iff_ne, ne_eq]
  omega

theorem significand_lt (d : Double) : d.significand < 2 ^ 53 := by
  have hfraction : d.fraction < 0x10000000000000 := Nat.mod_lt _ (by decide)
  unfold significand
  split <;> omega

theorem Below.ratio_lt {d : Double} {b : Nat} (h : d.Below b) :
    0 < d.ratio.2 ∧ d.ratio.1 < d.ratio.2 * 2 ^ b := by
  have hm := d.significand_lt
  have hexponent : d.exponent ≤ b - 53 := by
    unfold Below at h
    unfold exponent
    split <;> omega
  unfold ratio binaryRatio
  split
  · rename_i hq
    refine ⟨Nat.one_pos, ?_⟩
    calc d.significand * 2 ^ d.exponent.toNat
        < 2 ^ 53 * 2 ^ d.exponent.toNat := Nat.mul_lt_mul_of_pos_right hm (Nat.two_pow_pos _)
      _ = 2 ^ (53 + d.exponent.toNat) := (Nat.pow_add ..).symm
      _ ≤ 1 * 2 ^ b := by
        rw [Nat.one_mul]
        exact Nat.pow_le_pow_right (by decide) (by omega)
  · rename_i hq
    refine ⟨Nat.two_pow_pos _, ?_⟩
    calc d.significand < 2 ^ 53 := hm
      _ ≤ 2 ^ ((-d.exponent).toNat + b) := Nat.pow_le_pow_right (by decide) (by omega)
      _ = 2 ^ (-d.exponent).toNat * 2 ^ b := Nat.pow_add ..

/-! ### Quotients -/

theorem roundDiv_le {num den m : Nat} (h : num < den * m) : roundDiv num den ≤ m := by
  have hdiv : num / den < m := Nat.div_lt_of_lt_mul h
  unfold roundDiv
  simp only
  split
  · omega
  · split
    · omega
    · split <;> omega

theorem floorLog_bounds (num den : Nat) :
    (num.log2 : Int) - den.log2 - 1 ≤ floorLog num den ∧
      floorLog num den ≤ num.log2 - den.log2 := by
  unfold floorLog
  simp only
  split <;> omega

/-- A significand has about as many bits as there are between the quotient and the unit. -/
theorem rounded_le {num den : Nat} {e : Int} (hden : den ≠ 0)
    (he : (num.log2 : Int) - den.log2 - 53 ≤ e) :
    (if 0 ≤ e then roundDiv num (den * Nat.pow 2 e.toNat)
      else roundDiv (num * Nat.pow 2 (-e).toNat) den) ≤ 2 ^ 54 := by
  have hnum : num < 2 ^ (num.log2 + 1) := Nat.lt_log2_self
  have hden : 2 ^ den.log2 ≤ den := Nat.log2_self_le hden
  split
  · refine roundDiv_le ?_
    calc num < 2 ^ (num.log2 + 1) := hnum
      _ ≤ 2 ^ (den.log2 + e.toNat + 54) := Nat.pow_le_pow_right (by decide) (by omega)
      _ = 2 ^ den.log2 * 2 ^ e.toNat * 2 ^ 54 := by rw [Nat.pow_add, Nat.pow_add]
      _ ≤ den * 2 ^ e.toNat * 2 ^ 54 := by gcongr
  · refine roundDiv_le ?_
    calc num * 2 ^ (-e).toNat
        < 2 ^ (num.log2 + 1) * 2 ^ (-e).toNat :=
          Nat.mul_lt_mul_of_pos_right hnum (Nat.two_pow_pos _)
      _ = 2 ^ (num.log2 + 1 + (-e).toNat) := (Nat.pow_add ..).symm
      _ ≤ 2 ^ (den.log2 + 54) := Nat.pow_le_pow_right (by decide) (by omega)
      _ = 2 ^ den.log2 * 2 ^ 54 := Nat.pow_add ..
      _ ≤ den * 2 ^ 54 := by gcongr

theorem log2_le_of_lt {num den b : Nat} (hnum : num ≠ 0) (h : num < den * 2 ^ b) :
    num.log2 ≤ den.log2 + b := by
  have hpow : 2 ^ num.log2 < 2 ^ (den.log2 + 1 + b) := by
    calc 2 ^ num.log2 ≤ num := Nat.log2_self_le hnum
      _ < den * 2 ^ b := h
      _ ≤ 2 ^ (den.log2 + 1) * 2 ^ b := Nat.mul_le_mul_right _ Nat.lt_log2_self.le
      _ = 2 ^ (den.log2 + 1 + b) := (Nat.pow_add ..).symm
  have hlt := (Nat.pow_lt_pow_iff_right (by decide)).1 hpow
  omega

theorem magnitudeBits_le {num den b : Nat} (h : num < den * 2 ^ b) :
    magnitudeBits num den ≤ (b + 1026) * 0x10000000000000 := by
  have hden : den ≠ 0 := by
    rintro rfl
    simp at h
  by_cases hnum : num = 0
  · simp [magnitudeBits, hnum]
  have hlog := log2_le_of_lt hnum h
  obtain ⟨hlow, hhigh⟩ := floorLog_bounds num den
  obtain ⟨e, he⟩ : ∃ e, e = max (floorLog num den - 52) (-1074) := ⟨_, rfl⟩
  have hm := @rounded_le num den e hden (by omega)
  simp only [magnitudeBits, hnum, if_false, ← he]
  omega

theorem magnitudeBits_lt (num den : Nat) : magnitudeBits num den < 0x8000000000000000 := by
  unfold magnitudeBits
  split
  · decide
  · exact Nat.lt_of_le_of_lt (Nat.min_le_right ..) (by decide)

/-- The sign has no part in the exponent field. -/
theorem exponentField_mk {magnitude : Nat} (h : magnitude < 0x8000000000000000) (negative : Bool) :
    (Double.mk (.ofNat (magnitude + if negative then 0x8000000000000000 else 0))).exponentField =
      magnitude / 0x10000000000000 := by
  unfold exponentField
  cases negative <;> simp only [UInt64.toNat_ofNat', if_true, if_false, Bool.false_eq_true] <;>
    omega

/-- A quotient below a power of two rounds to a number that is not much larger. -/
theorem below_ofRatio {negative : Bool} {num den b : Nat} (h : num < den * 2 ^ b) :
    (ofRatio negative num den).Below (b + 4) := by
  have hbits := magnitudeBits_le h
  unfold Below
  rw [ofRatio, exponentField_mk (magnitudeBits_lt num den)]
  omega

theorem exponentField_withSign (d : Double) (negative : Bool) :
    (d.withSign negative).exponentField = d.exponentField := by
  rw [withSign, exponentField_mk (Nat.mod_lt _ (by decide))]
  unfold exponentField
  omega

theorem isFinite_withSign (d : Double) (negative : Bool) :
    (d.withSign negative).isFinite = d.isFinite := by
  rw [isFinite, exponentField_withSign, isFinite]

theorem isFinite_ofInt {i : Int} (h : i.natAbs < 2 ^ 64) : (ofInt i).isFinite :=
  (below_ofRatio (b := 64) (by omega)).isFinite (by decide)

/-! ### Decimals -/

/-- Powers of ten are at least one. -/
theorem one_le_power {k : Nat} (h : k ≤ greatestPower) :
    0 < (powerRatio k).1 ∧ (powerRatio k).2 ≤ (powerRatio k).1 := by
  have hall : ∀ k ∈ List.range (greatestPower + 1),
      0 < (powerRatio k).1 ∧ (powerRatio k).2 ≤ (powerRatio k).1 := by decide +kernel
  exact hall k (List.mem_range.2 (Nat.lt_succ_of_le h))

theorem Below.overPower {d : Double} {b k : Nat} (h : d.Below b) (hk : k ≤ greatestPower) :
    (d.overPower k).Below (b + 4) := by
  obtain ⟨hpos, hle⟩ := one_le_power hk
  obtain ⟨-, hlt⟩ := h.ratio_lt
  refine below_ofRatio ?_
  calc d.ratio.1 * (powerRatio k).2 ≤ d.ratio.1 * (powerRatio k).1 := Nat.mul_le_mul_left _ hle
    _ < d.ratio.2 * 2 ^ b * (powerRatio k).1 := Nat.mul_lt_mul_of_pos_right hlt hpos
    _ = d.ratio.2 * (powerRatio k).1 * 2 ^ b := by ring

/-- A number that is scaled is finite. -/
theorem isFinite_of_scale {steps : Nat} {d r : Double} {k : Int} {b : Nat} (hd : d.Below b)
    (hb : b + 4 * steps ≤ 1024) (h : scale steps d k = some r) : r.isFinite := by
  induction steps generalizing d k b with
  | zero =>
    obtain rfl := Option.some.inj h
    decide
  | succ steps ih =>
    rw [scale] at h
    split at h
    · obtain rfl := Option.some.inj h
      exact hd.isFinite (by omega)
    · split at h
      · cases h
      · split at h
        · simp only at h
          split at h
          · obtain rfl := Option.some.inj h
            assumption
          · cases h
        · split at h
          · obtain rfl := Option.some.inj h
            exact (hd.overPower (by omega)).isFinite (by omega)
          · exact ih (hd.overPower (Nat.le_refl _)) (by omega) h

theorem leadingDigits_lt {fuel c : Nat} (h : c < 2 ^ 64 * 10 ^ fuel) :
    (leadingDigits fuel c).1 < 2 ^ 64 := by
  induction fuel generalizing c with
  | zero => simpa [leadingDigits] using h
  | succ fuel ih =>
    rw [leadingDigits]
    split
    · omega
    · exact ih (by rw [Nat.pow_succ] at h; omega)

theorem appendDigits_lt {c : Nat} {digits : List Nat} (h : c < 2 ^ 64) :
    (appendDigits c digits).1 < 2 ^ 64 := by
  induction digits generalizing c with
  | nil => exact h
  | cons digit rest ih =>
    rw [appendDigits]
    split
    · exact ih (by omega)
    · exact h

/-- A decimal is read as a finite number, if it is read at all. -/
theorem isFinite_of_ofDecimal? {negative : Bool} {whole : Nat} {fraction : List Nat}
    {exponent : Int} {d : Double} (h : ofDecimal? negative whole fraction exponent = some d) :
    d.isFinite := by
  have hwhole : whole < 10 ^ (toString whole).length := by
    rw [Nat.toString_eq_ofList_toDigits, String.length_ofList]
    exact (Nat.length_toDigits_le_iff (by decide) Nat.length_toDigits_pos).1 (Nat.le_refl _)
  have hleading := @leadingDigits_lt (toString whole).length whole (by omega)
  have hc := @appendDigits_lt _ fraction hleading
  simp only [ofDecimal?] at h
  obtain ⟨r, hr, rfl⟩ := Option.map_eq_some_iff.1 h
  -- Sixty-four bits and three steps stay far below infinity.
  have hbelow := @below_ofRatio false _ 1 64 (by rwa [Nat.one_mul])
  rw [isFinite_withSign]
  exact isFinite_of_scale hbelow (by decide) hr

end Double

/-! ### Documents -/

namespace Json

/-- An integer of at most sixty-four bits, or a finite number. -/
def Reading.IsBounded : Reading → Prop
  | integer i => i.natAbs < 2 ^ 64
  | double x => x.isFinite

theorem Numeral.isBounded_of_reading {n : Numeral} {reading : Reading}
    (h : n.reading = some reading) : reading.IsBounded := by
  have hdecimal : ∀ {negative whole fraction exponent},
      (Double.ofDecimal? negative whole fraction exponent).map Reading.double = some reading →
        reading.IsBounded := by
    intro negative whole fraction exponent h
    obtain ⟨x, hx, rfl⟩ := Option.map_eq_some_iff.1 h
    exact Double.isFinite_of_ofDecimal? hx
  unfold Numeral.reading at h
  split at h
  · split at h
    · obtain rfl := Option.some.inj h
      simpa [Reading.IsBounded] using ‹_ < _›
    · exact hdecimal h
  · split at h
    · exact hdecimal h
    · obtain rfl := Option.some.inj h
      simp only [Reading.IsBounded, Int.natAbs_neg, Int.natAbs_natCast]
      omega
  · exact hdecimal h

/-- A document is read as a finite number. -/
theorem Document.isFinite_of_asDouble {d : Document} {x : Double} (h : d.asDouble = .ok x) :
    x.isFinite := by
  unfold asDouble at h
  split at h
  · split at h
    · rename_i hr
      obtain rfl := Except.ok.inj h
      exact Double.isFinite_ofInt (Numeral.isBounded_of_reading hr)
    · rename_i hr
      obtain rfl := Except.ok.inj h
      exact Numeral.isBounded_of_reading hr
    · cases h
  · cases h

end Json

end GimpleLowering

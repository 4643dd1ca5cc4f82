import GimpleLowering.Proofs.Layout.Computation

/-!
# Types that are refused

A computation on types that fails has come upon a type that is refused whatever is registered: the
verdict on it is the error. Together with the representations of those that are not refused, this
is all there is to the outcomes of computations that have an end.

## Main definitions

* `Layout.Refuses` — what it means for layouts to be refused

## Main results

* `Layout.represent_fails`, `slotsOf_fails` — the error is the verdict
-/

namespace GimpleLowering.Layout

open Gimple

variable {x : UnitIndex} {S : Ty → Prop} {A : Flo.Ty × Nat → Prop} {active : List Nat}
  {r r' : Registry} {e : Error}

/-! ### Structs -/

theorem completeRecord_fails {ty : Ty} (h : (completeRecord x ty).Fails r e r') :
    ty.isRecord = false ∧ e = .internal (.notARecord ty) := by
  unfold completeRecord at h
  split at h
  · exact absurd h (by simp)
  · rename_i hr
    exact ⟨by simpa using hr, (Build.fails_throw.1 h).1⟩

theorem resolveHandle_fails {ty : Ty} (h : (resolveHandle x ty).Fails r e r') :
    ty.isRecord = false ∧ e = .internal (.notARecord ty) := by
  simp only [resolveHandle, Build.fails_bind, Build.fails_step, and_false, exists_false,
    or_false] at h
  exact completeRecord_fails h

theorem resolve_fails {ty : Ty} (h : (resolve x ty).Fails r e r') :
    ty.isRecord = false ∧ e = .internal (.notARecord ty) ∨
      ty.isRecord ∧ x.checkContained (x.complete ty) = .error e := by
  simp only [resolve, Build.fails_bind, Build.fails_step, Build.fails_ofExcept, and_false,
    exists_false, or_false] at h
  rcases h with h | ⟨record, r₁, hc, he, -⟩
  · exact .inl (completeRecord_fails h)
  · obtain ⟨hr, rfl, -⟩ := completeRecord_ran hc
    exact .inr ⟨hr, he⟩

/-! ### Representations -/

/-- A layout that is refused is refused for its record. -/
def Refuses (x : UnitIndex) (S : Ty → Prop) (A : Flo.Ty × Nat → Prop)
    (slots : Nat → LayoutM (List Slot)) : Prop :=
  ∀ {id : Nat} {r r' : Registry} {s : RecordStruct} {e : Error}, r.SoundUpTo x S A →
    r.struct? id = some s → (slots id).Fails r e r' → LayoutJudged x s.record (.error e)

section

variable {slots : Nat → LayoutM (List Slot)}

theorem integerOfWidth_fails {width : Nat} (h : (integerOfWidth width).Fails r e r') :
    Judged x (.integer width) (.error e) := by
  unfold integerOfWidth at h
  split at h
  · exact absurd h (by simp)
  · rename_i h₃₂
    split at h
    · exact absurd h (by simp)
    · rename_i h₆₄
      obtain ⟨rfl, -⟩ := Build.fails_throw.1 h
      exact .otherInteger h₃₂ h₆₄

theorem realOfWidth_fails {width : Nat} (h : (realOfWidth width).Fails r e r') :
    Judged x (.real width) (.error e) := by
  unfold realOfWidth at h
  split at h
  · exact absurd h (by simp)
  · rename_i h₆₄
    obtain ⟨rfl, -⟩ := Build.fails_throw.1 h
    exact .otherReal h₆₄

theorem indirection_fails {ty base : Ty} (hb : ty.indirectBase = some base)
    {pointee : LayoutM Representation} (hp : pointee.Fails r e r' → Judged x base (.error e))
    (h : (indirection x ty base pointee).Fails r e r') : Judged x ty (.error e) := by
  rw [indirection_eq] at h
  split at h
  · rename_i hr
    rw [map_eq_pure_bind] at h
    simp only [Build.fails_bind, Build.fails_pure, and_false, exists_false, or_false] at h
    rw [(resolveHandle_fails h).1] at hr
    cases hr
  · rename_i hr
    have hr : base.isRecord = false := by simpa using hr
    split at h
    · rename_i hi
      obtain ⟨rfl, -⟩ := Build.fails_throw.1 h
      exact .doubleIndirection hb hr hi
    · rename_i hi
      rw [map_eq_pure_bind] at h
      simp only [Build.fails_bind, Build.fails_pure, and_false, exists_false, or_false] at h
      exact .cell hb hr (by simpa using hi) (hp h)

/-- The error is the verdict on the type. -/
theorem representWith_fails (hx : x.Closed S) (href : Refuses x S A slots) {ty : Ty} (hS : S ty)
    (hr : r.SoundUpTo x S A) (h : (representWith x slots ty).Fails r e r') :
    Judged x ty (.error e) := by
  induction ty using Ty.induction generalizing r r' with
  | integer width => exact integerOfWidth_fails h
  | real width => exact realOfWidth_fails h
  | boolean => exact absurd h (by simp [representWith])
  | record name fields =>
    simp only [representWith, Build.fails_bind, Build.fails_pure, and_false, exists_false,
      or_false] at h
    rcases h with h | ⟨id, r₁, hres, hslots⟩
    · rcases resolve_fails h with ⟨hno, -⟩ | ⟨hrec, he⟩
      · cases hno
      · exact .contained hrec he
    · have hs₁ : EvolvedUpTo x S A [] r r₁ := (resolve_keeps hx hS).ran hres hr
      obtain ⟨hrec, hreg⟩ := resolve_ran hres
      obtain ⟨s, hs, hrecord⟩ := Registry.struct?_of_structOf? hreg
      simp only [resolve, Build.ran_bind, Build.ran_ofExcept] at hres
      obtain ⟨_, _, hc, _, _, ⟨hcontained, -⟩, -⟩ := hres
      obtain ⟨-, rfl, -⟩ := completeRecord_ran hc
      exact .record hrec hcontained (hrecord ▸ href hs₁.sound hs hslots)
  | array base length ih =>
    simp only [representWith, Build.fails_bind, Build.fails_step, Build.fails_pure, and_false,
      exists_false, or_false] at h
    exact .array (ih (hx.array hS) hr h)
  | pointer base ih => exact indirection_fails rfl (ih (hx.pointer hS) hr) h
  | reference base ih => exact indirection_fails rfl (ih (hx.reference hS) hr) h

/-! ### Layouts -/

/-- The error is the verdict on the fields. -/
theorem placeFields_fails (hx : x.Closed S) (hsl : Supplies x S A active slots)
    (href : Refuses x S A slots) {fields : List Field} (hS : ∀ f ∈ fields, S f.ty) {first : Nat}
    (hr : r.SoundUpTo x S A) (h : (placeFields (representWith x slots) first fields).Fails r e r') :
    FieldsJudged x fields (.error e) := by
  induction fields generalizing first r with
  | nil => exact absurd h (by simp [placeFields])
  | cons f rest ih =>
    have hf : S f.ty := hS f (by simp)
    simp only [placeFields, Build.fails_bind, Build.fails_pure, and_false, exists_false,
      or_false] at h
    rcases h with h | ⟨rep, r₁, hrep, h⟩
    · exact .refused (representWith_fails hx href hf hr h)
    · have hs₁ := (representWith_keeps hx hsl hf).ran hrep hr
      have hjudged := (representWith_ran hx hsl hf hr hrep).judged hs₁.sound
      exact .cons hjudged (ih (fun g hg => hS g (by simp [hg])) hs₁.sound h)

theorem knownSlots_fails {id : Nat} {s : RecordStruct} {compute : Ty → LayoutM (List Slot)}
    (hs : r.struct? id = some s) (h : (knownSlots id compute).Fails r e r') :
    (compute s.record).Fails r e r' := by
  simp only [knownSlots, Build.fails_bind, Build.fails_get, Build.ran_get, false_or] at h
  obtain ⟨_, _, ⟨rfl, rfl⟩, h⟩ := h
  simp only [hs] at h
  cases hsl : s.slots with
  | some slots =>
    simp only [hsl] at h
    exact absurd h (by simp)
  | none =>
    simp only [hsl] at h
    exact h

end

theorem layOut_refuses (hx : x.Closed S) (fuel : Nat) (active : List Nat) :
    Refuses x S A (layOut x fuel active) := by
  induction fuel generalizing active with
  | zero =>
    intro id r r' s e _ hs h
    exact absurd (knownSlots_fails hs h) (by simp)
  | succ fuel ih =>
    intro id r r' s e hr hs h
    have hS : S s.record := (hr.record s (Registry.mem_of_struct? hs)).2.2
    have hcompute := knownSlots_fails hs h
    split at hcompute
    · exact absurd hcompute (by simp)
    · simp only [layOutWith, Build.fails_bind, Build.fails_ofExcept, fails_publish,
        Build.fails_pure, Build.ran_ofExcept, and_false, exists_false, or_false] at hcompute
      rcases hcompute with ⟨hd, -⟩ | ⟨_, _, ⟨hd, rfl⟩, hplaced⟩
      · exact .undefined hd
      · exact .defined hd (placeFields_fails hx (layOut_supplies hx fuel (id :: active))
          (ih (id :: active)) (fun f hf => hx.field_of_mem hS hf) hr hplaced)

/-! ### Results -/

theorem slotsOf_refuses (hx : x.Closed S) : Refuses x S A (slotsOf x) := by
  intro id r r' s e hr hs h
  simp only [slotsOf, Build.fails_bind, Build.fails_get, Build.ran_get, false_or] at h
  obtain ⟨_, _, ⟨rfl, rfl⟩, h⟩ := h
  exact layOut_refuses hx _ _ hr hs h

/-- The error is the verdict on the layout of the record. -/
theorem slotsOf_fails (hx : x.Closed S) {record : Ty} {id : Nat} (hr : r.SoundUpTo x S A)
    (hid : r.structOf? record = some id) (h : (slotsOf x id).Fails r e r') :
    LayoutJudged x record (.error e) := by
  obtain ⟨s, hs, rfl⟩ := Registry.struct?_of_structOf? hid
  exact slotsOf_refuses hx hr hs h

/-- The error is the verdict on the type. -/
theorem represent_fails (hx : x.Closed S) {ty : Ty} (hS : S ty) (hr : r.SoundUpTo x S A)
    (h : (represent x ty).Fails r e r') : Judged x ty (.error e) :=
  representWith_fails hx (slotsOf_refuses hx) hS hr h

end GimpleLowering.Layout

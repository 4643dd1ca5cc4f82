import GimpleLowering.Proofs.Endings
import GimpleLowering.Proofs.Layout.Entanglement
import GimpleLowering.Proofs.Layout.Finalization

/-!
# Layouts that have an end

A layout is computed inside of others: those of the records that need it. They are all under way, so
none of them may be asked for again. Whoever asks closes a circle of records that need each other,
and as each of them has passed the check that it does not contain itself, the circle leads through a
pointer to an array. The records that are under way differ from each other, so there are no more of
them than records that are written anywhere: the fuel does not run out first.

## Main definitions

* `Layout.UnderWay` — the layouts that wait for that of a record
* `Layout.AwaitsItself` — the breakdown of a layout that needs an entangled record
* `Layout.Expected` — the registries that can be met on the way

## Main results

* `Layout.layOut_ends`, `slotsOf_ends`, `represent_ends`, `finalize_ends` — only the layouts of
  entangled records have no end
-/

namespace GimpleLowering.Layout

open Gimple Relation

variable {x : UnitIndex} {A : Flo.Ty × Nat → Prop} {L : List Ty} {r r' : Registry}
  {active : List Nat}

/-! ### Errors of layouts -/

/-- The error is about a type of the unit. -/
def IsTypeError (e : Error) : Prop := e.kind = .invalidLayout ∨ e.kind = .unsupportedType

theorem isTypeError_of_checkContained {record : Ty} {e : Error}
    (h : x.checkContained record = .error e) : IsTypeError e := by
  unfold UnitIndex.checkContained at h
  generalize x.recordBound record = fuel at h
  suffices ∀ path ty, x.checkContainedFrom fuel path ty = .error e → IsTypeError e from this _ _ h
  clear h
  induction fuel with
  | zero =>
    intro path ty h
    cases h
    exact .inl rfl
  | succ fuel ih =>
    intro path ty h
    unfold UnitIndex.checkContainedFrom at h
    split at h
    · cases h
    · simp only at h
      split at h
      · cases h
        exact .inl rfl
      · obtain ⟨f, -, hf⟩ := exists_of_forM_error h
        exact ih _ _ hf

theorem isTypeError_of_checkDefined {record : Ty} {e : Error}
    (h : checkDefined x record = .error e) : IsTypeError e := by
  unfold checkDefined at h
  by_cases he : record.fields.isEmpty
  · simp only [he, if_true] at h
    cases h
    exact .inl rfl
  · simp only [he, Bool.false_eq_true, if_false] at h
    split at h
    · cases h
      exact .inl rfl
    · exact isTypeError_of_checkContained h

/-! ### Layouts under way -/

/-- The layouts of the active structs are under way, and all of them wait for that of the record.
Their own records have passed the check. -/
structure UnderWay (x : UnitIndex) (r : Registry) (active : List Nat) (record : Ty) : Prop where
  nodup : active.Nodup
  waits : ∀ id ∈ active, ∃ s, r.struct? id = some s ∧ x.checkContained s.record = .ok () ∧
    TransGen x.Needs s.record record

namespace UnderWay

variable {record next : Ty}

theorem nil (x : UnitIndex) (r : Registry) (record : Ty) : UnderWay x r [] record :=
  ⟨.nil, fun _ h => by cases h⟩

theorem mono (h : UnderWay x r active record) (hg : r.Grows r') :
    UnderWay x r' active record := by
  refine ⟨h.nodup, fun id hid => ?_⟩
  obtain ⟨s, hs, hchecked, hneeds⟩ := h.waits id hid
  obtain ⟨s', hs', hrecord⟩ := hg.struct? hs
  exact ⟨s', hs', hrecord ▸ hchecked, hrecord ▸ hneeds⟩

/-- One more layout is under way, and waits for a record that it needs. -/
theorem cons (h : UnderWay x r active record) {id : Nat} {s : RecordStruct}
    (hs : r.struct? id = some s) (hrecord : s.record = record) (hid : id ∉ active)
    (hchecked : x.checkContained record = .ok ()) (hnext : x.Needs record next) :
    UnderWay x r (id :: active) next := by
  refine ⟨List.nodup_cons.2 ⟨hid, h.nodup⟩, fun i hi => ?_⟩
  rcases List.mem_cons.1 hi with rfl | hi
  · exact ⟨s, hs, hrecord ▸ hchecked, hrecord ▸ .single hnext⟩
  · obtain ⟨t, ht, htc, hneeds⟩ := h.waits i hi
    exact ⟨t, ht, htc, hneeds.tail hnext⟩

/-- There are no more layouts under way than structs. -/
theorem length_le (h : UnderWay x r active record) : active.length ≤ r.structs.length := by
  have hsub : active ⊆ List.range' 1 r.structs.length := by
    intro id hid
    obtain ⟨s, hs, -⟩ := h.waits id hid
    obtain _ | i := id
    · simp at hs
    · have := (List.getElem?_eq_some_iff.1 hs).1
      simp only [List.mem_range'_1]
      omega
  simpa using (h.nodup.subperm hsub).length_le

end UnderWay

/-- The layout of the record needs that of an entangled one, which waits for itself. -/
def AwaitsItself (x : UnitIndex) (record : Ty) (b : Breakdown) : Prop :=
  ∃ other, ReflTransGen x.Needs record other ∧ x.Entangled other ∧ b = .unending other

theorem AwaitsItself.of_needs {record next : Ty} {b : Breakdown} (h : AwaitsItself x next b)
    (hneeds : x.Needs record next) : AwaitsItself x record b := by
  obtain ⟨other, hother, h⟩ := h
  exact ⟨other, hother.head hneeds, h⟩

/-- What a type needs waits for itself. -/
def AwaitsNeeded (x : UnitIndex) (ty : Ty) (b : Breakdown) : Prop :=
  ∃ root, ty.neededRecord? = some root ∧ AwaitsItself x (x.complete root) b

/-! ### Representations -/

/-- The layouts of structs have an end, except for those of records that need entangled ones. The
set `I` has the registries that can be met on the way. -/
def SlotsEnd (x : UnitIndex) (active : List Nat) (I : Registry → Prop)
    (slots : Nat → LayoutM (List Slot)) : Prop :=
  ∀ {id : Nat} {r : Registry} {s : RecordStruct}, I r → r.struct? id = some s →
    UnderWay x r active s.record → (slots id).EndsUnless r (AwaitsItself x s.record) IsTypeError

theorem resolve_ends {ty : Ty} {B : Breakdown → Prop} (h : ty.isRecord) :
    (resolve x ty).EndsUnless r B IsTypeError := by
  rw [resolve, completeRecord, if_pos h]
  refine .bind (.pure _) fun record _ _ => ?_
  exact .bind (.ofExcept fun e he => isTypeError_of_checkContained he) fun _ _ _ => .step _

theorem resolveHandle_ends {ty : Ty} {B : Breakdown → Prop} (h : ty.isRecord) :
    (resolveHandle x ty).EndsUnless r B IsTypeError := by
  rw [resolveHandle, completeRecord, if_pos h]
  exact .bind (.pure _) fun record _ _ => .step _

section

variable {slots : Nat → LayoutM (List Slot)} {I : Registry → Prop}

/-- A pointer or reference to something else than a record needs what that needs. -/
theorem neededRecord?_of_direct {ty base : Ty} (hb : ty.indirectBase = some base)
    (hr : base.isRecord = false) (hi : base.isIndirect = false) :
    ty.neededRecord? = base.neededRecord? := by
  rw [neededRecord?_of_indirectBase hb, if_neg (by simp [hr, hi])]

theorem indirection_ends {ty base : Ty} {pointee : LayoutM Representation}
    (hb : ty.indirectBase = some base)
    (hp : ty.neededRecord? = base.neededRecord? →
      pointee.EndsUnless r (AwaitsNeeded x base) IsTypeError) :
    (indirection x ty base pointee).EndsUnless r (AwaitsNeeded x ty) IsTypeError := by
  rw [indirection_eq]
  split
  · rename_i hr
    rw [map_eq_pure_bind]
    exact (resolveHandle_ends hr).bind fun _ _ _ => .pure _
  · rename_i hr
    split
    · exact .throw (.inr rfl)
    · rename_i hi
      rw [map_eq_pure_bind]
      have hneeded := neededRecord?_of_direct hb (by simpa using hr) (by simpa using hi)
      refine .bind ((hp hneeded).mono (fun b hb => ?_) fun _ he => he) fun _ _ _ => .pure _
      rwa [AwaitsNeeded, hneeded]

/-- A type has a representation or is refused, unless it needs an entangled record. -/
theorem representWith_ends (hsl : SlotsEnd x active I slots) {ty : Ty} (hr : I r)
    (hI : ∀ r root, I r → ty.neededRecord? = some root →
      I (r.registerStruct (x.complete root)).2 ∧
        r.Grows (r.registerStruct (x.complete root)).2)
    (hactive : ∀ root, ty.neededRecord? = some root → UnderWay x r active (x.complete root)) :
    (representWith x slots ty).EndsUnless r (AwaitsNeeded x ty) IsTypeError := by
  induction ty using Ty.induction with
  | integer width =>
    simp only [representWith, integerOfWidth]
    split
    · exact .pure _
    · split
      · exact .pure _
      · exact .throw (.inr rfl)
  | real width =>
    simp only [representWith, realOfWidth]
    split
    · exact .pure _
    · exact .throw (.inr rfl)
  | boolean => exact .pure _
  | record name fields =>
    refine .bind (resolve_ends rfl) fun id r₁ hres => ?_
    obtain ⟨-, hreg⟩ := resolve_ran hres
    obtain ⟨s, hs, hrecord⟩ := Registry.struct?_of_structOf? hreg
    obtain ⟨hr₁, hg⟩ : I r₁ ∧ r.Grows r₁ := by
      simp only [resolve, Build.ran_bind, Build.ran_step, Build.ran_ofExcept] at hres
      obtain ⟨record, r₂, hc, _, r₃, ⟨-, rfl⟩, -, rfl⟩ := hres
      obtain ⟨-, rfl, rfl⟩ := completeRecord_ran hc
      exact hI _ _ hr rfl
    have hslots := hsl hr₁ hs (hrecord ▸ (hactive _ rfl).mono hg)
    refine .bind (hslots.mono (fun b hb => ⟨_, rfl, hrecord ▸ hb⟩) fun _ he => he)
      fun _ _ _ => .pure _
  | array base length ih =>
    exact .bind (ih hI hactive) fun _ _ _ => .bind (.step _) fun _ _ _ => .pure _
  | pointer base ih => exact indirection_ends rfl fun h => ih (h ▸ hI) (h ▸ hactive)
  | reference base ih => exact indirection_ends rfl fun h => ih (h ▸ hI) (h ▸ hactive)

end

/-! ### Layouts -/

/-- The registry is sound, and its records are among those of a list. -/
def Expected (x : UnitIndex) (A : Flo.Ty × Nat → Prop) (L : List Ty) (r : Registry) : Prop :=
  r.SoundUpTo x (fun _ => True) A ∧ r.Within L

theorem Expected.registerStruct {root : Ty} (h : Expected x A L r)
    (hroot : root.isRecord) (hmem : x.complete root ∈ L) :
    Expected x A L (r.registerStruct (x.complete root)).2 ∧
      r.Grows (r.registerStruct (x.complete root)).2 := by
  have he : EvolvedUpTo x (fun _ => True) A [] r (r.registerStruct (x.complete root)).2 :=
    registerStruct_evolves trivial (by rwa [UnitIndex.isRecord_complete])
      (UnitIndex.complete_complete root) h.1
  exact ⟨⟨he.sound, registerStruct_stays hmem h.2⟩, he.grows⟩

/-- The record that a type needs is written in it. -/
theorem mem_records_of_neededRecord? {ty root : Ty} (h : ty.neededRecord? = some root) :
    root.isRecord ∧ root ∈ ty.records := by
  induction ty using Ty.induction with
  | record name fields =>
    obtain rfl := Option.some.inj h
    exact ⟨rfl, Ty.mem_records_self rfl⟩
  | array base length ih => exact ih h
  | pointer base ih | reference base ih =>
    rw [Ty.neededRecord?] at h
    split at h
    · cases h
    · exact ih h
  | integer | real | boolean => cases h

section

variable {slots : Nat → LayoutM (List Slot)}

/-- The fields of a record are placed or refused, unless the record needs an entangled one. -/
theorem placeFields_ends (hsl : SlotsEnd x active (Expected x A L) slots)
    (hsupplies : Supplies x (fun _ => True) A active slots)
    (hstays : ∀ id, (slots id).Keeps (Stays L)) {record : Ty} {fields : List Field}
    (hfields : ∀ f ∈ fields, f ∈ record.fields ∧ Supply.Has x L f.ty) {first : Nat}
    (hr : Expected x A L r) (hactive : ∀ next, x.Needs record next → UnderWay x r active next) :
    (placeFields (representWith x slots) first fields).EndsUnless r (AwaitsItself x record)
      IsTypeError := by
  induction fields generalizing first r with
  | nil => exact .pure _
  | cons f rest ih =>
    obtain ⟨hf, hsupply⟩ := hfields f (by simp)
    have hneeds : ∀ root, f.ty.neededRecord? = some root → x.Needs record (x.complete root) :=
      fun root hroot => ⟨f, hf, root, hroot, rfl⟩
    have hends : (representWith x slots f.ty).EndsUnless r (AwaitsItself x record) IsTypeError := by
      refine (representWith_ends hsl hr (fun r root hr hroot => ?_) fun root hroot =>
        hactive _ (hneeds root hroot)).mono (fun b hb => ?_) fun _ he => he
      · obtain ⟨hrec, hmem⟩ := mem_records_of_neededRecord? hroot
        exact hr.registerStruct hrec (hsupply root hmem)
      · obtain ⟨root, hroot, hb⟩ := hb
        exact hb.of_needs (hneeds root hroot)
    refine hends.bind fun rep r₁ hrep => ?_
    have he := (representWith_keeps (.univ x) hsupplies trivial).ran hrep hr.1
    have hr₁ : Expected x A L r₁ :=
      ⟨he.sound, (representWith_stays hstays hsupply).ran hrep hr.2⟩
    exact .bind (ih (fun g hg => hfields g (by simp [hg])) hr₁ fun next hnext =>
      (hactive next hnext).mono he.grows) fun _ _ _ => .pure _

/-- A layout is published or refused, unless the record needs an entangled one. -/
theorem layOutWith_ends {id : Nat} (hsl : SlotsEnd x (id :: active) (Expected x A L) slots)
    (hsupplies : Supplies x (fun _ => True) A (id :: active) slots)
    (hstays : ∀ id, (slots id).Keeps (Stays L)) {s : RecordStruct} (hr : Expected x A L r)
    (hs : r.struct? id = some s) (hpending : s.slots = none)
    (hfields : ∀ f ∈ s.record.fields, Supply.Has x L f.ty)
    (hactive : x.checkContained s.record = .ok () →
      ∀ next, x.Needs s.record next → UnderWay x r (id :: active) next) :
    (layOutWith x slots id s.record).EndsUnless r (AwaitsItself x s.record) IsTypeError := by
  refine .bind (.ofExcept fun e he => isTypeError_of_checkDefined he) fun _ r₁ hran => ?_
  obtain ⟨hd, rfl⟩ := Build.ran_ofExcept.1 hran
  refine .bind (placeFields_ends hsl hsupplies hstays (fun f hf => ⟨hf, hfields f hf⟩) hr
    (hactive (checkDefined_eq_ok hd).2.2)) fun placed r₂ hplaced => ?_
  -- The struct is still registered when its layout is published.
  obtain ⟨-, -, s', hs', -⟩ := placed_laidOut (.univ x) hsupplies hr.1 hs hpending hd hplaced
  refine .bind (.bind .get fun t r₃ hget => ?_) fun _ _ _ => .pure _
  obtain ⟨rfl, rfl⟩ := Build.ran_get.1 hget
  exact .bind (.present (by rw [hs']; rfl)) fun _ _ _ => .step _

end

theorem knownSlots_ends {id : Nat} {s : RecordStruct} {compute : Ty → LayoutM (List Slot)}
    {B : Breakdown → Prop} (hs : r.struct? id = some s)
    (h : s.slots = none → (compute s.record).EndsUnless r B IsTypeError) :
    (knownSlots id compute).EndsUnless r B IsTypeError := by
  refine .bind .get fun t r₁ hget => ?_
  obtain ⟨rfl, rfl⟩ := Build.ran_get.1 hget
  simp only [hs]
  cases hsl : s.slots with
  | some slots => exact .pure _
  | none => exact h hsl

/-- The layout of a record that is already under way waits for itself. -/
theorem UnderWay.awaitsItself {id : Nat} {s : RecordStruct} (h : UnderWay x r active s.record)
    (hr : r.SoundUpTo x (fun _ => True) A) (hs : r.struct? id = some s) (hid : id ∈ active) :
    AwaitsItself x s.record (.unending s.record) := by
  obtain ⟨t, ht, hchecked, hneeds⟩ := h.waits id hid
  obtain rfl := Option.some.inj (hs.symm.trans ht)
  obtain ⟨hrec, hcomplete, -⟩ := hr.record s (Registry.mem_of_struct? hs)
  exact ⟨_, .refl, .of_needs_self hchecked hrec hcomplete hneeds, rfl⟩

/-- Layouts are computed or refused, except for those of records that need entangled ones, as long
as the fuel covers the records that are not under way. -/
theorem layOut_ends (hL : Supply x L) {fuel : Nat} {active : List Nat}
    (hfuel : L.length < fuel + active.length) :
    SlotsEnd x active (Expected x A L) (layOut x fuel active) := by
  induction fuel generalizing active with
  | zero =>
    intro id r s hr _ hactive
    have hlength := hr.1.length_structs_le hr.2
    have := hactive.length_le
    omega
  | succ fuel ih =>
    intro id r s hr hs hactive
    refine knownSlots_ends hs fun hpending => ?_
    split
    · rename_i hid
      exact .unending (hactive.awaitsItself hr.1 hs hid)
    · rename_i hid
      have hmem : s.record ∈ L := hr.2 (List.mem_map_of_mem (Registry.mem_of_struct? hs))
      refine layOutWith_ends (ih (by simp; omega)) (layOut_supplies (.univ x) fuel _)
        (layOut_stays hL fuel _) hr hs hpending (fun f hf => hL.has_of_field hmem hf)
        fun hchecked next hnext => hactive.cons hs rfl hid hchecked hnext

/-! ### Results -/

/-- The fields of a struct are found out or refused, unless its record needs an entangled one. -/
theorem slotsOf_ends : SlotsEnd x [] (Registry.SoundUpTo x (fun _ => True) A) (slotsOf x) := by
  intro id r s hr hs hactive
  refine .bind .get fun t r₁ hget => ?_
  obtain ⟨rfl, rfl⟩ := Build.ran_get.1 hget
  have hlength := length_writtenRecords x r₁
  exact layOut_ends (supply_writtenRecords x r₁) (by simp; omega)
    ⟨hr, within_writtenRecords hr⟩ hs hactive

/-- A type is represented or refused, unless it needs an entangled record. -/
theorem represent_ends {ty : Ty} (hr : r.SoundUpTo x (fun _ => True) A) :
    (represent x ty).EndsUnless r (AwaitsNeeded x ty) IsTypeError := by
  refine representWith_ends slotsOf_ends hr (fun r root hr hroot => ?_) fun _ _ => .nil x r _
  have he : EvolvedUpTo x (fun _ => True) A [] r (r.registerStruct (x.complete root)).2 :=
    registerStruct_evolves trivial
      (by rw [UnitIndex.isRecord_complete]; exact (mem_records_of_neededRecord? hroot).1)
      (UnitIndex.complete_complete root) hr
  exact ⟨he.sound, he.grows⟩

/-- Some layout waits for itself. -/
def SomeAwaitsItself (x : UnitIndex) (b : Breakdown) : Prop :=
  ∃ record, x.Entangled record ∧ b = .unending record

theorem AwaitsItself.some {record : Ty} {b : Breakdown} (h : AwaitsItself x record b) :
    SomeAwaitsItself x b := by
  obtain ⟨other, -, h⟩ := h
  exact ⟨other, h⟩

/-- Reading the fields of a struct has an end for every id, also for one that is not registered. -/
theorem slotsOf_endsUnless {id : Nat} (hr : r.SoundUpTo x (fun _ => True) A) :
    (slotsOf x id).EndsUnless r (SomeAwaitsItself x) IsTypeError := by
  cases hs : r.struct? id with
  | some s => exact (slotsOf_ends hr hs (.nil x r _)).mono (fun _ hb => hb.some) fun _ he => he
  | none =>
    refine .bind .get fun t r₁ hget => ?_
    obtain ⟨rfl, rfl⟩ := Build.ran_get.1 hget
    have hknown : ∀ compute, (knownSlots id compute).EndsUnless r₁ (SomeAwaitsItself x)
        IsTypeError := by
      intro compute
      refine .bind .get fun t r₂ hget => ?_
      obtain ⟨rfl, rfl⟩ := Build.ran_get.1 hget
      simp only [hs]
      exact .pure _
    cases fuelBound x r₁ <;> exact hknown _

theorem finalizeFrom_ends {E : Error → Prop} {fuel id : Nat}
    (hr : r.SoundUpTo x (fun _ => True) A) :
    (finalizeFrom x fuel id).EndsUnless r (SomeAwaitsItself x) E := by
  induction fuel generalizing id r with
  | zero => exact .pure _
  | succ fuel ih =>
    refine .bind .get fun t r₁ hget => ?_
    obtain ⟨rfl, rfl⟩ := Build.ran_get.1 hget
    cases hs : r₁.struct? id with
    | none => exact .pure _
    | some s =>
      simp only
      split
      · exact ih hr
      · have hends := slotsOf_ends hr hs (.nil x r₁ _)
        refine .bind (.attempt (hends.mono (fun _ hb => hb.some) fun _ he => he)) fun res r₂ h => ?_
        exact ih (((slotsOf_keeps (.univ x) id).attempt).ran h hr).sound

/-- Everything is laid out in the end that can be, unless a record is entangled. -/
theorem finalize_ends {E : Error → Prop} (hr : r.SoundUpTo x (fun _ => True) A) :
    (finalize x).EndsUnless r (SomeAwaitsItself x) E := by
  refine .bind .get fun t r₁ hget => ?_
  obtain ⟨rfl, rfl⟩ := Build.ran_get.1 hget
  exact finalizeFrom_ends hr

end GimpleLowering.Layout

import GimpleLowering.Proofs.Gimple.Occurrence
import GimpleLowering.Proofs.Layout.Refusal
import Mathlib.Data.List.Perm.Subperm

/-!
# Types that are complete

In the end everything that is registered is laid out, and what is registered on the way as well.
The records that can be registered are written in those that are registered already or in the
definitions of the unit, which bounds their number: the completion does not stop before it has been
through all of them. A struct that has no layout then is opaque, or its layout is refused.

## Main definitions

* `Gimple.Ty.records` — the records that are written in a type
* `Layout.Supply` — records with everything that can be registered because of them
* `Layout.RecordStruct.Settled` — a struct is laid out if it can be

## Main results

* `Layout.finalize_settled` — everything is settled in the end
-/

namespace GimpleLowering

open Gimple

/-! ### Records in types -/

namespace Gimple.Ty

mutual

/-- The record types written in a type, itself included. -/
def records : Ty → List Ty
  | record name fields => record name fields :: fieldRecords fields
  | pointer base => base.records
  | reference base => base.records
  | array base _ => base.records
  | _ => []
termination_by structural ty => ty

/-- The record types written in the types of fields. -/
def fieldRecords : List Field → List Ty
  | [] => []
  | ⟨_, ty⟩ :: rest => ty.records ++ fieldRecords rest
termination_by structural fs => fs

end

mutual

theorem length_records : ∀ ty : Ty, ty.records.length = ty.recordCount
  | .record _ fields => by
    rw [records, recordCount, List.length_cons, length_fieldRecords fields, Nat.add_comm]
  | .pointer base | .reference base | .array base _ => by
    rw [records, recordCount, length_records base]
  | .integer _ | .real _ | .boolean => rfl

theorem length_fieldRecords : ∀ fields : List Field,
    (fieldRecords fields).length = recordCounts fields
  | [] => rfl
  | ⟨_, ty⟩ :: rest => by
    rw [fieldRecords, recordCounts, List.length_append, length_records ty,
      length_fieldRecords rest]

end

theorem length_flatMap_records (tys : List Ty) : (tys.flatMap records).length = recordTotal tys := by
  induction tys with
  | nil => rfl
  | cons ty rest ih =>
    rw [List.flatMap_cons, List.length_append, length_records, ih, recordTotal]

theorem records_field {fields : List Field} {f : Field} (hf : f ∈ fields) :
    f.ty.records ⊆ fieldRecords fields := by
  induction fields with
  | nil => cases hf
  | cons g rest ih =>
    obtain ⟨name, ty⟩ := g
    rw [fieldRecords]
    rcases List.mem_cons.1 hf with rfl | hf
    · exact List.subset_append_left _ _
    · exact List.Subset.trans (ih hf) (List.subset_append_right _ _)

theorem mem_fieldRecords {fields : List Field} {record : Ty} (h : record ∈ fieldRecords fields) :
    ∃ f ∈ fields, record ∈ f.ty.records := by
  induction fields with
  | nil => cases h
  | cons g rest ih =>
    obtain ⟨name, ty⟩ := g
    rw [fieldRecords] at h
    rcases List.mem_append.1 h with h | h
    · exact ⟨_, List.mem_cons_self, h⟩
    · obtain ⟨f, hf, h⟩ := ih h
      exact ⟨f, List.mem_cons_of_mem _ hf, h⟩

theorem records_part {ty part : Ty} (h : ty.HasPart part) : part.records ⊆ ty.records := by
  cases h with
  | pointer | reference | array => exact fun _ h => h
  | field mem => exact fun record h => List.mem_cons_of_mem _ (records_field mem h)

theorem records_trans {ty record : Ty} (h : record ∈ ty.records) : record.records ⊆ ty.records := by
  induction ty using Ty.induction with
  | integer | real | boolean => simp [records] at h
  | pointer base ih | reference base ih | array base length ih => exact ih h
  | record name fields ih =>
    rcases List.mem_cons.1 h with rfl | h
    · exact fun _ h => h
    · obtain ⟨f, hf, h⟩ := mem_fieldRecords h
      exact List.Subset.trans (ih f hf h) (records_part (.field hf))

theorem mem_records_self {ty : Ty} (h : ty.isRecord) : ty ∈ ty.records := by
  cases ty <;> simp [isRecord] at h
  exact List.mem_cons_self

end Gimple.Ty

namespace Layout

variable {x : UnitIndex} {L : List Ty} {r r' : Registry}

/-! ### Records that can be registered -/

/-- The list has all records that can be registered because of those in it. -/
structure Supply (x : UnitIndex) (L : List Ty) : Prop where
  written : ∀ ty ∈ L, ty.records ⊆ L
  definition : ∀ d ∈ x.records, d.ty ∈ L

/-- The records of the type are supplied, once they are complete. -/
def Supply.Has (x : UnitIndex) (L : List Ty) (ty : Ty) : Prop :=
  ∀ record ∈ ty.records, x.complete record ∈ L

theorem Supply.Has.part {ty part : Ty} (h : Supply.Has x L ty) (hp : ty.HasPart part) :
    Supply.Has x L part :=
  fun record hr => h record (Ty.records_part hp hr)

theorem Supply.complete_mem (h : Supply x L) {record : Ty} (hr : record ∈ L) :
    x.complete record ∈ L := by
  unfold UnitIndex.complete
  split
  · rename_i name
    split
    · exact hr
    · cases hd : x.record? name with
      | none => exact hr
      | some d => exact h.definition d (List.mem_of_find?_eq_some hd)
  · exact hr

theorem Supply.has_of_mem (h : Supply x L) {ty : Ty} (hty : ty ∈ L) : Supply.Has x L ty :=
  fun _ hr => h.complete_mem (h.written ty hty hr)

theorem Supply.has_of_field (h : Supply x L) {record : Ty} (hr : record ∈ L) {f : Field}
    (hf : f ∈ record.fields) : Supply.Has x L f.ty := by
  have hpart : record.HasPart f.ty := by
    cases record <;> simp [Ty.fields, Ty.recordFields] at hf
    exact .field hf
  exact (h.has_of_mem hr).part hpart

/-- The records of all structs are in the list. -/
def Registry.Within (L : List Ty) (r : Registry) : Prop := r.structs.map RecordStruct.record ⊆ L

/-- If the records of all structs were in the list, they still are. -/
def Stays (L : List Ty) (r r' : Registry) : Prop := r.Within L → r'.Within L

instance : Std.Refl (Stays L) := ⟨fun _ h => h⟩

instance : IsTrans Registry (Stays L) := ⟨fun _ _ _ h h' hr => h' (h hr)⟩

theorem registerStruct_stays {record : Ty} (h : record ∈ L) :
    Stays L r (r.registerStruct record).2 := by
  intro hr
  unfold Registry.registerStruct
  cases r.structOf? record with
  | some id => exact hr
  | none =>
    rw [Registry.Within, List.map_append]
    exact List.append_subset.2 ⟨hr, by simpa using h⟩

theorem publish_stays (id : Nat) (slots : List Slot) : Stays L r (r.publish id slots) := by
  intro hr
  rw [Registry.Within, r.records_publish]
  exact hr

theorem publish_keeps (id : Nat) (slots : List Slot) : (publish id slots).Keeps (Stays L) :=
  Build.Keeps.get.bind fun _ => (Build.Keeps.present id _).bind fun _ =>
    .step fun _ => publish_stays _ _

theorem registerArray_stays (memberType : Flo.Ty) (length : Nat) :
    Stays L r (r.registerArray memberType length).2 := by
  intro hr
  unfold Registry.registerArray
  split <;> exact hr

theorem completeRecord_bind_stays {α : Type} {ty : Ty} (h : Supply.Has x L ty)
    {f : Ty → LayoutM α} (hf : ∀ record ∈ L, (f record).Keeps (Stays L)) :
    (completeRecord x ty >>= f).Keeps (Stays L) := by
  unfold completeRecord
  refine Build.Keeps.bind_of_ran ?_ fun r record r' hc res r'' h' => ?_
  · split
    · exact .pure _
    · exact .throw _
  · obtain ⟨hr, rfl, rfl⟩ := completeRecord_ran hc
    exact hf _ (h ty (Ty.mem_records_self hr)) _ res r'' h'

theorem resolveHandle_stays {ty : Ty} (h : Supply.Has x L ty) :
    (resolveHandle x ty).Keeps (Stays L) :=
  completeRecord_bind_stays h fun _ hr => .step fun _ => registerStruct_stays hr

theorem resolve_stays {ty : Ty} (h : Supply.Has x L ty) : (resolve x ty).Keeps (Stays L) :=
  completeRecord_bind_stays h fun _ hr =>
    Build.Keeps.bind (.ofExcept _) fun _ => .step fun _ => registerStruct_stays hr

section

variable {slots : Nat → LayoutM (List Slot)}

theorem representWith_stays (hsl : ∀ id, (slots id).Keeps (Stays L)) {ty : Ty}
    (h : Supply.Has x L ty) : (representWith x slots ty).Keeps (Stays L) := by
  induction ty using Ty.induction with
  | integer width =>
    simp only [representWith, integerOfWidth]
    split
    · exact .pure _
    · split
      · exact .pure _
      · exact .throw _
  | real width =>
    simp only [representWith, realOfWidth]
    split
    · exact .pure _
    · exact .throw _
  | boolean => exact .pure _
  | record name fields =>
    exact (resolve_stays h).bind fun id => (hsl id).bind fun _ => .pure _
  | array base length ih =>
    refine (ih (h.part .array)).bind fun member => ?_
    exact Build.Keeps.bind (.step fun _ => registerArray_stays _ _) fun _ => .pure _
  | pointer base ih =>
    exact indirection_keeps (resolveHandle_stays (h.part .pointer)) (ih (h.part .pointer))
  | reference base ih =>
    exact indirection_keeps (resolveHandle_stays (h.part .reference)) (ih (h.part .reference))

end

theorem layOut_stays (hL : Supply x L) (fuel : Nat) (active : List Nat) (id : Nat) :
    (layOut x fuel active id).Keeps (Stays L) := by
  induction fuel generalizing active id with
  | zero => exact knownSlots_keeps fun r s _ _ => Build.Keeps.unending s.record r
  | succ fuel ih =>
    refine knownSlots_keeps fun r s hs _ res r' hrun hr => ?_
    have hrecord : s.record ∈ L := hr (List.mem_map_of_mem (Registry.mem_of_struct? hs))
    have hfields : ∀ f ∈ s.record.fields, Supply.Has x L f.ty := fun f hf =>
      hL.has_of_field hrecord hf
    have hkeeps : (layOutWith x (layOut x fuel (id :: active)) id s.record).Keeps (Stays L) := by
      refine Build.Keeps.bind (.ofExcept _) fun _ => ?_
      refine (placeFields_keeps (fun f hf => representWith_stays (ih _) (hfields f hf)) 0).bind
        fun placed => ?_
      exact (publish_keeps id placed).bind fun _ => .pure _
    split at hrun
    · exact Build.Keeps.unending (R := Stays L) _ _ _ _ hrun hr
    · exact hkeeps _ _ _ hrun hr

theorem slotsOf_stays (hL : Supply x L) (id : Nat) : (slotsOf x id).Keeps (Stays L) :=
  Build.Keeps.get.bind fun _ => layOut_stays hL _ _ _

/-! ### The number of structs -/

/-- The records that are written in what is registered and in the definitions. -/
def writtenRecords (x : UnitIndex) (r : Registry) : List Ty :=
  (r.structs.map RecordStruct.record ++ x.records.map RecordDefinition.ty).flatMap Ty.records

theorem length_writtenRecords (x : UnitIndex) (r : Registry) :
    (writtenRecords x r).length + 1 = fuelBound x r := by
  rw [writtenRecords, List.flatMap_append, List.length_append, Ty.length_flatMap_records,
    Ty.length_flatMap_records, fuelBound, UnitIndex.recordBound]
  simp only [Ty.recordCount]
  omega

theorem mem_writtenRecords {record : Ty} :
    record ∈ writtenRecords x r ↔
      ∃ ty, (ty ∈ r.structs.map RecordStruct.record ∨ ty ∈ x.records.map RecordDefinition.ty) ∧
        record ∈ ty.records := by
  simp only [writtenRecords, List.mem_flatMap, List.mem_append]

theorem supply_writtenRecords (x : UnitIndex) (r : Registry) : Supply x (writtenRecords x r) where
  written := by
    intro record hr part hp
    obtain ⟨ty, hty, hr⟩ := mem_writtenRecords.1 hr
    exact mem_writtenRecords.2 ⟨ty, hty, Ty.records_trans hr hp⟩
  definition d hd :=
    mem_writtenRecords.2 ⟨d.ty, .inr (List.mem_map_of_mem hd), Ty.mem_records_self rfl⟩

theorem within_writtenRecords {S : Ty → Prop} {A : Flo.Ty × Nat → Prop} (hs : r.SoundUpTo x S A) :
    r.Within (writtenRecords x r) := by
  intro record hr
  obtain ⟨s, hmem, rfl⟩ := List.mem_map.1 hr
  exact mem_writtenRecords.2 ⟨_, .inl hr, Ty.mem_records_self (hs.record s hmem).1⟩

/-- Records are registered once, so there are no more structs than records. -/
theorem Registry.SoundUpTo.length_structs_le {S : Ty → Prop} {A : Flo.Ty × Nat → Prop}
    (hs : r.SoundUpTo x S A) (hL : r.Within L) : r.structs.length ≤ L.length := by
  have h := (List.Nodup.subperm hs.records_nodup hL).length_le
  rwa [List.length_map] at h

/-! ### Completion -/

/-- The struct is laid out if it can be. -/
def RecordStruct.Settled (x : UnitIndex) (s : RecordStruct) : Prop :=
  s.isLaidOut ∨ s.isOpaque ∨ ∃ e, LayoutJudged x s.record (.error e)

/-- All structs below an id are settled. -/
def Registry.SettledBelow (x : UnitIndex) (r : Registry) (id : Nat) : Prop :=
  ∀ i < id, ∃ s, r.struct? (i + 1) = some s ∧ s.Settled x

theorem Registry.SettledBelow.mono {id : Nat} (h : r.SettledBelow x id) (hg : r.Grows r') :
    r'.SettledBelow x id := by
  intro i hi
  obtain ⟨s, hs, hsettled⟩ := h i hi
  obtain ⟨s', hs', hrecord, hslots⟩ := hg.structs hs
  refine ⟨s', hs', ?_⟩
  rcases hsettled with hl | ho | ⟨e, he⟩
  · obtain ⟨slots, hsl⟩ := Option.isSome_iff_exists.1 hl
    exact .inl (Option.isSome_iff_exists.2 ⟨slots, hslots slots hsl⟩)
  · exact .inr (.inl (by rwa [RecordStruct.isOpaque, hrecord]))
  · exact .inr (.inr ⟨e, hrecord ▸ he⟩)

theorem Registry.SettledBelow.succ {id : Nat} {s : RecordStruct} (h : r.SettledBelow x id)
    (hs : r.struct? (id + 1) = some s) (hsettled : s.Settled x) : r.SettledBelow x (id + 1) := by
  intro i hi
  rcases Nat.lt_succ_iff_lt_or_eq.1 hi with hi | rfl
  · exact h i hi
  · exact ⟨s, hs, hsettled⟩

/-- A struct is settled by an attempt to lay it out. -/
theorem slotsOf_settled {S : Ty → Prop} (hx : x.Closed S) {id : Nat} {s : RecordStruct}
    (hr : r.Sound x S) (hs : r.struct? id = some s) {res : Except Error (List Slot)}
    (h : (slotsOf x id).runOn r = .ok (res, r')) :
    ∃ s', r'.struct? id = some s' ∧ s'.Settled x := by
  obtain ⟨s', hs', hrecord⟩ := ((slotsOf_keeps hx id) _ _ _ h hr).grows.struct? hs
  refine ⟨s', hs', ?_⟩
  cases res with
  | ok slots =>
    obtain ⟨t, ht, hsl⟩ := (slotsOf_supplies hx).knows hr h hs
    obtain rfl := Option.some.inj (hs'.symm.trans ht)
    exact .inl (Option.isSome_iff_exists.2 ⟨slots, hsl⟩)
  | error e => exact .inr (.inr ⟨e, hrecord ▸ slotsOf_refuses hx hr hs h⟩)

/-- The completion goes on until everything is settled, as long as its fuel covers the records that
can be registered. -/
theorem finalizeFrom_settled {S : Ty → Prop} (hx : x.Closed S) (hL : Supply x L) {fuel id : Nat}
    (hfuel : L.length < id + 1 + fuel) (hr : r.Sound x S) (hw : r.Within L)
    (hbelow : r.SettledBelow x id) (h : (finalizeFrom x fuel (id + 1)).Ran r () r') :
    r'.SettledBelow x r'.structs.length := by
  induction fuel generalizing id r with
  | zero =>
    obtain ⟨-, rfl⟩ := Build.ran_pure.1 h
    have hlength := hr.length_structs_le hw
    exact fun i hi => hbelow i (by omega)
  | succ fuel ih =>
    simp only [finalizeFrom, Build.ran_bind, Build.ran_get] at h
    obtain ⟨t, r₁, ⟨ht, hr₁⟩, h⟩ := h
    subst ht hr₁
    cases hs : r₁.struct? (id + 1) with
    | none =>
      simp only [hs, Build.ran_pure, true_and] at h
      subst h
      rw [Registry.struct?_succ, List.getElem?_eq_none_iff] at hs
      exact fun i hi => hbelow i (by omega)
    | some s =>
      simp only [hs] at h
      split at h
      · rename_i hforward
        exact ih (by omega) hr hw (hbelow.succ hs (.inr (.inl hforward))) h
      · simp only [Build.ran_bind, Build.ran_attempt] at h
        obtain ⟨res, r₁, hslots, h⟩ := h
        have he := slotsOf_keeps hx _ _ _ _ hslots hr
        obtain ⟨s', hs', hsettled⟩ := slotsOf_settled hx hr hs hslots
        exact ih (by omega) he.sound (slotsOf_stays hL _ _ _ _ hslots hw)
          ((hbelow.mono he.grows).succ hs' hsettled) h

theorem finalizeFrom_not_fails {fuel id : Nat} {e : Error} :
    ¬ (finalizeFrom x fuel id).Fails r e r' := by
  induction fuel generalizing id r with
  | zero => simp [finalizeFrom]
  | succ fuel ih =>
    simp only [finalizeFrom, Build.fails_bind, Build.fails_get, Build.ran_get, false_or]
    rintro ⟨_, _, ⟨rfl, rfl⟩, h⟩
    split at h
    · exact absurd h (by simp)
    · split at h
      · exact ih h
      · simp only [Build.fails_bind, Build.fails_attempt, false_or] at h
        obtain ⟨_, _, -, h⟩ := h
        exact ih h

/-- In the end every struct that can be laid out is. -/
theorem finalize_settled {S : Ty → Prop} (hx : x.Closed S) (hr : r.Sound x S)
    {res : Except Error Unit} (h : (finalize x).runOn r = .ok (res, r')) {s : RecordStruct}
    (hs : s ∈ r'.structs) : s.Settled x := by
  have hran : (finalizeFrom x (fuelBound x r) 1).Ran r () r' := by
    cases res with
    | ok u => exact h
    | error e => exact absurd h finalizeFrom_not_fails
  have hlength := length_writtenRecords x r
  have hbelow : r.SettledBelow x 0 := fun i hi => absurd hi (Nat.not_lt_zero i)
  have hsettled := finalizeFrom_settled hx (supply_writtenRecords x r) (by omega) hr
    (within_writtenRecords hr) hbelow hran
  obtain ⟨i, hi, rfl⟩ := List.getElem_of_mem hs
  obtain ⟨t, ht, hsettled⟩ := hsettled i hi
  rw [Registry.struct?_succ, List.getElem?_eq_getElem hi, Option.some.injEq] at ht
  exact ht ▸ hsettled

end Layout

end GimpleLowering

import GimpleLowering.Proofs.Layout.Agreement
import Mathlib.Data.List.Forall2
import Mathlib.Data.List.Nodup

/-!
# The tables of a registry

A registry is looked up for the ids of records and array types, and it has the tables that objects
share. What is new is entered in a table under the next id, and a layout that is published replaces
the entry of its struct. So the ids and the tables say the same: that is what `Registry.Coherent`
says, of registries that are sound up to any foreign array types.

## Main definitions

* `Layout.Registry.arrayOf?` — the id of an array type
* `Layout.Registry.Describes` — a struct type is that of a record
* `Layout.Registry.Coherent` — the ids and the tables agree
* `Layout.Registry.Persists` — ids and entries stay

## Main results

* `Layout.Registry.tables_registerStruct`, `tables_registerArray`, `tables_publish` — what happens
  to the tables
* `Layout.Represents.ran` — what is represented already is found, and nothing is registered
* `Layout.Registry.SoundUpTo.coherent` — sound registries are coherent
-/

namespace GimpleLowering.Layout

open Gimple

variable {x : UnitIndex} {S : Ty → Prop} {A : Flo.Ty × Nat → Prop} {r r' : Registry}

/-! ### Entries -/

namespace Registry

/-- The id of the type of arrays with the given members. -/
def arrayOf? (r : Registry) (member : Flo.Ty) (length : Nat) : Option Nat :=
  (r.arrays.findIdx? fun a => a = (member, length)).map (· + 1)

theorem registerStruct_of_structOf? {record : Ty} {id : Nat} (h : r.structOf? record = some id) :
    r.registerStruct record = (id, r) := by
  simp [registerStruct, h]

theorem registerArray_of_arrayOf? {member : Flo.Ty} {length id : Nat}
    (h : r.arrayOf? member length = some id) : r.registerArray member length = (id, r) := by
  obtain ⟨i, hi, rfl⟩ := Option.map_eq_some_iff.1 h
  simp [registerArray, hi]

theorem get?_structs_succ (r : Registry) (i : Nat) :
    r.tables.structs.get? (i + 1) = r.structs[i]?.map RecordStruct.entry := by
  simp [tables, Flo.Table.get?]

theorem get?_structs_tables {id : Nat} {s : RecordStruct} (h : r.struct? id = some s) :
    r.tables.structs.get? id = some s.entry := by
  cases id with
  | zero => cases h
  | succ i => rw [get?_structs_succ, ← struct?_succ, h, Option.map_some]

theorem get?_arrays_succ (r : Registry) (i : Nat) :
    r.tables.arrays.get? (i + 1) = r.arrays[i]?.map fun a => ⟨a.1, a.2, .usable⟩ := by
  simp [tables, Flo.Table.get?]

theorem get?_arrays_tables {member : Flo.Ty} {length i : Nat}
    (h : r.arrays.findIdx? (fun a => a = (member, length)) = some i) :
    r.tables.arrays.get? (i + 1) = some ⟨member, length, .usable⟩ := by
  obtain ⟨hlt, hp, -⟩ := List.findIdx?_eq_some_iff_getElem.1 h
  rw [get?_arrays_succ, List.getElem?_eq_getElem hlt, of_decide_eq_true hp, Option.map_some]

@[simp] theorem size_structs_tables (r : Registry) : r.tables.structs.size = r.structs.length := by
  simp [tables, Flo.Table.size]

@[simp] theorem size_arrays_tables (r : Registry) : r.tables.arrays.size = r.arrays.length := by
  simp [tables, Flo.Table.size]

/-- A new record gets the id of an entry that is reserved for it. -/
theorem tables_registerStruct {record : Ty} (h : r.structOf? record = none) :
    (r.registerStruct record).1 = (r.tables.structs.reserve .undefined).1 ∧
      (r.registerStruct record).2.tables =
        { r.tables with structs := (r.tables.structs.reserve .undefined).2 } := by
  simp [registerStruct, h, tables, Flo.Table.reserve, Flo.Table.insert, RecordStruct.entry]

/-- A new array type gets the id of its entry. -/
theorem tables_registerArray {member : Flo.Ty} {length : Nat}
    (h : r.arrayOf? member length = none) :
    (r.registerArray member length).1 = (r.tables.arrays.insert ⟨member, length, .usable⟩).1 ∧
      (r.registerArray member length).2.tables =
        { r.tables with arrays := (r.tables.arrays.insert ⟨member, length, .usable⟩).2 } := by
  have hnone : (r.arrays.findIdx? fun a => a = (member, length)) = none := by
    simpa [arrayOf?] using h
  simp [registerArray, hnone, tables, Flo.Table.insert]

/-- A layout that is published replaces the entry of its struct. -/
theorem tables_publish {id : Nat} {s : RecordStruct} (h : r.struct? id = some s)
    (slots : List Slot) :
    r.tables.structs.swap? id (RecordStruct.entry { s with slots := some slots }) =
      some (s.entry, (r.publish id slots).tables.structs) := by
  cases id with
  | zero => cases h
  | succ i =>
    rw [struct?_succ] at h
    obtain ⟨hi, rfl⟩ := List.getElem?_eq_some_iff.1 h
    have hset : (r.structs.map RecordStruct.entry).set i
        (RecordStruct.entry { r.structs[i] with slots := some slots }) =
          (r.publish (i + 1) slots).structs.map RecordStruct.entry := by
      refine List.ext_getElem? fun j => ?_
      simp only [publish, List.getElem?_set, List.getElem?_map, List.getElem?_modify]
      by_cases hj : i = j
      · subst hj
        simp [hi]
      · simp [hj]
    simp [Flo.Table.swap?, tables, hi, ← hset]

end Registry

/-! ### Steadiness -/

theorem resolveHandle_of_structOf? {ty : Ty} {id : Nat} (hr : ty.isRecord)
    (h : r.structOf? (x.complete ty) = some id) : (resolveHandle x ty).Ran r id r := by
  simp only [resolveHandle, completeRecord, hr, if_true, Build.ran_bind, Build.ran_pure,
    Build.ran_step]
  exact ⟨_, _, ⟨rfl, rfl⟩, by simp [Registry.registerStruct_of_structOf? h]⟩

theorem resolve_of_structOf? {ty : Ty} {id : Nat} (hr : ty.isRecord)
    (hc : x.checkContained (x.complete ty) = .ok ())
    (h : r.structOf? (x.complete ty) = some id) : (resolve x ty).Ran r id r := by
  simp only [resolve, completeRecord, hr, if_true, Build.ran_bind, Build.ran_pure,
    Build.ran_ofExcept, Build.ran_step]
  exact ⟨_, _, ⟨rfl, rfl⟩, (), _, ⟨hc, rfl⟩, by simp [Registry.registerStruct_of_structOf? h]⟩

theorem knownSlots_of_knows {id : Nat} {slots : List Slot} (h : r.Knows id slots)
    (compute : Ty → LayoutM (List Slot)) : (knownSlots id compute).Ran r slots r := by
  obtain ⟨s, hs, hslots⟩ := h
  simp only [knownSlots, Build.ran_bind, Build.ran_get]
  exact ⟨r, r, ⟨rfl, rfl⟩, by simp [hs, hslots]⟩

theorem slotsOf_of_knows {id : Nat} {slots : List Slot} (h : r.Knows id slots) :
    (slotsOf x id).Ran r slots r := by
  simp only [slotsOf, Build.ran_bind, Build.ran_get]
  refine ⟨r, r, ⟨rfl, rfl⟩, ?_⟩
  cases fuelBound x r with
  | zero => exact knownSlots_of_knows h _
  | succ fuel => exact knownSlots_of_knows h _

/-- What is represented already is found, and nothing is registered. -/
theorem Represents.ran {ty : Ty} {rep : Representation} (h : Represents x r ty rep)
    (hs : r.SoundUpTo x S A) : (represent x ty).Ran r rep r := by
  unfold represent
  induction h with
  | integer32 | integer64 | real | boolean => rfl
  | @record ty id slots isRecord registered known =>
    have hjudged := (Represents.record isRecord registered known).judged hs
    have hcontained : x.checkContained (x.complete ty) = .ok () := by
      rcases hjudged.of_isRecord isRecord with ⟨e, -, h⟩ | ⟨h, -⟩
      · cases h
      · exact h
    cases ty with
    | record name fields =>
      simp only [representWith, Build.ran_bind, Build.ran_pure]
      exact ⟨id, r, resolve_of_structOf? isRecord hcontained registered, slots, r,
        slotsOf_of_knows known, rfl, rfl⟩
    | _ => cases isRecord
  | @array base length i member memberType registered ih =>
    simp only [representWith, Build.ran_bind, Build.ran_pure, Build.ran_step]
    refine ⟨member, r, ih, i + 1, r, ?_, rfl, rfl⟩
    have harray : r.arrayOf? member.valueType length = some (i + 1) := by
      simp [Registry.arrayOf?, registered]
    simp [Registry.registerArray_of_arrayOf? harray]
  | @recordHandle ty base id indirect isRecord registered =>
    have hran : ∀ pointee,
        (indirection x ty base pointee).Ran r (.recordHandle id ty.isNullable) r := by
      intro pointee
      rw [indirection_eq, if_pos isRecord, map_eq_pure_bind]
      exact Build.ran_bind.2 ⟨id, r, resolveHandle_of_structOf? isRecord registered, rfl⟩
    cases ty with
    | pointer _ | reference _ =>
      obtain rfl := Option.some.inj indirect
      exact hran _
    | _ => cases indirect
  | @cell ty base pointee indirect noRecord direct target ih =>
    have hran : (indirection x ty base (representWith x (slotsOf x) base)).Ran r
        (.cell pointee.valueType ty.isNullable) r := by
      rw [indirection_eq, if_neg (by simp [noRecord]), if_neg (by simp [direct]), map_eq_pure_bind]
      exact Build.ran_bind.2 ⟨pointee, r, ih, rfl⟩
    cases ty with
    | pointer _ | reference _ =>
      obtain rfl := Option.some.inj indirect
      exact hran
    | _ => cases indirect

/-- The runtime type of values is found, and nothing is registered. -/
theorem HasValueType.ran {ty : Ty} {typ : Flo.Ty} (h : HasValueType x r ty typ)
    (hs : r.SoundUpTo x S A) : (valueType x ty).Ran r typ r := by
  obtain ⟨rep, hrep, rfl⟩ := h
  exact Build.ran_bind.2 ⟨rep, r, hrep.ran hs, rfl⟩

/-! ### Coherence -/

/-- The struct type is that of the record: it has its name, and the names and runtime types of its
fields. -/
structure Registry.Describes (x : UnitIndex) (r : Registry) (record : Ty) (s : Flo.StructType) :
    Prop where
  usable : s.poison = .usable
  name : s.name = record.recordName
  names_nodup : s.memberNames.Nodup
  names : s.memberNames = record.fields.map Field.name
  members : List.Forall₂ (fun f typ => (valueType x f.ty).Ran r typ r) record.fields s.members

/-- The ids and the tables agree. -/
structure Registry.Coherent (x : UnitIndex) (r : Registry) : Prop where
  /-- Only completed records have structs. -/
  completed : ∀ {record : Ty} {id : Nat}, r.structOf? record = some id →
    record.isRecord ∧ x.complete record = record
  /-- Different records have different structs. -/
  structs_inj : ∀ {record record' : Ty} {id : Nat}, r.structOf? record = some id →
    r.structOf? record' = some id → record = record'
  /-- The ids of structs are those of their table. -/
  structs_ids : ∀ id, (∃ record, r.structOf? record = some id) ↔
    0 < id ∧ id ≤ r.tables.structs.size
  /-- An array type has an id if and only if it is the entry with this id. -/
  arrays : ∀ member length id, r.arrayOf? member length = some id ↔
    r.tables.arrays.get? id = some ⟨member, length, .usable⟩
  /-- The ids of array types are those of their table. -/
  arrays_ids : ∀ id, (∃ member length, r.arrayOf? member length = some id) ↔
    0 < id ∧ id ≤ r.tables.arrays.size
  /-- A struct is undefined until its fields are laid out, and describes its record from then on. -/
  entry : ∀ {record : Ty} {id : Nat}, r.structOf? record = some id →
    ∃ s, r.struct? id = some s ∧ s.record = record ∧
      (s.slots = none ∧ r.tables.structs.get? id = some (Flo.Entry.poisoned .undefined) ∨
        s.isLaidOut ∧ ∃ e, r.tables.structs.get? id = some e ∧ r.Describes x record e)

theorem LaidOut.forall₂ {record : Ty} {slots : List Slot} (h : LaidOut x r record slots) :
    List.Forall₂ (fun f slot => slot.name = f.name ∧ HasValueType x r f.ty slot.typ) record.fields
      slots := by
  refine List.forall₂_iff_get.2 ⟨h.length_eq.symm, fun i hi hi' => ?_⟩
  obtain ⟨rep, hrep, hslot⟩ := h.slot (List.getElem?_eq_getElem hi)
  obtain ⟨_, hslot⟩ := List.getElem?_eq_some_iff.1 hslot
  simp only [List.get_eq_getElem, hslot, true_and]
  exact ⟨rep, hrep, rfl⟩

theorem LaidOut.describes {record : Ty} {slots : List Slot} (h : LaidOut x r record slots)
    (hs : r.SoundUpTo x S A) : r.Describes x record (RecordStruct.entry ⟨record, some slots⟩) := by
  have hnames : slots.map Slot.name = record.fields.map Field.name :=
    List.forall₂_eq_eq_eq ▸ List.forall₂_map_left_iff.2 (List.forall₂_map_right_iff.2
      (h.forall₂.flip.imp fun _ _ hslot => hslot.1))
  refine ⟨rfl, rfl, ?_, hnames, ?_⟩
  · change (slots.map Slot.name).Nodup
    exact hnames ▸ h.names
  · exact List.forall₂_map_right_iff.2 (h.forall₂.imp fun _ _ hslot => hslot.2.ran hs)

/-- In a list without repetitions, an element is found where it stands. -/
theorem findIdx?_eq_some_iff_of_nodup {α : Type} [DecidableEq α] {l : List α} (h : l.Nodup) {a : α}
    {i : Nat} : (l.findIdx? fun b => b = a) = some i ↔ l[i]? = some a := by
  rw [List.findIdx?_eq_some_iff_getElem, List.getElem?_eq_some_iff]
  simp only [decide_eq_true_eq]
  refine exists_congr fun hi => and_iff_left_of_imp ?_
  rintro rfl j hj heq
  exact Nat.ne_of_lt hj (h.getElem_inj_iff.1 heq)

theorem Registry.SoundUpTo.structOf?_eq_some_iff (hs : r.SoundUpTo x S A) {record : Ty} {i : Nat} :
    r.structOf? record = some (i + 1) ↔ (r.structs[i]?).map RecordStruct.record = some record := by
  have h := findIdx?_eq_some_iff_of_nodup hs.records_nodup (a := record) (i := i)
  rw [List.findIdx?_map, List.getElem?_map] at h
  rw [← h]
  simp [Registry.structOf?, Function.comp_def]

/-- A struct is found by its record. -/
theorem Registry.SoundUpTo.structOf?_of_struct? (hs : r.SoundUpTo x S A) {id : Nat}
    {s : RecordStruct} (h : r.struct? id = some s) : r.structOf? s.record = some id := by
  cases id with
  | zero => cases h
  | succ i =>
    rw [Registry.struct?_succ] at h
    rw [hs.structOf?_eq_some_iff, h, Option.map_some]

theorem Registry.SoundUpTo.arrayOf?_eq_some_iff (hs : r.SoundUpTo x S A) {member : Flo.Ty}
    {length i : Nat} : r.arrayOf? member length = some (i + 1) ↔
      r.arrays[i]? = some (member, length) := by
  rw [← findIdx?_eq_some_iff_of_nodup hs.arrays_nodup]
  simp [Registry.arrayOf?]

/-- The ids and tables of a sound registry agree. -/
theorem Registry.SoundUpTo.coherent (hs : r.SoundUpTo x S A) : r.Coherent x where
  completed h := by
    obtain ⟨s, hs', rfl⟩ := Registry.struct?_of_structOf? h
    obtain ⟨hr, hc, -⟩ := hs.record s (Registry.mem_of_struct? hs')
    exact ⟨hr, hc⟩
  structs_inj h h' := Registry.structOf?_inj h h'
  structs_ids id := by
    rw [Registry.size_structs_tables]
    constructor
    · rintro ⟨record, h⟩
      exact Registry.structOf?_bounds h
    · rintro ⟨hpos, hle⟩
      obtain _ | i := id
      · cases hpos
      exact ⟨r.structs[i].record, hs.structOf?_eq_some_iff.2 (by simp [Nat.lt_of_succ_le hle])⟩
  arrays member length id := by
    cases id with
    | zero => simp [Registry.arrayOf?, Registry.tables, Flo.Table.get?, Flo.Entry.poisoned]
    | succ i =>
      rw [hs.arrayOf?_eq_some_iff, Registry.get?_arrays_succ, Option.map_eq_some_iff]
      constructor
      · exact fun h => ⟨_, h, rfl⟩
      · rintro ⟨⟨_, _⟩, h, heq⟩
        cases heq
        exact h
  arrays_ids id := by
    rw [Registry.size_arrays_tables]
    cases id with
    | zero => simp [Registry.arrayOf?]
    | succ i =>
      simp only [hs.arrayOf?_eq_some_iff, List.getElem?_eq_some_iff]
      constructor
      · rintro ⟨member, length, hi, -⟩
        exact ⟨i.succ_pos, hi⟩
      · rintro ⟨-, hi⟩
        exact ⟨_, _, hi, rfl⟩
  entry h := by
    obtain ⟨s, hstruct, rfl⟩ := Registry.struct?_of_structOf? h
    refine ⟨s, hstruct, rfl, ?_⟩
    rw [Registry.get?_structs_tables hstruct]
    cases hslots : s.slots with
    | none => exact .inl ⟨rfl, by simp [RecordStruct.entry, hslots]⟩
    | some slots =>
      refine .inr ⟨by simp [RecordStruct.isLaidOut, hslots], s.entry, rfl, ?_⟩
      have hentry : s.entry = RecordStruct.entry ⟨s.record, some slots⟩ := by rw [← hslots]
      exact hentry ▸ (hs.laidOut hstruct hslots).describes hs

/-! ### Persistence -/

/-- The ids that the first registry handed out, and the entries that can be used, are in the second
one as well. -/
structure Registry.Persists (r r' : Registry) : Prop where
  struct : ∀ {record : Ty} {id : Nat}, r.structOf? record = some id → r'.structOf? record = some id
  array : ∀ {member : Flo.Ty} {length id : Nat}, r.arrayOf? member length = some id →
    r'.arrayOf? member length = some id
  structEntry : ∀ {id : Nat} {e : Flo.StructType}, r.tables.structs.get? id = some e →
    e.poison = .usable → r'.tables.structs.get? id = some e
  arrayEntry : ∀ {id : Nat} {e : Flo.ArrayType}, r.tables.arrays.get? id = some e →
    e.poison = .usable → r'.tables.arrays.get? id = some e

/-- What is registered persists as the registry grows. -/
theorem Registry.Grows.persists (h : r.Grows r') : r.Persists r' where
  struct hid := h.structOf? hid
  array hid := by
    obtain ⟨i, hi, rfl⟩ := Option.map_eq_some_iff.1 hid
    exact Option.map_eq_some_iff.2 ⟨i, h.arrayOf? hi, rfl⟩
  structEntry {id e} hget husable := by
    cases id with
    | zero =>
      obtain rfl : Flo.Entry.poisoned .nullEntry = e := Option.some.inj hget
      cases husable
    | succ i =>
      rw [Registry.get?_structs_succ, Option.map_eq_some_iff] at hget ⊢
      obtain ⟨s, hs, rfl⟩ := hget
      obtain ⟨s', hs', hrecord, hslots⟩ := h.structs hs
      refine ⟨s', hs', ?_⟩
      cases hl : s.slots with
      | none =>
        simp only [RecordStruct.entry, hl] at husable
        cases husable
      | some slots => simp only [RecordStruct.entry, hl, hslots slots hl, hrecord]
  arrayEntry {id e} hget _ := by
    cases id with
    | zero => exact hget
    | succ i =>
      rw [Registry.get?_arrays_succ, Option.map_eq_some_iff] at hget ⊢
      obtain ⟨a, ha, rfl⟩ := hget
      obtain ⟨rest, hrest⟩ := h.arrays
      refine ⟨a, ?_, rfl⟩
      rw [← hrest, List.getElem?_append_left (List.getElem?_eq_some_iff.1 ha).1, ha]

end GimpleLowering.Layout

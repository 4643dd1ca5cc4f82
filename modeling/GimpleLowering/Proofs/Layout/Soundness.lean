import GimpleLowering.Proofs.Build
import GimpleLowering.Proofs.Layout.Growth
import GimpleLowering.Proofs.Layout.Verdict

/-!
# Sound registries

A registry is sound if what it says is true: every struct is for a completed record, every layout
that is known has the fields of its record with the types that represent them, and every array type
has members that represent some type. Every computation on types keeps it sound, also one that
fails on the way, since functions that cannot be lowered leave their types behind.

An array type may also be asked for by the runtime type of its members, which need not represent
anything. Such array types are foreign, and a registry is sound up to a set of them; nothing else
that it says depends on where its array types came from.

While a layout is computed, other layouts are computed inside. What makes it safe to publish the
first one afterwards is that none of the others can have done so before: a layout that waits for
itself has no end. `EvolvedUpTo` says so of the structs whose layout is under way.

## Main definitions

* `Layout.LaidOut` — the fields of a record with their places and representations
* `Layout.Change`, `Registry.Undergoes` — the changes to a registry that may be made
* `Layout.Registry.SoundUpTo`, `Registry.Sound` — sound registries
* `Layout.EvolvesUpTo`, `Evolves` — what every computation on types does to a sound registry

## Main results

* `Layout.registerStruct_evolves`, `registerArray_evolves` — registration keeps soundness
* `Layout.publish_evolved` — a layout may be published for a struct that has none
-/

namespace GimpleLowering.Layout

open Gimple

variable {x : UnitIndex} {S : Ty → Prop} {A : Flo.Ty × Nat → Prop} {r r' : Registry}
  {active : List Nat}

/-! ### Layouts -/

/-- The slots are the fields of the record in order, with the types that represent them. -/
structure LaidOut (x : UnitIndex) (r : Registry) (record : Ty) (slots : List Slot) : Prop where
  defined : record.fields ≠ []
  names : (record.fields.map Field.name).Nodup
  length_eq : slots.length = record.fields.length
  slot : ∀ {i : Nat} {f : Field}, record.fields[i]? = some f →
    ∃ rep, Represents x r f.ty rep ∧ slots[i]? = some ⟨f.name, f.ty, rep.valueType, i⟩
  judged : LayoutJudged x record (.ok ())

namespace LaidOut

variable {record : Ty} {slots : List Slot}

theorem mono (h : LaidOut x r record slots) (hg : r.Grows r') : LaidOut x r' record slots := by
  refine ⟨h.defined, h.names, h.length_eq, fun hf => ?_, h.judged⟩
  obtain ⟨rep, hrep, hslot⟩ := h.slot hf
  exact ⟨rep, hrep.mono hg, hslot⟩

/-- Every slot stands at its index, for the field at that index. -/
theorem of_mem (h : LaidOut x r record slots) {slot : Slot} (hs : slot ∈ slots) :
    slots[slot.index]? = some slot ∧
      record.fields[slot.index]? = some ⟨slot.name, slot.ty⟩ ∧
      ∃ rep, Represents x r slot.ty rep ∧ slot.typ = rep.valueType := by
  obtain ⟨i, hi, hslot⟩ := List.getElem_of_mem hs
  have hi' : i < record.fields.length := h.length_eq ▸ hi
  obtain ⟨⟨name, ty⟩, hf⟩ : ∃ f, record.fields[i]? = some f := ⟨_, List.getElem?_eq_getElem hi'⟩
  obtain ⟨rep, hrep, hsome⟩ := h.slot hf
  rw [List.getElem?_eq_getElem hi, hslot, Option.some.injEq] at hsome
  subst hsome
  exact ⟨by rw [List.getElem?_eq_getElem hi, hslot], hf, rep, hrep, rfl⟩

/-- The ids in the type of a slot were handed out. -/
theorem covers (h : LaidOut x r record slots) {slot : Slot} (hs : slot ∈ slots) :
    r.Covers slot.typ := by
  obtain ⟨-, -, rep, hrep, heq⟩ := h.of_mem hs
  exact heq ▸ hrep.covers

end LaidOut

/-! ### Changes -/

/-- What is done to the registered types, one thing at a time. -/
inductive Change where
  /-- A struct is registered for a record. -/
  | struct (record : Ty)
  /-- An array type is registered. -/
  | array (member : Flo.Ty) (length : Nat)
  /-- The layout of a struct is published. -/
  | layout (id : Nat) (slots : List Slot)

namespace Registry

/-- The registry after a change. -/
def after (r : Registry) : Change → Registry
  | .struct record => (r.registerStruct record).2
  | .array member length => (r.registerArray member length).2
  | .layout id slots => r.publish id slots

/-- The change may be made: what is registered is new, a struct is that of a completed record, and a
layout is the first one of its struct and is right. -/
inductive Permits (x : UnitIndex) (r : Registry) : Change → Prop where
  | struct {record : Ty} (isRecord : record.isRecord) (completed : x.complete record = record)
      (new : r.structOf? record = none) : Permits x r (.struct record)
  | array {member : Flo.Ty} {length : Nat} (new : (member, length) ∉ r.arrays) :
      Permits x r (.array member length)
  | layout {id : Nat} {s : RecordStruct} {slots : List Slot} (registered : r.struct? id = some s)
      (pending : s.slots = none) (laidOut : LaidOut x r s.record slots) :
      Permits x r (.layout id slots)

/-- The changes are made one after the other, and each of them may be made when it is. -/
inductive Undergoes (x : UnitIndex) : Registry → List Change → Registry → Prop where
  | nil (r : Registry) : Undergoes x r [] r
  | cons {r r' : Registry} {change : Change} {changes : List Change}
      (permitted : r.Permits x change) (rest : Undergoes x (r.after change) changes r') :
      Undergoes x r (change :: changes) r'

theorem Permits.undergoes {change : Change} (h : r.Permits x change) :
    r.Undergoes x [change] (r.after change) :=
  .cons h (.nil _)

theorem Undergoes.append {r₁ r₂ r₃ : Registry} {changes changes' : List Change}
    (h : r₁.Undergoes x changes r₂) (h' : r₂.Undergoes x changes' r₃) :
    r₁.Undergoes x (changes ++ changes') r₃ := by
  induction h with
  | nil => exact h'
  | cons permitted _ ih => exact .cons permitted (ih h')

end Registry

/-! ### Soundness -/

/-- What the registry says is true. The set `S` has all types that were represented, and `A` has the
foreign array types. -/
structure Registry.SoundUpTo (x : UnitIndex) (S : Ty → Prop) (A : Flo.Ty × Nat → Prop)
    (r : Registry) : Prop where
  record : ∀ s ∈ r.structs, s.record.isRecord ∧ x.complete s.record = s.record ∧ S s.record
  records_nodup : (r.structs.map RecordStruct.record).Nodup
  laidOut : ∀ {id : Nat} {s : RecordStruct} {slots : List Slot}, r.struct? id = some s →
    s.slots = some slots → LaidOut x r s.record slots
  arrays_nodup : r.arrays.Nodup
  member : ∀ a ∈ r.arrays, A a ∨ ∃ base rep, S (.array base a.2) ∧ Represents x r base rep ∧
    a.1 = rep.valueType

/-- What the registry says is true, and no array type is foreign. -/
abbrev Registry.Sound (x : UnitIndex) (S : Ty → Prop) (r : Registry) : Prop :=
  r.SoundUpTo x S fun _ => False

/-- What is represented is not refused. -/
theorem Represents.judged {ty : Ty} {rep : Representation} (h : Represents x r ty rep)
    (hs : r.SoundUpTo x S A) : Judged x ty (.ok ()) := by
  induction h with
  | integer32 => exact .integer32
  | integer64 => exact .integer64
  | real => exact .real64
  | boolean => exact .boolean
  | record isRecord registered known =>
    obtain ⟨s, hid, hslots⟩ := known
    obtain ⟨s', hid', hrecord⟩ := Registry.struct?_of_structOf? registered
    obtain rfl := Option.some.inj (hid.symm.trans hid')
    have hjudged := (hs.laidOut hid hslots).judged
    rw [hrecord] at hjudged
    exact .record isRecord (checkDefined_eq_ok hjudged.checked).2.2 hjudged
  | array _ _ ih => exact .array ih
  | recordHandle indirect isRecord _ => exact .recordHandle indirect isRecord
  | cell indirect noRecord direct _ ih => exact .cell indirect noRecord direct ih

/-- The struct is registered, and its fields are not known. -/
def Registry.Pending (r : Registry) (id : Nat) : Prop :=
  ∃ s, r.struct? id = some s ∧ s.slots = none

/-- The second registry is sound and continues the first by changes that may be made, and the
layouts under way are not published. -/
structure EvolvedUpTo (x : UnitIndex) (S : Ty → Prop) (A : Flo.Ty × Nat → Prop)
    (active : List Nat) (r r' : Registry) : Prop where
  sound : r'.SoundUpTo x S A
  grows : r.Grows r'
  undergoes : ∃ changes, r.Undergoes x changes r'
  pending : ∀ id ∈ active, r.Pending id → r'.Pending id

/-- What a computation on types does to a sound registry. -/
def EvolvesUpTo (x : UnitIndex) (S : Ty → Prop) (A : Flo.Ty × Nat → Prop) (active : List Nat)
    (r r' : Registry) : Prop :=
  r.SoundUpTo x S A → EvolvedUpTo x S A active r r'

/-- The second registry continues the first and is sound, without foreign array types. -/
abbrev Evolved (x : UnitIndex) (S : Ty → Prop) (active : List Nat) : Registry → Registry → Prop :=
  EvolvedUpTo x S (fun _ => False) active

/-- What a computation on types does to a registry without foreign array types. -/
abbrev Evolves (x : UnitIndex) (S : Ty → Prop) (active : List Nat) : Registry → Registry → Prop :=
  EvolvesUpTo x S (fun _ => False) active

theorem Registry.SoundUpTo.evolved (h : r.SoundUpTo x S A) : EvolvedUpTo x S A active r r :=
  ⟨h, .refl r, ⟨[], .nil r⟩, fun _ _ hp => hp⟩

theorem EvolvedUpTo.trans {r₁ r₂ r₃ : Registry} (h : EvolvedUpTo x S A active r₁ r₂)
    (h' : EvolvedUpTo x S A active r₂ r₃) : EvolvedUpTo x S A active r₁ r₃ := by
  refine ⟨h'.sound, h.grows.trans h'.grows, ?_,
    fun id hid hp => h'.pending id hid (h.pending id hid hp)⟩
  obtain ⟨changes, hchanges⟩ := h.undergoes
  obtain ⟨changes', hchanges'⟩ := h'.undergoes
  exact ⟨changes ++ changes', hchanges.append hchanges'⟩

theorem EvolvedUpTo.of_subset {active' : List Nat} (h : EvolvedUpTo x S A active r r')
    (hs : active' ⊆ active) : EvolvedUpTo x S A active' r r' :=
  ⟨h.sound, h.grows, h.undergoes, fun id hid => h.pending id (hs hid)⟩

instance : Std.Refl (EvolvesUpTo x S A active) := ⟨fun _ h => h.evolved⟩

instance : IsTrans Registry (EvolvesUpTo x S A active) :=
  ⟨fun _ _ _ h h' hs => (h hs).trans (h' (h hs).sound)⟩

theorem Registry.SoundUpTo.empty (x : UnitIndex) (S : Ty → Prop) :
    Registry.empty.SoundUpTo x S A := by
  refine ⟨by simp [Registry.empty], by simp [Registry.empty], fun {id} _ _ h => ?_,
    by simp [Registry.empty], by simp [Registry.empty]⟩
  cases id <;> simp [Registry.empty] at h

/-! ### Registration -/

/-- A struct that is registered and its id. -/
theorem Registry.structOf?_registerStruct (r : Registry) (record : Ty) :
    (r.registerStruct record).2.structOf? record = some (r.registerStruct record).1 := by
  unfold registerStruct
  cases h : r.structOf? record with
  | some id => exact h
  | none =>
    have hnone : r.structs.findIdx? (fun s => s.record = record) = none := by
      simpa [structOf?] using h
    simp [structOf?, List.findIdx?_append, hnone, List.findIdx?_cons]

/-- Registering a struct keeps the layouts as they are. -/
theorem Registry.struct?_append {r : Registry} {record : Ty} {id : Nat} {s : RecordStruct}
    (h : Registry.struct? { r with structs := r.structs ++ [⟨record, none⟩] } id = some s) :
    r.struct? id = some s ∨ s = ⟨record, none⟩ := by
  cases id with
  | zero => simp at h
  | succ i =>
    simp only [struct?_succ, List.getElem?_append] at h
    split at h
    · exact .inl h
    · right
      obtain ⟨hlt, heq⟩ := List.getElem?_eq_some_iff.1 h
      simpa using heq.symm

theorem registerStruct_evolves (hS : S record) (hr : record.isRecord)
    (hc : x.complete record = record) : EvolvesUpTo x S A active r (r.registerStruct record).2 := by
  intro hs
  cases h : r.structOf? record with
  | some id => simpa only [Registry.registerStruct, h] using hs.evolved
  | none =>
    have hchange := (Registry.Permits.struct hr hc h).undergoes
    simp only [Registry.after, Registry.registerStruct, h] at hchange ⊢
    have hg : r.Grows { r with structs := r.structs ++ [⟨record, none⟩] } := by
      refine ⟨fun {i} s hi => ⟨s, ?_, rfl, fun _ h => h⟩, List.prefix_rfl⟩
      rw [List.getElem?_append_left (List.getElem?_eq_some_iff.1 hi).1, hi]
    have hnone : ∀ s ∈ r.structs, s.record ≠ record := by
      simpa [Registry.structOf?, List.findIdx?_eq_none_iff] using h
    refine ⟨⟨?_, ?_, ?_, hs.arrays_nodup, ?_⟩, hg, ⟨_, hchange⟩, ?_⟩
    · intro s hmem
      rcases List.mem_append.1 hmem with hmem | hmem
      · exact hs.record s hmem
      · obtain rfl := List.mem_singleton.1 hmem
        exact ⟨hr, hc, hS⟩
    · rw [List.map_append, List.nodup_append]
      refine ⟨hs.records_nodup, by simp, ?_⟩
      intro a ha b hb
      obtain ⟨s, hmem, rfl⟩ := List.mem_map.1 ha
      obtain rfl : b = record := by simpa using hb
      exact hnone s hmem
    · intro id s slots hid hslots
      rcases Registry.struct?_append hid with hid | rfl
      · exact (hs.laidOut hid hslots).mono hg
      · cases hslots
    · exact fun a ha => (hs.member a ha).imp_right fun ⟨base, rep, hSb, hrep, heq⟩ =>
        ⟨base, rep, hSb, hrep.mono hg, heq⟩
    · rintro id - ⟨s, hid, hslots⟩
      obtain _ | i := id
      · simp at hid
      · refine ⟨s, ?_, hslots⟩
        simp only [Registry.struct?_succ] at hid ⊢
        rw [List.getElem?_append_left (List.getElem?_eq_some_iff.1 hid).1, hid]

/-- An array type is found under the id that was handed out for it. -/
theorem Registry.arrayOf?_registerArray (r : Registry) (memberType : Flo.Ty) (length : Nat) :
    ∃ i, (r.registerArray memberType length).1 = i + 1 ∧
      (r.registerArray memberType length).2.arrays.findIdx?
        (fun a => a = (memberType, length)) = some i := by
  unfold registerArray
  cases h : r.arrays.findIdx? fun a => a = (memberType, length) with
  | some i => exact ⟨i, rfl, h⟩
  | none => exact ⟨r.arrays.length, rfl, by simp [List.findIdx?_append, h, List.findIdx?_cons]⟩

theorem Registry.grows_registerArray (r : Registry) (memberType : Flo.Ty) (length : Nat) :
    r.Grows (r.registerArray memberType length).2 := by
  unfold registerArray
  split
  · exact .refl r
  · exact ⟨fun hi => ⟨_, hi, rfl, fun _ h => h⟩, List.prefix_append _ _⟩

/-- An array type may be registered if it is foreign or its members represent a type. -/
theorem registerMember_evolves {typ : Flo.Ty} {length : Nat}
    (h : A (typ, length) ∨ ∃ base rep, S (.array base length) ∧ Represents x r base rep ∧
      typ = rep.valueType) :
    EvolvesUpTo x S A active r (r.registerArray typ length).2 := by
  intro hs
  have hg := r.grows_registerArray typ length
  cases hfind : r.arrays.findIdx? fun a => a = (typ, length) with
  | some i => simpa only [Registry.registerArray, hfind] using hs.evolved
  | none =>
    have hnew : ∀ a ∈ r.arrays, a ≠ (typ, length) := by
      simpa only [List.findIdx?_eq_none_iff, decide_eq_false_iff_not] using hfind
    have hchange := (Registry.Permits.array (x := x) fun hmem => hnew _ hmem rfl).undergoes
    simp only [Registry.after, Registry.registerArray, hfind] at hchange hg ⊢
    have hnodup : (r.arrays ++ [(typ, length)]).Nodup := by
      rw [List.nodup_append]
      refine ⟨hs.arrays_nodup, by simp, fun a ha b hb => ?_⟩
      obtain rfl := List.mem_singleton.1 hb
      exact hnew a ha
    refine ⟨⟨hs.record, hs.records_nodup, fun hid hslots => (hs.laidOut hid hslots).mono hg, hnodup,
      ?_⟩, hg, ⟨_, hchange⟩, fun _ _ hp => hp⟩
    intro a ha
    have hmember : A a ∨ ∃ base rep, S (.array base a.2) ∧ Represents x r base rep ∧
        a.1 = rep.valueType := by
      rcases List.mem_append.1 ha with ha | ha
      · exact hs.member a ha
      · obtain rfl := List.mem_singleton.1 ha
        exact h
    exact hmember.imp_right fun ⟨base, rep, hSb, hrep, heq⟩ =>
      ⟨base, rep, hSb, hrep.mono hg, heq⟩

theorem registerArray_evolves {base : Ty} {length : Nat} {rep : Representation}
    (hS : S (.array base length)) (hrep : Represents x r base rep) :
    EvolvesUpTo x S A active r (r.registerArray rep.valueType length).2 :=
  registerMember_evolves (.inr ⟨base, rep, hS, hrep, rfl⟩)

/-! ### Publication -/

theorem Registry.struct?_publish {r : Registry} {id : Nat} (h : 0 < id) (slots : List Slot)
    (i : Nat) :
    (r.publish id slots).struct? i =
      if i = id then (r.struct? i).map fun s => { s with slots := some slots } else r.struct? i := by
  cases i with
  | zero => simp [show (0 : Nat) ≠ id by omega]
  | succ i =>
    simp only [struct?_succ, publish, List.getElem?_modify]
    by_cases hi : id - 1 = i
    · simp [hi, show i + 1 = id by omega]
    · simp [hi, show i + 1 ≠ id by omega]

theorem Registry.records_publish (r : Registry) (id : Nat) (slots : List Slot) :
    (r.publish id slots).structs.map RecordStruct.record =
      r.structs.map RecordStruct.record := by
  refine List.ext_getElem? fun i => ?_
  simp only [publish, List.getElem?_map, List.getElem?_modify]
  by_cases hi : id - 1 = i <;> cases r.structs[i]? <;> simp [hi]

theorem runOn_publish {id : Nat} {s : RecordStruct} (h : r.struct? id = some s)
    (slots : List Slot) : (publish id slots).runOn r = .ok (.ok (), r.publish id slots) := by
  have hget : (get : LayoutM Registry).runOn r = .ok (.ok r, r) := rfl
  rw [publish, Build.runOn_bind, hget]
  simp only [h, Build.present_some, Build.runOn_bind, Build.runOn_pure, Build.runOn_step]

theorem publish_ran {id : Nat} {slots : List Slot} {u : Unit}
    (h : (publish id slots).Ran r u r') : r' = r.publish id slots := by
  simp only [publish, Build.ran_bind, Build.ran_get, Build.ran_present, Build.ran_step] at h
  obtain ⟨_, _, ⟨rfl, rfl⟩, _, _, ⟨-, rfl⟩, -, rfl⟩ := h
  rfl

@[simp] theorem fails_publish {id : Nat} {slots : List Slot} {e : Error} :
    (publish id slots).Fails r e r' ↔ False := by
  simp [publish]

theorem publish_evolved {id : Nat} {s : RecordStruct} {slots : List Slot} (hs : r.SoundUpTo x S A)
    (hid : r.struct? id = some s) (hpending : s.slots = none) (hl : LaidOut x r s.record slots)
    (hactive : id ∉ active) : EvolvedUpTo x S A active r (r.publish id slots) := by
  have hpos : 0 < id := by
    rcases Nat.eq_zero_or_pos id with rfl | hpos
    · simp at hid
    · exact hpos
  have hstruct := Registry.struct?_publish (r := r) hpos slots
  have hg : r.Grows (r.publish id slots) := by
    refine ⟨fun {i} t hi => ?_, List.prefix_rfl⟩
    have h := hstruct (i + 1)
    simp only [Registry.struct?_succ, hi, Option.map_some] at h
    by_cases he : i + 1 = id
    · rw [if_pos he] at h
      refine ⟨_, h, rfl, fun slots' h' => ?_⟩
      rw [← he, Registry.struct?_succ, hi, Option.some.injEq] at hid
      rw [hid, hpending] at h'
      cases h'
    · rw [if_neg he] at h
      exact ⟨t, h, rfl, fun _ h => h⟩
  have hrecords := r.records_publish id slots
  refine ⟨⟨?_, hrecords ▸ hs.records_nodup, ?_, hs.arrays_nodup, ?_⟩, hg,
    ⟨_, (Registry.Permits.layout hid hpending hl).undergoes⟩, ?_⟩
  · intro t ht
    have hmem : t.record ∈ r.structs.map RecordStruct.record :=
      hrecords ▸ List.mem_map_of_mem ht
    obtain ⟨u, hu, heq⟩ := List.mem_map.1 hmem
    exact heq ▸ hs.record u hu
  · intro i t slots' hi hslots
    rw [hstruct i] at hi
    by_cases he : i = id
    · subst he
      rw [if_pos rfl, hid, Option.map_some, Option.some.injEq] at hi
      subst hi
      cases hslots
      exact hl.mono hg
    · rw [if_neg he] at hi
      exact (hs.laidOut hi hslots).mono hg
  · exact fun a ha => (hs.member a ha).imp_right fun ⟨base, rep, hSb, hrep, heq⟩ =>
      ⟨base, rep, hSb, hrep.mono hg, heq⟩
  · rintro i hi ⟨t, ht, hslots⟩
    refine ⟨t, ?_, hslots⟩
    rw [hstruct i, if_neg fun (he : i = id) => hactive (he ▸ hi), ht]

end GimpleLowering.Layout

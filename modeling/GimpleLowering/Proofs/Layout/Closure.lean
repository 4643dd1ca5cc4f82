import GimpleLowering.Proofs.Layout.Rounds
import GimpleLowering.Proofs.Lowering.Contexts
import Mathlib.Order.Interval.Set.Defs

/-!
# The end of a compilation

When nothing waits any more, the registry is closed: every struct is laid out that can be, and what
the layouts demand is registered. Such a registry is determined by what was registered in the
beginning, up to the ids that were handed out on the way, and nothing that is laid out again changes
it.

* **Completion is a closure.** The rounds have an end in whatever order the structs are visited, the
  tables are the same up to a renaming of the new ids, and they are final (`completion_isClosure`).

## Main definitions

* `Layout.Registry.IsClosed` — the registry has everything that it demands
* `Layout.Registry.Finished` — what its tables say
* `Layout.Renumbered` — tables that are equal up to the ids that are new

## Main results

* `Layout.Completion.Inv.has_iff` — what is registered in the end
* `Layout.Registry.IsClosed.eq_of_visits` — visits change nothing
* `Layout.exists_renumbered` — closed registries with the same items are renumbered
* `Layout.exists_finalize_ran` — visiting the structs in the order of their ids is a case
-/

namespace GimpleLowering.Layout

open Gimple Relation

variable {x : UnitIndex} {r r' : Registry} {item : Ty} {typ typ' : Flo.Ty}

/-! ### Closed registries -/

/-- Everything is laid out that can be, and what the layouts demand is registered. -/
structure Registry.IsClosed (x : UnitIndex) (r : Registry) : Prop extends r.IsComplete x where
  demands : ∀ {record item : Ty}, r.Has x record → LayoutDemands x record item → r.Has x item

namespace Completion

variable {c : Completion}

theorem mem_finished (hdone : c.waiting = []) {id : Nat} {s : RecordStruct}
    (hs : c.types.struct? id = some s) : id ∈ c.finished := by
  by_contra hid
  have hmem : id ∈ c.waiting := by
    obtain _ | i := id
    · cases hs
    · exact mem_waiting.2 ⟨⟨i.succ_ne_zero, (List.getElem?_eq_some_iff.1 hs).1⟩, hid⟩
  rw [hdone] at hmem
  cases hmem

/-- After the last round the registry is closed. -/
theorem Inv.isClosed (h : c.Inv x r) (hdone : c.waiting = []) : c.types.IsClosed x := by
  refine ⟨⟨h.sound, fun s hs => ?_⟩, fun {record item} hrecord hdemand => ?_⟩
  · obtain ⟨i, hi⟩ := List.getElem?_of_mem hs
    have hid : c.types.struct? (i + 1) = some s := hi
    obtain ⟨t, ht, hsettled⟩ := (h.visited _ (mem_finished hdone hid)).settled
    obtain rfl := Option.some.inj (ht.symm.trans hid)
    exact hsettled
  · obtain ⟨typ, hrecord⟩ := hrecord
    cases hrecord with
    | struct hid =>
      obtain ⟨s, hs, rfl⟩ := Registry.struct?_of_structOf? hid
      exact (h.visited _ (mem_finished hdone hs)).demands hs hdemand
    | array => exact absurd hdemand (not_layoutDemands_of_fields rfl)

/-- What is registered after the last round was demanded in the beginning. -/
theorem Inv.has_iff (h : c.Inv x r) (hdone : c.waiting = []) :
    c.types.Has x item ↔ Demanded x r item := by
  refine ⟨h.demanded item, fun hd => ?_⟩
  induction hd with
  | registered hitem => exact hitem.mono h.grows
  | layout _ hdemand ih => exact (h.isClosed hdone).demands ih hdemand

end Completion

/-! ### Nothing is left to do -/

/-- Only records have structs. -/
theorem Registered.eq_array {base : Ty} {length : Nat} (h : Registered x r (.array base length) typ)
    (hs : r.Sound x fun _ => True) :
    ∃ id, typ = .array id ∧ Represents x r (.array base length) (.array id) := by
  cases h with
  | struct hid =>
    obtain ⟨s, hid, hrecord⟩ := Registry.struct?_of_structOf? hid
    have hr := (hs.record s (Registry.mem_of_struct? hid)).1
    rw [hrecord] at hr
    cases hr
  | array h => exact ⟨_, rfl, h⟩

theorem Registered.eq_struct (h : Registered x r item typ) (hr : item.isRecord) :
    ∃ id, typ = .struct id ∧ r.structOf? item = some id := by
  cases h with
  | struct hid => exact ⟨_, rfl, hid⟩
  | array => cases hr

theorem exists_registered_struct (hs : r.Sound x fun _ => True) {id : Nat}
    (h : r.Covers (.struct id)) : ∃ item, Registered x r item (.struct id) := by
  obtain ⟨hpos, hle⟩ := h
  obtain ⟨i, rfl⟩ := Nat.exists_eq_succ_of_ne_zero (Nat.pos_iff_ne_zero.1 hpos)
  exact ⟨_, .struct (hs.structOf?_of_struct? (List.getElem?_eq_getElem hle))⟩

theorem exists_registered_array (hs : r.Sound x fun _ => True) {id : Nat}
    (h : r.Covers (.array id)) :
    ∃ base length, Registered x r (.array base length) (.array id) := by
  obtain ⟨hpos, hle⟩ := h
  obtain ⟨i, rfl⟩ := Nat.exists_eq_succ_of_ne_zero (Nat.pos_iff_ne_zero.1 hpos)
  have hi : r.arrays[i]? = some r.arrays[i] := List.getElem?_eq_getElem hle
  obtain ⟨base, rep, -, hrep, heq⟩ :=
    (hs.member _ (List.mem_of_getElem? hi)).resolve_left not_false
  refine ⟨base, r.arrays[i].2, .array (.array hrep ?_)⟩
  rw [findIdx?_eq_some_iff_of_nodup hs.arrays_nodup, hi, ← heq]

section

variable (hs : r.Sound x fun _ => True) (hs' : r'.Sound x fun _ => True) (hg : r.Grows r')
  (hitems : ∀ item, r'.Has x item → r.Has x item)

include hs' hg hitems

/-- Without a new record there are no more structs. -/
theorem length_structs_eq_of_has : r'.structs.length = r.structs.length := by
  refine Nat.le_antisymm ?_ hg.length_structs_le
  have hsub : r'.structs.map RecordStruct.record ⊆ r.structs.map RecordStruct.record := by
    intro record hrecord
    obtain ⟨s', hmem, rfl⟩ := List.mem_map.1 hrecord
    obtain ⟨i, hi⟩ := List.getElem?_of_mem hmem
    have hid : r'.struct? (i + 1) = some s' := hi
    obtain ⟨typ, hreg⟩ := hitems _ ⟨_, .struct (hs'.structOf?_of_struct? hid)⟩
    obtain ⟨id, -, hid⟩ := hreg.eq_struct (hs'.record s' hmem).1
    obtain ⟨s, hs, hsame⟩ := Registry.struct?_of_structOf? hid
    exact hsame ▸ List.mem_map_of_mem (Registry.mem_of_struct? hs)
  have hlength := (hs'.records_nodup.subperm hsub).length_le
  rwa [List.length_map, List.length_map] at hlength

include hs

/-- Without a new array type there are no more arrays. -/
theorem arrays_eq_of_has : r'.arrays = r.arrays := by
  refine (hg.arrays.eq_of_length_le ?_).symm
  by_contra hlt
  have hcovers : r'.Covers (.array (r.arrays.length + 1)) :=
    ⟨Nat.succ_pos _, Nat.lt_of_not_le hlt⟩
  obtain ⟨base, length, hreg'⟩ := exists_registered_array hs' hcovers
  obtain ⟨typ, hreg⟩ := hitems _ ⟨_, hreg'⟩
  obtain ⟨id, rfl, hrep⟩ := hreg.eq_array hs
  obtain ⟨id', hid', hrep'⟩ := hreg'.eq_array hs'
  obtain rfl := Flo.Ty.array.inj hid'
  have hid := Representation.array.inj ((hrep.mono hg).unique hrep')
  have hle := hrep.covers.2
  omega

end

/-- A complete registry that grows without anything new stays the same. -/
theorem Registry.IsComplete.eq_of_grows (h : r.IsComplete x) (hs' : r'.Sound x fun _ => True)
    (hg : r.Grows r') (hitems : ∀ item, r'.Has x item → r.Has x item) : r' = r := by
  have hlength := length_structs_eq_of_has hs' hg hitems
  have harrays := arrays_eq_of_has h.sound hs' hg hitems
  have hstructs : r'.structs = r.structs := by
    refine List.ext_getElem? fun i => ?_
    cases hi : r.structs[i]? with
    | none =>
      rw [List.getElem?_eq_none_iff] at hi ⊢
      omega
    | some s =>
      obtain ⟨⟨record, slots⟩, hi', hrecord, hslots⟩ := hg.structs hi
      rw [hi', Option.some.injEq]
      obtain ⟨record', slots'⟩ := s
      obtain rfl : record = record' := hrecord
      cases slots' with
      | some slots' => rw [show slots = some slots' from hslots slots' rfl]
      | none =>
        cases slots with
        | none => rfl
        | some slots =>
          -- The layout is known now, so it can be computed, and was.
          have hid' : r'.struct? (i + 1) = some ⟨record, some slots⟩ := hi'
          have hid : r.struct? (i + 1) = some ⟨record, none⟩ := hi
          have hlaidOut := (h.isLaidOut_iff hid).2 (hs'.laidOut hid' rfl).judged
          cases hlaidOut
  cases r
  cases r'
  simp only at harrays hstructs
  rw [harrays, hstructs]

namespace Registry.IsClosed

/-- Visits change nothing. -/
theorem eq_of_visits (h : r.IsClosed x) {ids : List Nat}
    (hids : ∀ id ∈ ids, id ≠ 0 ∧ id ≤ r.structs.length) (hrun : (ids.forM (visit x)).Ran r () r') :
    r' = r := by
  obtain ⟨he, hadds, -⟩ := visits_visit h.sound hids hrun
  refine h.eq_of_grows he.sound he.grows fun item hitem => ?_
  rcases (hadds item).1 hitem with hitem | ⟨id, -, s, hs, hdemand⟩
  · exact hitem
  · exact h.demands ⟨_, .struct (h.sound.structOf?_of_struct? hs)⟩ hdemand

/-- So further rounds change nothing. -/
theorem eq_of_rounds (h : r.IsClosed x) {c : Completion} (hrounds : Completion.Reaches x r c) :
    c.types = r := by
  induction hrounds with
  | refl => rfl
  | tail _ hround ih =>
    cases hround with
    | visits _ all run =>
      rw [ih] at run
      refine h.eq_of_visits (fun id hid => ?_) run
      rw [← ih]
      exact (Completion.mem_waiting.1 (all.mem_iff.1 hid)).1

end Registry.IsClosed

/-! ### Tables -/

/-- The layout of a completed record can be computed if the record is supported. -/
theorem layoutJudged_ok_iff {record : Ty} (hr : record.isRecord) (hc : x.complete record = record) :
    LayoutJudged x record (.ok ()) ↔ Supported x record := by
  constructor
  · intro h
    obtain ⟨defined, names, fields⟩ := h.supported rfl
    rw [← hc] at defined names fields
    exact .record hr defined names fields
  · intro h
    rcases h.judged.of_isRecord hr with ⟨e, -, he⟩ | ⟨-, hlayout⟩
    · cases he
    · exact hc ▸ hlayout

/-- What the tables say in the end: a struct has the entry of its layout if the record is supported,
and is undefined if its layout is refused; and nothing is missing. -/
structure Registry.Finished (x : UnitIndex) (r : Registry) : Prop where
  entry : ∀ {id : Nat} {s : RecordStruct}, r.struct? id = some s →
    (Supported x s.record ∧ ∃ slots e, (slotsOf x id).Ran r slots r ∧
      r.tables.structs.get? id = some e ∧ e.memberNames = slots.map Slot.name ∧
      e.members = slots.map Slot.typ ∧ r.Describes x s.record e) ∨
    (¬ Supported x s.record ∧ (∃ e, (slotsOf x id).Fails r e r) ∧
      r.tables.structs.get? id = some (Flo.Entry.poisoned .undefined))
  member : ∀ {id : Nat} {e : Flo.StructType}, r.tables.structs.get? id = some e →
    ∀ typ ∈ e.members, r.Covers typ
  memberType : ∀ {id : Nat} {e : Flo.ArrayType}, r.tables.arrays.get? id = some e →
    r.Covers e.memberType
  structs_poison : ∀ {id : Nat} {e : Flo.StructType}, r.tables.structs.get? id = some e →
    ∀ reason, e.poison ≠ .because reason
  arrays_poison : ∀ {id : Nat} {e : Flo.ArrayType}, r.tables.arrays.get? id = some e →
    ∀ reason, e.poison ≠ .because reason

/-- The entries of structs are those of the table, after the null entry. -/
theorem Registry.get?_structs_cases {id : Nat} {e : Flo.StructType}
    (h : r.tables.structs.get? id = some e) :
    e = Flo.Entry.poisoned .nullEntry ∨ ∃ s, r.struct? id = some s ∧ e = s.entry := by
  cases id with
  | zero => exact .inl (Option.some.inj h).symm
  | succ i =>
    rw [Registry.get?_structs_succ] at h
    obtain ⟨s, hs, rfl⟩ := Option.map_eq_some_iff.1 h
    exact .inr ⟨s, hs, rfl⟩

theorem Registry.get?_arrays_cases {id : Nat} {e : Flo.ArrayType}
    (h : r.tables.arrays.get? id = some e) :
    e = Flo.Entry.poisoned .nullEntry ∨ ∃ a ∈ r.arrays, e = ⟨a.1, a.2, .usable⟩ := by
  cases id with
  | zero => exact .inl (Option.some.inj h).symm
  | succ i =>
    rw [Registry.get?_arrays_succ] at h
    obtain ⟨a, ha, rfl⟩ := Option.map_eq_some_iff.1 h
    exact .inr ⟨a, List.mem_of_getElem? ha, rfl⟩

/-- A layout that is computed again in a closed registry changes nothing. -/
theorem Registry.IsClosed.eq_of_slotsOf (h : r.IsClosed x) {id : Nat} {s : RecordStruct}
    (hs : r.struct? id = some s) {res : Except Error (List Slot)}
    (hran : (slotsOf x id).runOn r = .ok (res, r')) : r' = r := by
  have he : Evolved x (fun _ => True) [] r r' := slotsOf_keeps (.univ x) id _ _ _ hran h.sound
  refine h.eq_of_grows he.sound he.grows fun item hitem => ?_
  rcases (slotsOf_adds h.sound hs hran item).1 hitem with hitem | hdemand
  · exact hitem
  · exact h.demands ⟨_, .struct (h.sound.structOf?_of_struct? hs)⟩ hdemand

/-- A struct has the entry of its layout, or its layout is refused. -/
theorem Registry.IsClosed.entry (h : r.IsClosed x) (hcalm : r.Calm x) {id : Nat}
    {s : RecordStruct} (hs : r.struct? id = some s) :
    (Supported x s.record ∧ ∃ slots e, (slotsOf x id).Ran r slots r ∧
      r.tables.structs.get? id = some e ∧ e.memberNames = slots.map Slot.name ∧
      e.members = slots.map Slot.typ ∧ r.Describes x s.record e) ∨
    (¬ Supported x s.record ∧ (∃ e, (slotsOf x id).Fails r e r) ∧
      r.tables.structs.get? id = some (Flo.Entry.poisoned .undefined)) := by
  obtain ⟨hr, hc, -⟩ := h.sound.record s (Registry.mem_of_struct? hs)
  have hentry := Registry.get?_structs_tables hs
  have hlaidOut := h.isLaidOut_iff hs
  rw [layoutJudged_ok_iff hr hc] at hlaidOut
  cases hslots : s.slots with
  | some slots =>
    have hdescribes := (h.sound.laidOut hs hslots).describes h.sound
    rw [← hslots] at hdescribes
    refine .inl ⟨hlaidOut.1 (by rw [RecordStruct.isLaidOut, hslots]; rfl), slots, s.entry,
      slotsOf_of_knows ⟨s, hs, hslots⟩, hentry, ?_, ?_, hdescribes⟩
    · rw [RecordStruct.entry, hslots]
    · rw [RecordStruct.entry, hslots]
  | none =>
    have hnot : ¬ Supported x s.record := by
      rw [← hlaidOut, RecordStruct.isLaidOut, hslots]
      exact Bool.false_ne_true
    refine .inr ⟨hnot, ?_, by rw [hentry, RecordStruct.entry, hslots]⟩
    obtain ⟨res, r', hran⟩ := hcalm.exists_runOn hs
    obtain rfl := h.eq_of_slotsOf hs hran
    cases res with
    | ok slots =>
      have hjudged := slotsOf_judged (.univ x) (h.sound.structOf?_of_struct? hs) h.sound hran
      exact absurd ((layoutJudged_ok_iff hr hc).1 hjudged) hnot
    | error e => exact ⟨e, hran⟩

theorem Registry.IsClosed.finished (h : r.IsClosed x) (hcalm : r.Calm x) : r.Finished x := by
  refine ⟨fun hs => h.entry hcalm hs, fun he typ htyp => ?_, fun he => ?_, fun he reason => ?_,
    fun he reason => ?_⟩
  · obtain rfl | ⟨s, hs, rfl⟩ := Registry.get?_structs_cases he
    · cases htyp
    · cases hslots : s.slots with
      | none =>
        rw [RecordStruct.entry, hslots] at htyp
        cases htyp
      | some slots =>
        rw [RecordStruct.entry, hslots] at htyp
        obtain ⟨slot, hslot, rfl⟩ := List.mem_map.1 htyp
        exact (h.sound.laidOut hs hslots).covers hslot
  · obtain rfl | ⟨a, ha, rfl⟩ := Registry.get?_arrays_cases he
    · trivial
    · obtain ⟨base, rep, -, hrep, heq⟩ := (h.sound.member a ha).resolve_left not_false
      exact heq ▸ hrep.covers
  · obtain rfl | ⟨s, hs, rfl⟩ := Registry.get?_structs_cases he
    · intro heq
      cases heq
    · rw [RecordStruct.entry]
      cases s.slots with
      | none | some =>
        intro heq
        cases heq
  · obtain rfl | ⟨a, ha, rfl⟩ := Registry.get?_arrays_cases he
    all_goals
      intro heq
      cases heq

/-! ### Renumbering -/

/-- The second tables are the first ones with other ids, but for the ids that the old tables have
handed out. -/
structure Renumbered (ρ : Flo.Renaming) (old t t' : Flo.TypeTables) : Prop where
  structs_old : ∀ id ∈ Set.Icc 1 old.structs.size, ρ.structs id = id
  arrays_old : ∀ id ∈ Set.Icc 1 old.arrays.size, ρ.arrays id = id
  structs_new : Set.BijOn ρ.structs (Set.Ioc old.structs.size t.structs.size)
    (Set.Ioc old.structs.size t'.structs.size)
  arrays_new : Set.BijOn ρ.arrays (Set.Ioc old.arrays.size t.arrays.size)
    (Set.Ioc old.arrays.size t'.arrays.size)
  structType : ∀ id ∈ Set.Icc 1 t.structs.size,
    t'.structs.get? (ρ.structs id) = (t.structs.get? id).map (Flo.StructType.rename ρ)
  arrayType : ∀ id ∈ Set.Icc 1 t.arrays.size,
    t'.arrays.get? (ρ.arrays id) = (t.arrays.get? id).map (Flo.ArrayType.rename ρ)

/-- What has a struct or an array type in two registries has runtime types that are alike. -/
theorem Registered.alike (h : Registered x r item typ) (h' : Registered x r' item typ')
    (hs : r.Sound x fun _ => True) (hs' : r'.Sound x fun _ => True) : Alike r r' typ typ' := by
  cases h with
  | struct hid =>
    cases h' with
    | struct hid' => exact .struct ⟨_, hid, hid'⟩
    | array =>
      obtain ⟨_, htyp, -⟩ := (Registered.struct hid).eq_array hs
      cases htyp
  | array hrep =>
    obtain ⟨id', rfl, hrep'⟩ := h'.eq_array hs'
    exact hrep.alike hrep'

/-- The runtime types of structs and arrays that were registered since. -/
def Registry.New (x : UnitIndex) (old r : Registry) : Set Flo.Ty :=
  {typ | (∃ item, Registered x r item typ) ∧ ¬ old.Covers typ}

theorem Registry.struct_mem_new {old : Registry} (hs : r.Sound x fun _ => True) {id : Nat} :
    .struct id ∈ old.New x r ↔ id ∈ Set.Ioc old.structs.length r.structs.length := by
  constructor
  · rintro ⟨⟨item, h⟩, hnot⟩
    obtain ⟨hpos, hle⟩ := h.covers
    exact ⟨Nat.lt_of_not_le fun hold => hnot ⟨hpos, hold⟩, hle⟩
  · rintro ⟨hlt, hle⟩
    exact ⟨exists_registered_struct hs ⟨Nat.zero_lt_of_lt hlt, hle⟩,
      fun hold => Nat.not_le_of_lt hlt hold.2⟩

theorem Registry.array_mem_new {old : Registry} (hs : r.Sound x fun _ => True) {id : Nat} :
    .array id ∈ old.New x r ↔ id ∈ Set.Ioc old.arrays.length r.arrays.length := by
  constructor
  · rintro ⟨⟨item, h⟩, hnot⟩
    obtain ⟨hpos, hle⟩ := h.covers
    exact ⟨Nat.lt_of_not_le fun hold => hnot ⟨hpos, hold⟩, hle⟩
  · rintro ⟨hlt, hle⟩
    have hcovers : r.Covers (.array id) := ⟨Nat.zero_lt_of_lt hlt, hle⟩
    obtain ⟨base, length, h⟩ := exists_registered_array hs hcovers
    exact ⟨⟨_, h⟩, fun hold => Nat.not_le_of_lt hlt hold.2⟩

section

variable {old r₁ r₂ : Registry} {ρ : Flo.Renaming} (h₁ : r₁.IsComplete x) (h₂ : r₂.IsComplete x)
  (hρ : ∀ {typ typ'}, Alike r₁ r₂ typ typ' → typ' = typ.rename ρ)
  (hitems : ∀ item, r₁.Has x item ↔ r₂.Has x item)

include h₁ h₂ hρ

/-- The ids that were handed out before stay. -/
theorem Registered.rename_eq (hg₁ : old.Grows r₁) (hg₂ : old.Grows r₂)
    (h : Registered x old item typ) : typ.rename ρ = typ :=
  (hρ ((h.mono hg₁).alike (h.mono hg₂) h₁.sound h₂.sound)).symm

include hitems

/-- What has an id in one registry has the renamed id in the other one. -/
theorem Registered.renamed (h : Registered x r₁ item typ) :
    Registered x r₂ item (typ.rename ρ) ∧ Alike r₁ r₂ typ (typ.rename ρ) := by
  obtain ⟨typ', h'⟩ := (hitems item).1 ⟨typ, h⟩
  have halike := h.alike h' h₁.sound h₂.sound
  rw [← hρ halike]
  exact ⟨h', halike⟩

/-- The new runtime types of one registry are renamed to those of the other one. -/
theorem bijOn_rename (hold : old.Sound x fun _ => True) (hg₁ : old.Grows r₁)
    (hg₂ : old.Grows r₂) : Set.BijOn (Flo.Ty.rename ρ) (old.New x r₁) (old.New x r₂) := by
  refine ⟨?_, ?_, ?_⟩
  · rintro typ ⟨⟨item, h⟩, hnot⟩
    obtain ⟨h', halike⟩ := h.renamed h₁ h₂ hρ hitems
    refine ⟨⟨item, h'⟩, fun hcovers => hnot ?_⟩
    -- An id that is not new in the second registry is the same in the first one.
    have hbefore := h'.of_covers hold h₂.sound hg₂ hcovers
    have heq := (hbefore.mono hg₁).alike (hbefore.mono hg₂) h₁.sound h₂.sound
    rw [← halike.symm.unique heq.symm] at hcovers
    exact hcovers
  · rintro typ ⟨⟨item, h⟩, -⟩ typ' ⟨⟨item', h'⟩, -⟩ heq
    have halike := (h.renamed h₁ h₂ hρ hitems).2
    have halike' := (h'.renamed h₁ h₂ hρ hitems).2
    rw [← show typ.rename ρ = typ'.rename ρ from heq] at halike'
    exact halike.symm.unique halike'.symm
  · rintro typ ⟨⟨item, h⟩, hnot⟩
    obtain ⟨typ₁, h'⟩ := (hitems item).2 ⟨typ, h⟩
    have heq := hρ (h'.alike h h₁.sound h₂.sound)
    refine ⟨typ₁, ⟨⟨item, h'⟩, fun hcovers => hnot ?_⟩, heq.symm⟩
    have hbefore := h'.of_covers hold h₁.sound hg₁ hcovers
    rw [heq, hbefore.rename_eq h₁ h₂ hρ hg₁ hg₂]
    exact hcovers

end

/-- Complete registries that continue another one with the same records and arrays are equal but for
the new ids. -/
theorem exists_renumbered {old r₁ r₂ : Registry} (h₁ : r₁.IsComplete x) (h₂ : r₂.IsComplete x)
    (hitems : ∀ item, r₁.Has x item ↔ r₂.Has x item) (hold : old.Sound x fun _ => True)
    (hg₁ : old.Grows r₁) (hg₂ : old.Grows r₂) :
    ∃ ρ, Renumbered ρ old.tables r₁.tables r₂.tables := by
  obtain ⟨ρ, hρ⟩ := exists_renaming r₁ r₂
  have hnew := bijOn_rename h₁ h₂ hρ hitems hold hg₁ hg₂
  refine ⟨ρ, ⟨fun id hid => ?_, fun id hid => ?_, ⟨fun id hid => ?_, fun id hid id' hid' heq => ?_,
    fun id hid => ?_⟩, ⟨fun id hid => ?_, fun id hid id' hid' heq => ?_, fun id hid => ?_⟩,
    fun id hid => ?_, fun id hid => ?_⟩⟩
  all_goals simp only [Registry.size_structs_tables, Registry.size_arrays_tables] at *
  · obtain ⟨item, h⟩ := exists_registered_struct hold hid
    exact Flo.Ty.struct.inj (h.rename_eq h₁ h₂ hρ hg₁ hg₂)
  · obtain ⟨base, length, h⟩ := exists_registered_array hold hid
    exact Flo.Ty.array.inj (h.rename_eq h₁ h₂ hρ hg₁ hg₂)
  · rw [← Registry.struct_mem_new h₁.sound] at hid
    exact (Registry.struct_mem_new h₂.sound).1 (hnew.mapsTo hid)
  · rw [← Registry.struct_mem_new h₁.sound] at hid hid'
    exact Flo.Ty.struct.inj (hnew.injOn hid hid' (congrArg Flo.Ty.struct heq))
  · rw [← Registry.struct_mem_new h₂.sound] at hid
    obtain ⟨typ, htyp, heq⟩ := hnew.surjOn hid
    cases typ with
    | struct id₁ => exact ⟨id₁, (Registry.struct_mem_new h₁.sound).1 htyp, Flo.Ty.struct.inj heq⟩
    | _ => cases heq
  · rw [← Registry.array_mem_new h₁.sound] at hid
    exact (Registry.array_mem_new h₂.sound).1 (hnew.mapsTo hid)
  · rw [← Registry.array_mem_new h₁.sound] at hid hid'
    exact Flo.Ty.array.inj (hnew.injOn hid hid' (congrArg Flo.Ty.array heq))
  · rw [← Registry.array_mem_new h₂.sound] at hid
    obtain ⟨typ, htyp, heq⟩ := hnew.surjOn hid
    cases typ with
    | array id₁ => exact ⟨id₁, (Registry.array_mem_new h₁.sound).1 htyp, Flo.Ty.array.inj heq⟩
    | _ => cases heq
  · obtain ⟨item, h⟩ := exists_registered_struct h₁.sound hid
    have halike := (h.renamed h₁ h₂ hρ hitems).2
    cases halike with
    | struct hsame =>
      obtain ⟨s, s', hs, hs', hmembers, hrest⟩ := h₁.entry_alike h₂ hsame
      rw [hs, hs', Option.map_some, hrest, Flo.members_eq_map hmembers hρ]
      rfl
  · obtain ⟨base, length, h⟩ := exists_registered_array h₁.sound hid
    have halike := (h.renamed h₁ h₂ hρ hitems).2
    generalize htyp : (Flo.Ty.array id).rename ρ = typ at halike
    cases halike with
    | array members hi hi' =>
      rw [show ρ.arrays _ = _ from Flo.Ty.array.inj htyp, Registry.get?_arrays_tables hi,
        Registry.get?_arrays_tables hi', Option.map_some, hρ members]
      rfl

/-! ### The order of ids -/

/-- The completion goes on where a number of visits has come to. -/
theorem finalizeFrom_of_visits {first number fuel : Nat} {r₁ : Registry} (hfirst : first ≠ 0)
    (hr : r.Sound x fun _ => True) (hlast : first + number ≤ r.structs.length + 1)
    (hvisits : ((List.range' first number).forM (visit x)).Ran r () r₁)
    (h : (finalizeFrom x fuel (first + number)).Ran r₁ () r') :
    (finalizeFrom x (number + fuel) first).Ran r () r' := by
  induction number generalizing r first with
  | zero =>
    obtain rfl := Build.ran_forM_nil.1 hvisits
    rwa [Nat.zero_add]
  | succ number ih =>
    rw [List.range'_succ] at hvisits
    obtain ⟨r₂, hvisit, hrest⟩ := Build.ran_forM_cons.1 hvisits
    obtain ⟨he, -, -⟩ := visit_visits hr hfirst (by omega) hvisit
    have hgrows := he.grows.length_structs_le
    rw [← Nat.add_assoc, Nat.add_right_comm] at h
    have hnext := ih first.succ_ne_zero he.sound (by omega) hrest h
    obtain ⟨i, rfl⟩ := Nat.exists_eq_succ_of_ne_zero hfirst
    obtain ⟨s, hs⟩ : ∃ s, r.struct? (i + 1) = some s :=
      ⟨_, List.getElem?_eq_getElem (by omega)⟩
    rw [Nat.add_right_comm, finalizeFrom, Build.ran_bind]
    refine ⟨r, r, Build.ran_get.2 ⟨rfl, rfl⟩, ?_⟩
    simp only [hs]
    rcases (visit_ran hs).1 hvisit with ⟨hforward, rfl⟩ | ⟨hforward, res, hran⟩
    · rw [hforward]
      exact hnext
    · simp only [hforward, Bool.false_eq_true, if_false, Build.ran_bind, Build.ran_attempt]
      exact ⟨res, r₂, hran, hnext⟩

/-- The structs that wait are those after the ones that were visited. -/
theorem Completion.waiting_eq {c : Completion} {n : Nat} (hc : c.finished = List.range' 1 n)
    (hn : n ≤ c.types.structs.length) :
    c.waiting = List.range' (n + 1) (c.types.structs.length - n) := by
  have hsplit : List.range' 1 c.types.structs.length =
      List.range' 1 n ++ List.range' (n + 1) (c.types.structs.length - n) := by
    have happend := List.range'_append_1 (s := 1) (m := n) (n := c.types.structs.length - n)
    rw [Nat.add_comm 1 n, Nat.add_sub_cancel' hn] at happend
    exact happend.symm
  rw [waiting, hc, hsplit, List.filter_append]
  have hbefore : (List.range' 1 n).filter (fun id => id ∉ List.range' 1 n) = [] :=
    List.filter_eq_nil_iff.2 fun id hid => by simp only [hid, not_true, decide_false, not_false_iff,
      Bool.false_eq_true]
  have hafter : (List.range' (n + 1) (c.types.structs.length - n)).filter
      (fun id => id ∉ List.range' 1 n) =
        List.range' (n + 1) (c.types.structs.length - n) := by
    refine List.filter_eq_self.2 fun id hid => ?_
    simp only [List.mem_range'_1, decide_eq_true_eq] at hid ⊢
    omega
  rw [hbefore, hafter, List.nil_append]

/-- Visiting the structs in the order of their ids is one way to go through the rounds. -/
theorem exists_finalizeFrom_ran {c : Completion} {n fuel : Nat} (h : c.Inv x r)
    (hcalm : c.types.Calm x) (hc : c.finished = List.range' 1 n)
    (hn : n ≤ c.types.structs.length) (hfuel : (writtenRecords x r).length ≤ n + fuel) :
    ∃ c', ReflTransGen (Completion.Round x) c c' ∧ c'.waiting = [] ∧
      (finalizeFrom x fuel (n + 1)).Ran c.types () c'.types := by
  induction h.acc generalizing n fuel with
  | intro c _ ih =>
    have hwaiting := Completion.waiting_eq hc hn
    by_cases hdone : c.waiting = []
    · refine ⟨c, .refl, hdone, ?_⟩
      have hlength := congrArg List.length (hwaiting.symm.trans hdone)
      rw [List.length_range', List.length_nil] at hlength
      cases fuel with
      | zero => exact Build.ran_pure.2 ⟨rfl, rfl⟩
      | succ fuel =>
        rw [finalizeFrom, Build.ran_bind]
        refine ⟨_, _, Build.ran_get.2 ⟨rfl, rfl⟩, ?_⟩
        have hnone : c.types.struct? (n + 1) = none := by
          rw [Registry.struct?_succ, List.getElem?_eq_none_iff]
          omega
        rw [hnone]
        exact Build.ran_pure.2 ⟨rfl, rfl⟩
    · obtain ⟨r₁, hran, hreach⟩ := hcalm.exists_visits h.sound fun id hid =>
        (Completion.mem_waiting.1 hid).1
      have hround := Completion.Round.visits hdone (.refl _) hran
      have h₁ := h.round hround
      have hgrows := (Attempts.evolved h.sound hreach).grows.length_structs_le
      have hfinished : c.finished ++ c.waiting = List.range' 1 c.types.structs.length := by
        have happend := List.range'_append_1 (s := 1) (m := n) (n := c.types.structs.length - n)
        rw [Nat.add_comm 1 n, Nat.add_sub_cancel' hn] at happend
        rw [hc, hwaiting, happend]
      have hbound := h.sound.length_structs_le h.within
      obtain ⟨number, hnumber⟩ := Nat.exists_eq_add_of_le hn
      obtain ⟨rest, rfl⟩ : ∃ rest, fuel = number + rest :=
        Nat.exists_eq_add_of_le (by omega)
      obtain ⟨c', hrounds, hdone', hfinal⟩ := ih _ hround h₁ (hcalm.of_attempts hreach) hfinished
        hgrows (show _ ≤ c.types.structs.length + rest by omega)
      refine ⟨c', .head hround hrounds, hdone', ?_⟩
      rw [hwaiting, hnumber, Nat.add_sub_cancel_left] at hran
      rw [hnumber, Nat.add_right_comm] at hfinal
      exact finalizeFrom_of_visits n.succ_ne_zero h.sound (by omega) hran hfinal

theorem exists_finalize_ran (hr : r.Sound x fun _ => True) (hcalm : r.Calm x) :
    ∃ c, Completion.Reaches x r c ∧ c.waiting = [] ∧ (finalize x).Ran r () c.types := by
  have hlength := length_writtenRecords x r
  obtain ⟨c, hrounds, hdone, hran⟩ := exists_finalizeFrom_ran (n := 0) (Completion.inv_start hr)
    hcalm rfl (Nat.zero_le _) (show _ ≤ 0 + fuelBound x r by omega)
  exact ⟨c, hrounds, hdone, Build.ran_bind.2 ⟨r, r, Build.ran_get.2 ⟨rfl, rfl⟩, hran⟩⟩

/-! ### Completion -/

theorem Completion.Reaches.calm {c : Completion} (hr : r.Sound x fun _ => True)
    (hcalm : r.Calm x) (h : Reaches x r c) : c.types.Calm x := by
  induction h with
  | refl => exact hcalm
  | tail hbefore hround ih =>
    cases hround with
    | visits _ all run =>
      obtain ⟨r₁, hran, hreach⟩ := ih.exists_visits (Reaches.inv hr hbefore).sound fun id hid =>
        (mem_waiting.1 (all.mem_iff.1 hid)).1
      obtain ⟨-, rfl⟩ := Prod.mk.inj (Except.ok.inj (run.symm.trans hran))
      exact ih.of_attempts hreach

/-- **Completion is a closure.** From every registry that occurs, if no layout needs itself, the
rounds have an end and none of them breaks down, whatever the orders are. In the end every struct
has the entry of its layout if it can be laid out, and is undefined otherwise; no id is missing, and
no entry is poisoned for another reason. The tables are those of any other orders but for the new
ids, and to complete them again changes nothing. The completion in the order of ids is a case. -/
theorem completion_isClosure (reached : ReflTransGen (Lowering.Uses x) .empty r)
    (calm : r.Calm x) :
    Acc (Function.swap (Completion.Round x)) (.start r) ∧
    (∀ c, Completion.Reaches x r c → ∀ order : List Nat, order.Perm c.waiting →
      ∃ r', (order.forM (visit x)).Ran c.types () r') ∧
    (∀ c, Completion.Reaches x r c → c.waiting = [] →
      r.Grows c.types ∧ c.types.Finished x ∧
      (∀ item, c.types.Has x item ↔ Demanded x r item) ∧
      (∀ c', Completion.Reaches x r c' → c'.waiting = [] →
        ∃ ρ, Renumbered ρ r.tables c.types.tables c'.types.tables) ∧
      (∀ c', Completion.Reaches x c.types c' → c'.types = c.types) ∧
      (finalize x).Ran c.types () c.types) ∧
    ∃ c, Completion.Reaches x r c ∧ c.waiting = [] ∧ (finalize x).Ran r () c.types := by
  have hr : r.Sound x fun _ => True := (Lowering.evolves_of_uses reached (.empty x _)).sound
  refine ⟨Completion.acc_start hr, fun c hc order horder => ?_, fun c hc hdone => ?_,
    exists_finalize_ran hr calm⟩
  · have hsound := (Completion.Reaches.inv hr hc).sound
    obtain ⟨r', hran, -⟩ := (Completion.Reaches.calm hr calm hc).exists_visits hsound fun id hid =>
      (Completion.mem_waiting.1 (horder.mem_iff.1 hid)).1
    exact ⟨r', hran⟩
  · have hinv := Completion.Reaches.inv hr hc
    have hclosed := hinv.isClosed hdone
    have hcalm := Completion.Reaches.calm hr calm hc
    refine ⟨hinv.grows, hclosed.finished hcalm, fun item => hinv.has_iff hdone,
      fun c' hc' hdone' => ?_, fun c' hc' => hclosed.eq_of_rounds hc', ?_⟩
    · have hinv' := Completion.Reaches.inv hr hc'
      refine exists_renumbered hclosed.toIsComplete (hinv'.isClosed hdone').toIsComplete
        (fun item => ?_) hr hinv.grows hinv'.grows
      rw [hinv.has_iff hdone, hinv'.has_iff hdone']
    · obtain ⟨c', hc', -, hran⟩ := exists_finalize_ran hclosed.sound hcalm
      rwa [hclosed.eq_of_rounds hc'] at hran

/-- Nodes with a pair in each, and a record that is refused after its array was registered. -/
def nodes : UnitIndex := { UnitIndex.empty with records := [
  ⟨"node", [⟨"next", .pointer (.record "node" [])⟩, ⟨"value", .record "pair" []⟩,
    ⟨"tag", .pointer (.record "hidden" [])⟩]⟩,
  ⟨"pair", [⟨"first", .integer 64⟩, ⟨"rows", .array (.integer 64) 3⟩]⟩,
  ⟨"odd", [⟨"values", .array (.integer 32) 4⟩, ⟨"flags", .integer 7⟩]⟩] }

/-- What is registered after handles to a node and to an odd record were asked for. -/
def nodesAndOdd : Registry := ⟨[⟨.record "node" [⟨"next", .pointer (.record "node" [])⟩,
    ⟨"value", .record "pair" []⟩, ⟨"tag", .pointer (.record "hidden" [])⟩], none⟩,
  ⟨.record "odd" [⟨"values", .array (.integer 32) 4⟩, ⟨"flags", .integer 7⟩], none⟩], []⟩

/-- The two array types change places if the odd record is visited first, and nothing else does. -/
theorem completion_nodes : ∃ c c', Completion.Reaches nodes nodesAndOdd c ∧ c.waiting = [] ∧
    Completion.Reaches nodes nodesAndOdd c' ∧ c'.waiting = [] ∧
    c.types.arrays = [(.signed64, 3), (.signed32, 4)] ∧
    c'.types.arrays = [(.signed32, 4), (.signed64, 3)] ∧
    ∃ ρ, Renumbered ρ nodesAndOdd.tables c.types.tables c'.types.tables := by
  have reached : ReflTransGen (Lowering.Uses nodes) .empty nodesAndOdd :=
    .head (.resolveHandle (show (resolveHandle nodes (.record "node" [])).runOn _ = _ from rfl))
      (.single (.resolveHandle (show (resolveHandle nodes (.record "odd" [])).runOn _ = _ from rfl)))
  have hr : nodesAndOdd.Sound nodes fun _ => True :=
    (Lowering.evolves_of_uses reached (.empty nodes _)).sound
  have calm : nodesAndOdd.Calm nodes := Registry.calm_of_forall hr (by decide)
  have ascending : Completion.Reaches nodes nodesAndOdd _ :=
    .head (.visits (by decide) (.refl _) rfl) (.single (.visits (by decide) (.refl _) rfl))
  have descending : Completion.Reaches nodes nodesAndOdd _ :=
    .head (.visits (by decide) (List.Perm.swap 1 2 []) rfl)
      (.single (.visits (by decide) (.refl _) rfl))
  refine ⟨_, _, ascending, ?_, descending, ?_, ?_, ?_, ?_⟩
  · rfl
  · rfl
  · rfl
  · rfl
  · exact ((completion_isClosure reached calm).2.2.1 _ ascending rfl).2.2.2.1 _ descending rfl

end GimpleLowering.Layout

import GimpleLowering.Proofs.Flo.Renaming
import GimpleLowering.Proofs.Layout.Finalization
import GimpleLowering.Proofs.Layout.Likeness
import GimpleLowering.Proofs.Layout.Tables

/-!
# Type tables that correspond

Two units can have the same records and need different ones, in a different order. When the types of
both are complete, the structs for a record are the same in both: they have the same fields, with
types that are alike, or neither of them has any. Types that are alike therefore have entries that
are alike, all the way down, and the ids of one side can be replaced by those of the other.

## Main definitions

* `Layout.Registry.IsComplete` — a sound registry in which everything is laid out that can be

## Main results

* `Layout.Registry.IsComplete.isLaidOut_iff` — which structs are laid out does not depend on the
  registry
* `Layout.exists_renaming` — types that are alike are renamed by one renaming
* `Layout.Registry.IsComplete.renamed` — objects that are made of drafts with types that are alike
  differ in nothing but ids
-/

namespace GimpleLowering

open Gimple

theorem Gimple.Ty.fields_of_isForwardRecord {ty : Ty} (h : ty.isForwardRecord) :
    ty.fields = [] := by
  unfold Ty.isForwardRecord at h
  split at h
  · rfl
  · cases h

namespace Layout

variable {x : UnitIndex} {r r' : Registry}

/-! ### Complete registries -/

/-- The registry is sound, and every struct in it is laid out that can be. -/
structure Registry.IsComplete (x : UnitIndex) (r : Registry) : Prop where
  sound : r.Sound x fun _ => True
  settled : ∀ s ∈ r.structs, s.Settled x

namespace Registry.IsComplete

/-- A struct is laid out if its record can be. -/
theorem isLaidOut_iff (h : r.IsComplete x) {id : Nat} {s : RecordStruct}
    (hs : r.struct? id = some s) : s.isLaidOut ↔ LayoutJudged x s.record (.ok ()) := by
  constructor
  · intro hl
    obtain ⟨slots, hslots⟩ := Option.isSome_iff_exists.1 hl
    exact (h.sound.laidOut hs hslots).judged
  · intro hj
    rcases h.settled s (Registry.mem_of_struct? hs) with hl | ho | ⟨e, he⟩
    · exact hl
    · exact absurd (Ty.fields_of_isForwardRecord ho) (checkDefined_eq_ok hj.checked).1
    · cases hj.unique he

variable (h : r.IsComplete x) (h' : r'.IsComplete x)

include h h'

/-- The structs for a record have the same entry, but for types that are alike. -/
theorem entry_alike {id id' : Nat} (hid : SameStruct r r' id id') :
    ∃ s s', r.tables.structs.get? id = some s ∧ r'.tables.structs.get? id' = some s' ∧
      List.Forall₂ (Alike r r') s.members s'.members ∧ s' = { s with members := s'.members } := by
  obtain ⟨record, hs, hs'⟩ := hid
  obtain ⟨s, hs, hr⟩ := Registry.struct?_of_structOf? hs
  obtain ⟨s', hs', hr'⟩ := Registry.struct?_of_structOf? hs'
  refine ⟨s.entry, s'.entry, Registry.get?_structs_tables hs, Registry.get?_structs_tables hs', ?_⟩
  have hiff : s.isLaidOut ↔ s'.isLaidOut := by
    rw [h.isLaidOut_iff hs, h'.isLaidOut_iff hs', hr, hr']
  cases hslots : s.slots with
  | none =>
    have hslots' : s'.slots = none := by simpa [RecordStruct.isLaidOut, hslots] using hiff
    simp only [RecordStruct.entry, hslots, hslots']
    exact ⟨.nil, trivial⟩
  | some slots =>
    have hl : s.isLaidOut := by rw [RecordStruct.isLaidOut, hslots, Option.isSome_some]
    obtain ⟨slots', hslots'⟩ := Option.isSome_iff_exists.1 (hiff.1 hl)
    have hl' := h'.sound.laidOut hs' hslots'
    rw [hr', ← hr] at hl'
    have halike := (h.sound.laidOut hs hslots).alike hl'
    have hnames : slots'.map Slot.name = slots.map Slot.name := by
      rw [← List.forall₂_eq_eq_eq, List.forall₂_map_left_iff, List.forall₂_map_right_iff]
      exact (halike.imp fun _ _ ha => ha.name.symm).flip
    simp only [RecordStruct.entry, hslots, hslots', hr, hr', hnames, and_true]
    rw [List.forall₂_map_left_iff, List.forall₂_map_right_iff]
    exact halike.imp fun _ _ ha => ha.typ

/-- What is made of drafts with types that are alike is linked. -/
theorem linked {d d' : Flo.Draft} (hd : d.Twins (Alike r r') d') :
    Flo.Object.Linked (Alike r r') { d.object with types := r.tables }
      { d'.object with types := r'.tables } := by
  refine ⟨hd.vars, hd.statements, ?_, fun htyp => ?_, fun htyp => ?_, fun htyp => ?_⟩
  · rw [hd.rest]
    rfl
  · cases htyp with
    | handle target => exact ⟨_, rfl, target⟩
  · cases htyp with
    | array members hi hi' =>
      exact ⟨_, _, _, rfl, Registry.get?_arrays_tables hi, Registry.get?_arrays_tables hi', members,
        rfl⟩
  · cases htyp with
    | struct hid =>
      obtain ⟨s, s', hs, hs', hmembers⟩ := h.entry_alike h' hid
      exact ⟨_, s, s', rfl, hs, hs', hmembers⟩

end Registry.IsComplete

/-! ### Renaming -/

/-- The ids of one registry can be replaced by those of another. -/
theorem exists_renaming (r r' : Registry) :
    ∃ ρ : Flo.Renaming, ∀ {typ typ' : Flo.Ty}, Alike r r' typ typ' → typ' = typ.rename ρ := by
  have hstruct : ∀ id, ∃ n, ∀ id', SameStruct r r' id id' → id' = n := fun id => by
    by_cases h : ∃ id', SameStruct r r' id id'
    · obtain ⟨n, hn⟩ := h
      exact ⟨n, fun id' hid => hid.unique hn⟩
    · exact ⟨0, fun id' hid => absurd ⟨id', hid⟩ h⟩
  have harray : ∀ id, ∃ n, ∀ id', Alike r r' (.array id) (.array id') → id' = n := fun id => by
    by_cases h : ∃ id', Alike r r' (.array id) (.array id')
    · obtain ⟨n, hn⟩ := h
      exact ⟨n, fun id' hid => Flo.Ty.array.inj (hid.unique hn)⟩
    · exact ⟨0, fun id' hid => absurd ⟨id', hid⟩ h⟩
  choose structs hstructs using hstruct
  choose arrays harrays using harray
  refine ⟨⟨structs, arrays⟩, fun {typ typ'} h => ?_⟩
  induction h with
  | bool | signed32 | signed64 | double | unspecified => rfl
  | struct hid => exact congrArg Flo.Ty.struct (hstructs _ _ hid)
  | array members hi hi' => exact congrArg Flo.Ty.array (harrays _ _ (.array members hi hi'))
  | handle _ ih => exact congrArg (Flo.Ty.handle · _) ih

/-- What is made of drafts with types that are alike differs in nothing but the ids of types. -/
theorem Registry.IsComplete.renamed (h : r.IsComplete x) (h' : r'.IsComplete x) {d d' : Flo.Draft}
    (hd : d.Twins (Alike r r') d') :
    ∃ ρ, Flo.Object.Renamed ρ { d.object with types := r.tables }
      { d'.object with types := r'.tables } := by
  obtain ⟨ρ, hρ⟩ := exists_renaming r r'
  have hflip : Alike r' r = fun typ typ' => Alike r r' typ' typ := by
    funext typ typ'
    exact propext ⟨Alike.symm, Alike.symm⟩
  have hlinked' := h'.linked h (hd.symm fun _ _ => Alike.symm)
  rw [hflip] at hlinked'
  exact ⟨ρ, (h.linked h' hd).renamed hlinked' hρ fun ha hb => ha.symm.unique hb.symm⟩

end Layout

end GimpleLowering

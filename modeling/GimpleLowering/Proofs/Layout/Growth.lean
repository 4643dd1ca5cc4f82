import GimpleLowering.Layout.Representation
import GimpleLowering.Proofs.Layout.Completion
import Mathlib.Data.List.Basic
import Mathlib.Tactic.Common

/-!
# Registries that grow

Types are registered while functions are lowered, so the same type is represented at many moments,
with different registries. Nothing that was handed out ever changes: a registry only grows
(`Registry.Grows`). What a type is represented by is therefore said of a registry at rest
(`Represents`), without the computation that registers, and it stays true as the registry grows.

## Main definitions

* `Layout.Registry.Grows` — one registry continues another
* `Layout.Registry.Covers` — a runtime type whose ids were handed out
* `Layout.Represents` — the representation of a type in a registry

## Main results

* `Layout.Represents.mono` — a representation stays
* `Layout.Represents.unique` — there is only one
* `Layout.Represents.congr` — types with the same expansion have the same representation
-/

namespace GimpleLowering.Layout

open Gimple

/-! ### Growth -/

/-- The second registry continues the first: structs keep their ids and their records, layouts that
are known stay, and array types keep their ids. -/
structure Registry.Grows (r r' : Registry) : Prop where
  structs : ∀ {i : Nat} {s : RecordStruct}, r.structs[i]? = some s →
    ∃ s', r'.structs[i]? = some s' ∧ s'.record = s.record ∧
      ∀ slots, s.slots = some slots → s'.slots = some slots
  arrays : r.arrays <+: r'.arrays

namespace Registry.Grows

theorem refl (r : Registry) : r.Grows r :=
  ⟨fun h => ⟨_, h, rfl, fun _ h => h⟩, List.prefix_rfl⟩

theorem trans {r₁ r₂ r₃ : Registry} (h : r₁.Grows r₂) (h' : r₂.Grows r₃) : r₁.Grows r₃ := by
  refine ⟨fun hs => ?_, h.arrays.trans h'.arrays⟩
  obtain ⟨s₂, hs₂, hr₂, hl₂⟩ := h.structs hs
  obtain ⟨s₃, hs₃, hr₃, hl₃⟩ := h'.structs hs₂
  exact ⟨s₃, hs₃, hr₃.trans hr₂, fun slots hl => hl₃ slots (hl₂ slots hl)⟩

variable {r r' : Registry}

theorem length_structs_le (h : r.Grows r') : r.structs.length ≤ r'.structs.length := by
  by_contra hlt
  have hi : r'.structs.length < r.structs.length := Nat.lt_of_not_le hlt
  obtain ⟨s, hs, -⟩ := h.structs (List.getElem?_eq_getElem hi)
  simp at hs

theorem length_arrays_le (h : r.Grows r') : r.arrays.length ≤ r'.arrays.length :=
  h.arrays.length_le

/-- A record keeps its struct. -/
theorem structOf? (h : r.Grows r') {record : Ty} {id : Nat} (hid : r.structOf? record = some id) :
    r'.structOf? record = some id := by
  obtain ⟨i, hi, rfl⟩ := Option.map_eq_some_iff.1 hid
  obtain ⟨hlt, hp, hne⟩ := List.findIdx?_eq_some_iff_getElem.1 hi
  refine Option.map_eq_some_iff.2 ⟨i, List.findIdx?_eq_some_iff_getElem.2 ?_, rfl⟩
  have key : ∀ {j : Nat} (hj : j < r.structs.length),
      ∃ hj' : j < r'.structs.length, r'.structs[j].record = r.structs[j].record := by
    intro j hj
    obtain ⟨s, hs, hr, -⟩ := h.structs (List.getElem?_eq_getElem hj)
    obtain ⟨hj', rfl⟩ := List.getElem?_eq_some_iff.1 hs
    exact ⟨hj', hr⟩
  obtain ⟨hi', hri⟩ := key hlt
  refine ⟨hi', by rwa [hri], fun j hj => ?_⟩
  obtain ⟨hj', hrj⟩ := key (Nat.lt_trans hj hlt)
  rw [hrj]
  exact hne j hj

/-- A struct keeps its layout. -/
theorem struct?_slots (h : r.Grows r') {id : Nat} {s : RecordStruct} {slots : List Slot}
    (hs : r.struct? id = some s) (hl : s.slots = some slots) :
    ∃ s', r'.struct? id = some s' ∧ s'.record = s.record ∧ s'.slots = some slots := by
  cases id with
  | zero => simp at hs
  | succ i =>
    obtain ⟨s', hs', hr, hsl⟩ := h.structs hs
    exact ⟨s', hs', hr, hsl slots hl⟩

theorem struct? (h : r.Grows r') {id : Nat} {s : RecordStruct} (hs : r.struct? id = some s) :
    ∃ s', r'.struct? id = some s' ∧ s'.record = s.record := by
  cases id with
  | zero => simp at hs
  | succ i =>
    obtain ⟨s', hs', hr, -⟩ := h.structs hs
    exact ⟨s', hs', hr⟩

/-- An array type keeps its id. -/
theorem arrayOf? (h : r.Grows r') {a : Flo.Ty × Nat} {i : Nat}
    (hi : r.arrays.findIdx? (fun b => b = a) = some i) :
    r'.arrays.findIdx? (fun b => b = a) = some i := by
  obtain ⟨rest, hrest⟩ := h.arrays
  rw [← hrest, List.findIdx?_append, hi]
  rfl

end Registry.Grows

/-! ### Structs by id -/

/-- The fields of the struct are known. -/
def Registry.Knows (r : Registry) (id : Nat) (slots : List Slot) : Prop :=
  ∃ s, r.struct? id = some s ∧ s.slots = some slots

theorem Registry.Knows.mono {r r' : Registry} {id : Nat} {slots : List Slot}
    (hk : r.Knows id slots) (h : r.Grows r') : r'.Knows id slots := by
  obtain ⟨s, hs, hl⟩ := hk
  obtain ⟨s', hs', -, hl'⟩ := h.struct?_slots hs hl
  exact ⟨s', hs', hl'⟩

theorem Registry.Knows.unique {r : Registry} {id : Nat} {slots slots' : List Slot}
    (h : r.Knows id slots) (h' : r.Knows id slots') : slots = slots' := by
  obtain ⟨s, hs, hl⟩ := h
  obtain ⟨s', hs', hl'⟩ := h'
  obtain rfl : s = s' := Option.some.inj (hs.symm.trans hs')
  exact Option.some.inj (hl.symm.trans hl')

/-- A record is found under the id of its struct. -/
theorem Registry.struct?_of_structOf? {r : Registry} {record : Ty} {id : Nat}
    (h : r.structOf? record = some id) : ∃ s, r.struct? id = some s ∧ s.record = record := by
  obtain ⟨i, hi, rfl⟩ := Option.map_eq_some_iff.1 h
  obtain ⟨hlt, hp, -⟩ := List.findIdx?_eq_some_iff_getElem.1 hi
  exact ⟨r.structs[i], by simp [hlt], by simpa using hp⟩

theorem Registry.structOf?_bounds {r : Registry} {record : Ty} {id : Nat}
    (h : r.structOf? record = some id) : 0 < id ∧ id ≤ r.structs.length := by
  obtain ⟨i, hi, rfl⟩ := Option.map_eq_some_iff.1 h
  obtain ⟨hlt, -⟩ := List.findIdx?_eq_some_iff_getElem.1 hi
  omega

/-! ### Types with registered ids -/

/-- The ids in a runtime type are those of registered types. -/
def Registry.Covers (r : Registry) : Flo.Ty → Prop
  | .array id => 0 < id ∧ id ≤ r.arrays.length
  | .struct id => 0 < id ∧ id ≤ r.structs.length
  | .handle pointee _ => r.Covers pointee
  | .bool | .signed32 | .signed64 | .double | .unspecified => True

theorem Registry.Covers.mono {r r' : Registry} {typ : Flo.Ty} (h : r.Covers typ)
    (hg : r.Grows r') : r'.Covers typ := by
  induction typ with
  | array id => exact ⟨h.1, Nat.le_trans h.2 hg.length_arrays_le⟩
  | struct id => exact ⟨h.1, Nat.le_trans h.2 hg.length_structs_le⟩
  | handle pointee nullable ih => exact ih h
  | bool | signed32 | signed64 | double | unspecified => trivial

theorem Registry.covers_of_isInteger (r : Registry) {typ : Flo.Ty} (h : typ.isInteger) :
    r.Covers typ := by
  cases typ with
  | signed32 | signed64 => trivial
  | _ => cases h

/-! ### Representations at rest -/

/-- The representation of a type in a registry. A record by value has to be laid out; a record
behind a pointer has to be registered. -/
inductive Represents (x : UnitIndex) (r : Registry) : Ty → Representation → Prop where
  | integer32 : Represents x r (.integer 32) (.primitive .signed32)
  | integer64 : Represents x r (.integer 64) (.primitive .signed64)
  | real : Represents x r (.real 64) (.primitive .double)
  | boolean : Represents x r .boolean (.primitive .bool)
  | record {ty : Ty} {id : Nat} {slots : List Slot} (isRecord : ty.isRecord)
      (registered : r.structOf? (x.complete ty) = some id) (known : r.Knows id slots) :
      Represents x r ty (.record id)
  | array {base : Ty} {length i : Nat} {member : Representation}
      (memberType : Represents x r base member)
      (registered : r.arrays.findIdx? (fun a => a = (member.valueType, length)) = some i) :
      Represents x r (.array base length) (.array (i + 1))
  | recordHandle {ty base : Ty} {id : Nat} (indirect : ty.indirectBase = some base)
      (isRecord : base.isRecord) (registered : r.structOf? (x.complete base) = some id) :
      Represents x r ty (.recordHandle id ty.isNullable)
  | cell {ty base : Ty} {pointee : Representation} (indirect : ty.indirectBase = some base)
      (noRecord : base.isRecord = false) (direct : base.isIndirect = false)
      (target : Represents x r base pointee) :
      Represents x r ty (.cell pointee.valueType ty.isNullable)

namespace Represents

variable {x : UnitIndex} {r r' : Registry} {ty : Ty} {rep : Representation}

/-- A representation stays as the registry grows. -/
theorem mono (h : Represents x r ty rep) (hg : r.Grows r') : Represents x r' ty rep := by
  induction h with
  | integer32 => exact .integer32
  | integer64 => exact .integer64
  | real => exact .real
  | boolean => exact .boolean
  | record isRecord registered known =>
    exact .record isRecord (hg.structOf? registered) (known.mono hg)
  | array _ registered ih => exact .array ih (hg.arrayOf? registered)
  | recordHandle indirect isRecord registered =>
    exact .recordHandle indirect isRecord (hg.structOf? registered)
  | cell indirect noRecord direct _ ih => exact .cell indirect noRecord direct ih

/-- The ids in a representation were handed out. -/
theorem covers (h : Represents x r ty rep) : r.Covers rep.valueType := by
  induction h with
  | integer32 | integer64 | real | boolean => trivial
  | record isRecord registered => exact Registry.structOf?_bounds registered
  | array memberType registered =>
    obtain ⟨hlt, -⟩ := List.findIdx?_eq_some_iff_getElem.1 registered
    exact ⟨Nat.succ_pos _, hlt⟩
  | recordHandle indirect isRecord registered => exact Registry.structOf?_bounds registered
  | cell indirect noRecord direct target ih => exact ih

/-- A type has one representation. -/
theorem unique (h : Represents x r ty rep) {rep' : Representation}
    (h' : Represents x r ty rep') : rep = rep' := by
  induction h generalizing rep' with
  | integer32 => cases h' <;> first | rfl | simp_all [Ty.isRecord, Ty.indirectBase]
  | integer64 => cases h' <;> first | rfl | simp_all [Ty.isRecord, Ty.indirectBase]
  | real => cases h' <;> first | rfl | simp_all [Ty.isRecord, Ty.indirectBase]
  | boolean => cases h' <;> first | rfl | simp_all [Ty.isRecord, Ty.indirectBase]
  | @record ty id slots isRecord registered known =>
    cases h' with
    | record isRecord' registered' known' =>
      rw [registered, Option.some.injEq] at registered'
      rw [registered']
    | recordHandle indirect => cases ty <;> simp [Ty.isRecord, Ty.indirectBase] at isRecord indirect
    | cell indirect => cases ty <;> simp [Ty.isRecord, Ty.indirectBase] at isRecord indirect
    | _ => simp [Ty.isRecord] at isRecord
  | @array base length i member memberType registered ih =>
    cases h' with
    | array memberType' registered' =>
      obtain rfl := ih memberType'
      rw [registered, Option.some.injEq] at registered'
      rw [registered']
    | record isRecord => simp [Ty.isRecord] at isRecord
    | recordHandle indirect => simp [Ty.indirectBase] at indirect
    | cell indirect => simp [Ty.indirectBase] at indirect
  | @recordHandle ty base id indirect isRecord registered =>
    cases h' with
    | recordHandle indirect' isRecord' registered' =>
      rw [indirect, Option.some.injEq] at indirect'
      subst indirect'
      rw [registered, Option.some.injEq] at registered'
      rw [registered']
    | cell indirect' noRecord =>
      rw [indirect, Option.some.injEq] at indirect'
      subst indirect'
      rw [isRecord] at noRecord
      cases noRecord
    | record isRecord' => cases ty <;> simp [Ty.isRecord, Ty.indirectBase] at isRecord' indirect
    | _ => simp [Ty.indirectBase] at indirect
  | @cell ty base pointee indirect noRecord direct target ih =>
    cases h' with
    | cell indirect' _ _ target' =>
      rw [indirect, Option.some.injEq] at indirect'
      subst indirect'
      rw [ih target']
    | recordHandle indirect' isRecord =>
      rw [indirect, Option.some.injEq] at indirect'
      subst indirect'
      rw [noRecord] at isRecord
      cases isRecord
    | record isRecord' => cases ty <;> simp [Ty.isRecord, Ty.indirectBase] at isRecord' indirect
    | _ => simp [Ty.indirectBase] at indirect

/-- Types with the same expansion have the same representation. -/
theorem congr {ty' : Ty} (h : Represents x r ty rep) (he : x.expand ty = x.expand ty') :
    Represents x r ty' rep := by
  have hk : ty.kind = ty'.kind := by
    rw [← UnitIndex.kind_expand (x := x) ty, he, UnitIndex.kind_expand]
  induction h generalizing ty' with
  | integer32 =>
    cases ty' <;> simp only [Ty.kind, reduceCtorEq] at hk
    simp only [UnitIndex.expand_integer, Ty.integer.injEq] at he
    exact he ▸ .integer32
  | integer64 =>
    cases ty' <;> simp only [Ty.kind, reduceCtorEq] at hk
    simp only [UnitIndex.expand_integer, Ty.integer.injEq] at he
    exact he ▸ .integer64
  | real =>
    cases ty' <;> simp only [Ty.kind, reduceCtorEq] at hk
    simp only [UnitIndex.expand_real, Ty.real.injEq] at he
    exact he ▸ .real
  | boolean =>
    cases ty' <;> simp only [Ty.kind, reduceCtorEq] at hk
    exact .boolean
  | @record ty id slots isRecord registered known =>
    have hr : ty'.isRecord := (UnitIndex.isRecord_of_expand_eq he).symm.trans isRecord
    refine .record hr ?_ known
    rw [← UnitIndex.complete_eq_of_expand_eq he isRecord]
    exact registered
  | @array base length i member memberType registered ih =>
    cases ty' <;> simp only [Ty.kind, reduceCtorEq] at hk
    simp only [UnitIndex.expand_array, Ty.array.injEq] at he
    exact he.2 ▸ .array (ih he.1 (UnitIndex.kind_eq_of_expand_eq he.1)) registered
  | @recordHandle ty base id indirect isRecord registered =>
    obtain ⟨base', hb, hn, hbase⟩ := UnitIndex.indirectBase_of_expand_eq he indirect
    have hr : base'.isRecord := (UnitIndex.isRecord_of_expand_eq hbase).symm.trans isRecord
    rw [hn]
    refine .recordHandle hb hr ?_
    rw [← UnitIndex.complete_eq_of_expand_eq hbase isRecord]
    exact registered
  | @cell ty base pointee indirect noRecord direct target ih =>
    obtain ⟨base', hb, hn, hbase⟩ := UnitIndex.indirectBase_of_expand_eq he indirect
    have hk' := UnitIndex.kind_eq_of_expand_eq hbase
    rw [hn]
    refine .cell hb ?_ ?_ (ih hbase hk')
    · rw [← UnitIndex.isRecord_of_expand_eq hbase, noRecord]
    · rw [← UnitIndex.isIndirect_of_kind_eq hk', direct]

/-- What a pointer or reference points to has the type of what it is represented by. -/
theorem pointee {base : Ty} {rep' : Representation} (h : Represents x r ty rep)
    (hb : ty.indirectBase = some base) (h' : Represents x r base rep') :
    rep.valueType = .handle rep'.valueType ty.isNullable := by
  cases h with
  | recordHandle indirect isRecord registered =>
    obtain rfl := Option.some.inj (hb.symm.trans indirect)
    cases h' with
    | record _ registered' =>
      obtain rfl := Option.some.inj (registered.symm.trans registered')
      rfl
    | recordHandle indirect' => cases base <;> simp [Ty.isRecord, Ty.indirectBase] at isRecord indirect'
    | cell indirect' => cases base <;> simp [Ty.isRecord, Ty.indirectBase] at isRecord indirect'
    | _ => simp [Ty.isRecord] at isRecord
  | cell indirect noRecord direct target =>
    obtain rfl := Option.some.inj (hb.symm.trans indirect)
    rw [target.unique h']
    rfl
  | record isRecord => cases ty <;> simp [Ty.isRecord, Ty.indirectBase] at isRecord hb
  | _ => simp [Ty.indirectBase] at hb

end Represents

/-- The runtime type of the values of a type. -/
def HasValueType (x : UnitIndex) (r : Registry) (ty : Ty) (typ : Flo.Ty) : Prop :=
  ∃ rep, Represents x r ty rep ∧ typ = rep.valueType

namespace HasValueType

variable {x : UnitIndex} {r r' : Registry} {ty ty' : Ty} {typ typ' : Flo.Ty}

theorem mono (h : HasValueType x r ty typ) (hg : r.Grows r') : HasValueType x r' ty typ := by
  obtain ⟨rep, hrep, heq⟩ := h
  exact ⟨rep, hrep.mono hg, heq⟩

theorem unique (h : HasValueType x r ty typ) (h' : HasValueType x r ty typ') : typ = typ' := by
  obtain ⟨rep, hrep, rfl⟩ := h
  obtain ⟨rep', hrep', rfl⟩ := h'
  rw [hrep.unique hrep']

theorem congr (h : HasValueType x r ty typ) (he : x.expand ty = x.expand ty') :
    HasValueType x r ty' typ := by
  obtain ⟨rep, hrep, heq⟩ := h
  exact ⟨rep, hrep.congr he, heq⟩

/-- The runtime has reals of one width only. -/
theorem eq_double {width : Nat} (h : HasValueType x r (.real width) typ) : typ = .double := by
  obtain ⟨rep, hrep, rfl⟩ := h
  cases hrep with
  | real => rfl
  | record isRecord => simp [Ty.isRecord] at isRecord
  | recordHandle indirect => simp [Ty.indirectBase] at indirect
  | cell indirect => simp [Ty.indirectBase] at indirect

/-- Integers are represented by the integers of the runtime. -/
theorem isInteger (h : HasValueType x r ty typ) (hty : ty.isIntegral) : typ.isInteger := by
  obtain ⟨rep, hrep, rfl⟩ := h
  cases hrep with
  | integer32 => rfl
  | integer64 => rfl
  | record isRecord => cases ty <;> simp [Ty.isRecord, Ty.isIntegral] at isRecord hty
  | recordHandle indirect => cases ty <;> simp [Ty.indirectBase, Ty.isIntegral] at indirect hty
  | cell indirect => cases ty <;> simp [Ty.indirectBase, Ty.isIntegral] at indirect hty
  | _ => simp [Ty.isIntegral] at hty

end HasValueType

end GimpleLowering.Layout

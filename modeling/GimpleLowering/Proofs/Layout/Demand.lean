import GimpleLowering.Proofs.Layout.Support
import GimpleLowering.Proofs.Layout.Tables

/-!
# What a computation on types registers

A computation on types registers structs for records and array types for arrays, whether it ends
well or is refused. Which ones these are can be said without a registry: representing a type demands
the record or the array that it mentions, and laying out a record demands what its fields demand, up
to the first field that is not supported. What is registered after a computation is what was
registered before it and what was demanded, no more and no less. So it does not matter how much of a
layout was known already, and the order of computations does not matter either.

## Main definitions

* `Layout.Registry.Has` — the record or the array has an id
* `Layout.Demands`, `LayoutDemands` — what representing a type and laying out a record registers
* `Layout.Adds` — what is registered from one moment to another

## Main results

* `Layout.representWith_adds`, `slotsOf_adds` — computations register exactly what is demanded
-/

namespace GimpleLowering.Layout

open Gimple

variable {x : UnitIndex} {r r' r₁ r₂ : Registry} {item : Ty} {typ : Flo.Ty}

/-! ### Records and arrays with ids -/

/-- The record has the struct, or the array has the array type. -/
inductive Registered (x : UnitIndex) (r : Registry) : Ty → Flo.Ty → Prop where
  | struct {record : Ty} {id : Nat} (h : r.structOf? record = some id) :
      Registered x r record (.struct id)
  | array {base : Ty} {length id : Nat} (h : Represents x r (.array base length) (.array id)) :
      Registered x r (.array base length) (.array id)

/-- The record or the array has an id. -/
def Registry.Has (x : UnitIndex) (r : Registry) (item : Ty) : Prop := ∃ typ, Registered x r item typ

theorem Registered.mono (h : Registered x r item typ) (hg : r.Grows r') :
    Registered x r' item typ := by
  cases h with
  | struct h => exact .struct (hg.structOf? h)
  | array h => exact .array (h.mono hg)

theorem Registry.Has.mono (h : r.Has x item) (hg : r.Grows r') : r'.Has x item := by
  obtain ⟨typ, h⟩ := h
  exact ⟨typ, h.mono hg⟩

theorem Registered.covers (h : Registered x r item typ) : r.Covers typ := by
  cases h with
  | struct h => exact Registry.structOf?_bounds h
  | array h => exact h.covers

/-- An id that was handed out before was handed out for what has it now. -/
theorem Registered.of_covers (h : Registered x r' item typ) (hs : r.Sound x fun _ => True)
    (hs' : r'.Sound x fun _ => True) (hg : r.Grows r') (hc : r.Covers typ) :
    Registered x r item typ := by
  cases h with
  | @struct record id h =>
    obtain ⟨hpos, hle⟩ := hc
    obtain ⟨i, rfl⟩ := Nat.exists_eq_succ_of_ne_zero (Nat.pos_iff_ne_zero.1 hpos)
    have hi : r.structs[i]? = some r.structs[i] := List.getElem?_eq_getElem hle
    obtain ⟨s', hs', hrecord, -⟩ := hg.structs hi
    obtain ⟨t, ht, rfl⟩ := Registry.struct?_of_structOf? h
    rw [Registry.struct?_succ, hs', Option.some.injEq] at ht
    refine .struct (hs.structOf?_eq_some_iff.2 ?_)
    rw [hi, Option.map_some, ← hrecord, ht]
  | @array base length id h =>
    cases h with
    | @array _ _ i member memberType registered =>
      obtain ⟨-, hle⟩ := hc
      have hi' := (findIdx?_eq_some_iff_of_nodup hs'.arrays_nodup).1 registered
      have hi : r.arrays[i]? = some (member.valueType, length) := by
        obtain ⟨rest, hrest⟩ := hg.arrays
        rwa [← hrest, List.getElem?_append_left hle] at hi'
      -- The members represented some type then, and it has the same expansion as this one.
      obtain ⟨base₀, rep₀, -, hrep₀, heq⟩ :=
        (hs.member _ (List.mem_of_getElem? hi)).resolve_left not_false
      have hexpand := (hrep₀.mono hg).expand_eq memberType heq.symm
      rw [show member.valueType = rep₀.valueType from heq] at hi
      exact .array (.array (hrep₀.congr hexpand)
        ((findIdx?_eq_some_iff_of_nodup hs.arrays_nodup).2 hi))

/-! ### Registration -/

/-- What is registered from the first moment to the second one is the set `T`. -/
def Adds (x : UnitIndex) (T : Ty → Prop) (r r' : Registry) : Prop :=
  ∀ item, r'.Has x item ↔ r.Has x item ∨ T item

namespace Adds

variable {T T' : Ty → Prop}

theorem nothing (hT : ∀ item, ¬ T item) : Adds x T r r :=
  fun item => (or_iff_left (hT item)).symm

/-- Nothing is added by what is registered anyway. -/
theorem known (hT : ∀ item, T item → r.Has x item) : Adds x T r r :=
  fun item => (or_iff_left_of_imp (hT item)).symm

theorem congr (h : Adds x T r r') (hT : ∀ item, T item ↔ T' item) : Adds x T' r r' :=
  fun item => by rw [h item, hT item]

theorem trans (h : Adds x T r r₁) (h' : Adds x T' r₁ r₂) :
    Adds x (fun item => T item ∨ T' item) r r₂ :=
  fun item => by rw [h' item, h item, or_assoc]

end Adds

theorem registerStruct_adds {record : Ty} (hs : r.Sound x fun _ => True) (hr : record.isRecord)
    (hc : x.complete record = record) :
    Adds x (fun item => item = record) r (r.registerStruct record).2 := by
  have he : Evolved x (fun _ => True) [] r _ := registerStruct_evolves trivial hr hc hs
  have hnew : (r.registerStruct record).2.Has x record :=
    ⟨_, .struct (r.structOf?_registerStruct record)⟩
  intro item
  refine ⟨?_, fun h => h.elim (fun h => h.mono he.grows) fun h => h ▸ hnew⟩
  rintro ⟨typ, h⟩
  by_cases hcovers : r.Covers typ
  · exact .inl ⟨typ, h.of_covers hs he.sound he.grows hcovers⟩
  have hcovers' := h.covers
  cases h with
  | @struct record' id h =>
    obtain ⟨s, hid, rfl⟩ := Registry.struct?_of_structOf? h
    unfold Registry.registerStruct at hid hcovers'
    cases hreg : r.structOf? record with
    | some _ =>
      rw [hreg] at hcovers'
      exact absurd hcovers' hcovers
    | none =>
      rw [hreg] at hid
      rcases Registry.struct?_append hid with hid | rfl
      · refine absurd ?_ hcovers
        obtain _ | i := id
        · cases hid
        · exact ⟨i.succ_pos, (List.getElem?_eq_some_iff.1 hid).1⟩
      · exact .inr rfl
  | array h =>
    refine absurd ?_ hcovers
    unfold Registry.registerStruct at hcovers'
    cases hreg : r.structOf? record <;> rw [hreg] at hcovers' <;> exact hcovers'

theorem registerArray_adds {base : Ty} {length : Nat} {rep : Representation}
    (hs : r.Sound x fun _ => True) (hrep : Represents x r base rep) :
    Adds x (fun item => ∃ base', item = .array base' length ∧ x.expand base = x.expand base') r
      (r.registerArray rep.valueType length).2 := by
  have he : Evolved x (fun _ => True) [] r (r.registerArray rep.valueType length).2 :=
    registerArray_evolves trivial hrep hs
  obtain ⟨i, -, hfind⟩ := r.arrayOf?_registerArray rep.valueType length
  intro item
  constructor
  · rintro ⟨typ, h⟩
    by_cases hcovers : r.Covers typ
    · exact .inl ⟨typ, h.of_covers hs he.sound he.grows hcovers⟩
    have hcovers' := h.covers
    unfold Registry.registerArray at he hcovers' hfind h
    cases hreg : r.arrays.findIdx? fun a => a = (rep.valueType, length) with
    | some _ =>
      rw [hreg] at hcovers'
      exact absurd hcovers' hcovers
    | none =>
      rw [hreg] at he hcovers' h
      cases h with
      | struct h => exact absurd hcovers' hcovers
      | @array base' length' id h =>
        cases h with
        | @array _ _ j member memberType registered =>
          -- The id is the new one, so the members are those that were asked for.
          have hj : j = r.arrays.length := by
            have hlt := (List.findIdx?_eq_some_iff_getElem.1 registered).1
            have hnot : ¬ j + 1 ≤ r.arrays.length := fun hle => hcovers ⟨j.succ_pos, hle⟩
            rw [List.length_append, List.length_singleton] at hlt
            omega
          have hlast := (findIdx?_eq_some_iff_of_nodup he.sound.arrays_nodup).1 registered
          rw [hj, List.getElem?_concat_length, Option.some.injEq] at hlast
          obtain ⟨hmember, rfl⟩ := Prod.mk.inj hlast
          exact .inr ⟨base', rfl, (hrep.mono he.grows).expand_eq memberType hmember⟩
  · rintro (h | ⟨base', rfl, hexpand⟩)
    · exact h.mono he.grows
    · exact ⟨_, .array (.array ((hrep.mono he.grows).congr hexpand) hfind)⟩

theorem publish_adds {T : Ty → Prop} {id : Nat} {slots : List Slot}
    (hs : r.Sound x fun _ => True) (he : Evolved x (fun _ => True) [] r (r.publish id slots))
    (hT : ∀ item, ¬ T item) : Adds x T r (r.publish id slots) := by
  intro item
  refine ⟨?_, fun h => h.elim (fun h => h.mono he.grows) fun h => absurd h (hT item)⟩
  rintro ⟨typ, h⟩
  have hlength : (r.publish id slots).structs.length = r.structs.length := by
    have hrecords := congrArg List.length (r.records_publish id slots)
    rwa [List.length_map, List.length_map] at hrecords
  refine .inl ⟨typ, h.of_covers hs he.sound he.grows ?_⟩
  have hcovers := h.covers
  cases h with
  | struct =>
    rw [Registry.Covers, hlength] at hcovers
    exact hcovers
  | array => exact hcovers

/-! ### Demands -/

mutual

/-- Representing the type registers the item. -/
inductive Demands (x : UnitIndex) : Ty → Ty → Prop where
  | struct {ty : Ty} (isRecord : ty.isRecord)
      (contained : x.checkContained (x.complete ty) = .ok ()) : Demands x ty (x.complete ty)
  | layout {ty item : Ty} (isRecord : ty.isRecord)
      (contained : x.checkContained (x.complete ty) = .ok ())
      (h : LayoutDemands x (x.complete ty) item) : Demands x ty item
  | member {base item : Ty} {length : Nat} (h : Demands x base item) :
      Demands x (.array base length) item
  /-- Arrays have the same array type if their members have the same expansion. -/
  | array {base base' : Ty} {length : Nat} (supported : Supported x base)
      (same : x.expand base = x.expand base') :
      Demands x (.array base length) (.array base' length)
  | handle {ty base : Ty} (indirect : ty.indirectBase = some base) (isRecord : base.isRecord) :
      Demands x ty (x.complete base)
  | target {ty base item : Ty} (indirect : ty.indirectBase = some base)
      (noRecord : base.isRecord = false) (direct : base.isIndirect = false)
      (h : Demands x base item) : Demands x ty item

/-- Laying out the record registers the item. -/
inductive LayoutDemands (x : UnitIndex) : Ty → Ty → Prop where
  | fields {record item : Ty} (defined : checkDefined x record = .ok ())
      (h : FieldsDemand x record.fields item) : LayoutDemands x record item

/-- Representing the types of the fields registers the item. It stops at a type that is not
supported. -/
inductive FieldsDemand (x : UnitIndex) : List Field → Ty → Prop where
  | head {f : Field} {rest : List Field} {item : Ty} (h : Demands x f.ty item) :
      FieldsDemand x (f :: rest) item
  | tail {f : Field} {rest : List Field} {item : Ty} (supported : Supported x f.ty)
      (h : FieldsDemand x rest item) : FieldsDemand x (f :: rest) item

end

theorem layoutDemands_iff {record : Ty} (h : checkDefined x record = .ok ()) :
    LayoutDemands x record item ↔ FieldsDemand x record.fields item :=
  ⟨fun hd => by cases hd; assumption, .fields h⟩

theorem demands_record_iff {name : String} {fields : List Field}
    (h : x.checkContained (x.complete (.record name fields)) = .ok ()) :
    Demands x (.record name fields) item ↔
      item = x.complete (.record name fields) ∨
        LayoutDemands x (x.complete (.record name fields)) item := by
  constructor
  · intro hd
    cases hd with
    | struct => exact .inl rfl
    | layout _ _ hd => exact .inr hd
    | handle indirect | target indirect => cases indirect
  · rintro (rfl | hd)
    · exact .struct rfl h
    · exact .layout rfl h hd

theorem demands_array_iff {base : Ty} {length : Nat} (h : Supported x base) :
    Demands x (.array base length) item ↔ Demands x base item ∨
      ∃ base', item = .array base' length ∧ x.expand base = x.expand base' := by
  constructor
  · intro hd
    cases hd with
    | member hd => exact .inl hd
    | array _ same => exact .inr ⟨_, rfl, same⟩
    | struct isRecord | layout isRecord => cases isRecord
    | handle indirect | target indirect => cases indirect
  · rintro (hd | ⟨base', rfl, same⟩)
    · exact .member hd
    · exact .array h same

theorem demands_array_iff_of_not {base : Ty} {length : Nat} (h : ¬ Supported x base) :
    Demands x (.array base length) item ↔ Demands x base item := by
  refine ⟨fun hd => ?_, .member⟩
  cases hd with
  | member hd => exact hd
  | array supported => exact absurd supported h
  | struct isRecord | layout isRecord => cases isRecord
  | handle indirect | target indirect => cases indirect

/-- What a pointer or a reference demands depends on what it refers to. -/
theorem demands_indirect_iff {ty base : Ty} (hb : ty.indirectBase = some base) :
    Demands x ty item ↔ if base.isRecord then item = x.complete base
      else if base.isIndirect then False else Demands x base item := by
  constructor
  · intro hd
    cases hd with
    | handle indirect isRecord =>
      obtain rfl := Option.some.inj (hb.symm.trans indirect)
      rw [if_pos isRecord]
    | target indirect noRecord direct h =>
      obtain rfl := Option.some.inj (hb.symm.trans indirect)
      rwa [if_neg (by simp [noRecord]), if_neg (by simp [direct])]
    | struct isRecord | layout isRecord =>
      rw [Ty.not_isRecord_of_indirect hb] at isRecord
      cases isRecord
    | member | array => cases hb
  · intro h
    split at h
    · rename_i hr
      exact h ▸ .handle hb hr
    · rename_i hr
      split at h
      · exact h.elim
      · rename_i hi
        exact .target hb (by simpa using hr) (by simpa using hi) h

theorem fieldsDemand_cons_iff {f : Field} {rest : List Field} (h : Supported x f.ty) :
    FieldsDemand x (f :: rest) item ↔ Demands x f.ty item ∨ FieldsDemand x rest item := by
  constructor
  · intro hd
    cases hd with
    | head hd => exact .inl hd
    | tail _ hd => exact .inr hd
  · rintro (hd | hd)
    · exact .head hd
    · exact .tail h hd

theorem fieldsDemand_cons_iff_of_not {f : Field} {rest : List Field} (h : ¬ Supported x f.ty) :
    FieldsDemand x (f :: rest) item ↔ Demands x f.ty item := by
  refine ⟨fun hd => ?_, .head⟩
  cases hd with
  | head hd => exact hd
  | tail supported => exact absurd supported h

/-! ### What is represented already -/

mutual

/-- What a type demands is registered if the type is represented. -/
theorem Demands.has {ty item : Ty} (hs : r.Sound x fun _ => True) :
    Demands x ty item → ∀ {rep : Representation}, Represents x r ty rep → r.Has x item
  | .struct isRecord _, _, hrep => by
    cases hrep with
    | record _ registered => exact ⟨_, .struct registered⟩
    | recordHandle indirect | cell indirect =>
      rw [Ty.not_isRecord_of_indirect indirect] at isRecord
      cases isRecord
    | _ => cases isRecord
  | .layout isRecord _ h, _, hrep => by
    cases hrep with
    | record _ registered known =>
      obtain ⟨s, hid, hslots⟩ := known
      obtain ⟨s', hid', hrecord⟩ := Registry.struct?_of_structOf? registered
      obtain rfl := Option.some.inj (hid.symm.trans hid')
      exact h.has hs (hrecord ▸ hs.laidOut hid hslots)
    | recordHandle indirect | cell indirect =>
      rw [Ty.not_isRecord_of_indirect indirect] at isRecord
      cases isRecord
    | _ => cases isRecord
  | .member h, _, hrep => by
    cases hrep with
    | array memberType => exact h.has hs memberType
    | record isRecord => cases isRecord
    | recordHandle indirect | cell indirect => cases indirect
  | .array _ same, _, hrep => by
    cases hrep with
    | array memberType registered => exact ⟨_, .array (.array (memberType.congr same) registered)⟩
    | record isRecord => cases isRecord
    | recordHandle indirect | cell indirect => cases indirect
  | .handle indirect isRecord, _, hrep => by
    cases hrep with
    | recordHandle indirect' _ registered =>
      obtain rfl := Option.some.inj (indirect.symm.trans indirect')
      exact ⟨_, .struct registered⟩
    | cell indirect' noRecord =>
      obtain rfl := Option.some.inj (indirect.symm.trans indirect')
      rw [isRecord] at noRecord
      cases noRecord
    | record isRecord' =>
      rw [Ty.not_isRecord_of_indirect indirect] at isRecord'
      cases isRecord'
    | _ => cases indirect
  | .target indirect noRecord _ h, _, hrep => by
    cases hrep with
    | cell indirect' _ _ target =>
      obtain rfl := Option.some.inj (indirect.symm.trans indirect')
      exact h.has hs target
    | recordHandle indirect' isRecord =>
      obtain rfl := Option.some.inj (indirect.symm.trans indirect')
      rw [isRecord] at noRecord
      cases noRecord
    | record isRecord' =>
      rw [Ty.not_isRecord_of_indirect indirect] at isRecord'
      cases isRecord'
    | _ => cases indirect

/-- What a layout demands is registered if the layout is known. -/
theorem LayoutDemands.has {record item : Ty} (hs : r.Sound x fun _ => True) :
    LayoutDemands x record item → ∀ {slots : List Slot}, LaidOut x r record slots → r.Has x item
  | .fields _ h, _, hl => h.has hs fun f hf => by
    obtain ⟨i, hi⟩ := List.getElem?_of_mem hf
    obtain ⟨rep, hrep, -⟩ := hl.slot hi
    exact ⟨rep, hrep⟩

/-- What fields demand is registered if their types are represented. -/
theorem FieldsDemand.has {fields : List Field} {item : Ty} (hs : r.Sound x fun _ => True) :
    FieldsDemand x fields item → (∀ f ∈ fields, ∃ rep, Represents x r f.ty rep) → r.Has x item
  | .head h, hrep => by
    obtain ⟨rep, hrep⟩ := hrep _ List.mem_cons_self
    exact h.has hs hrep
  | .tail _ h, hrep => h.has hs fun f hf => hrep f (List.mem_cons_of_mem _ hf)

end

/-! ### Computations -/

/-- Reading the fields of a struct registers what its layout demands. -/
def SlotsAdd (x : UnitIndex) (slots : Nat → LayoutM (List Slot)) : Prop :=
  ∀ {id : Nat} {r r' : Registry} {s : RecordStruct} {res : Except Error (List Slot)},
    r.Sound x (fun _ => True) → r.struct? id = some s → (slots id).runOn r = .ok (res, r') →
      Adds x (LayoutDemands x s.record) r r'

section

variable {slots : Nat → LayoutM (List Slot)} {active : List Nat}

theorem resolve_cases {ty : Ty} {res : Except Error Nat} (hr : ty.isRecord)
    (h : (resolve x ty).runOn r = .ok (res, r')) :
    (∃ e, x.checkContained (x.complete ty) = .error e ∧ res = .error e ∧ r' = r) ∨
      x.checkContained (x.complete ty) = .ok () ∧
        res = .ok (r.registerStruct (x.complete ty)).1 ∧
          r' = (r.registerStruct (x.complete ty)).2 := by
  rw [resolve, completeRecord, if_pos hr, pure_bind, Build.runOn_bind, Build.runOn_ofExcept] at h
  cases hc : x.checkContained (x.complete ty) with
  | error e =>
    simp only [hc, Except.ok.injEq, Prod.mk.injEq] at h
    exact .inl ⟨e, rfl, h.1.symm, h.2.symm⟩
  | ok u =>
    simp only [hc, Build.runOn_step, Except.ok.injEq, Prod.mk.injEq] at h
    exact .inr ⟨rfl, h.1.symm, h.2.symm⟩

theorem resolveHandle_runOn {ty : Ty} {res : Except Error Nat} (hr : ty.isRecord)
    (h : (resolveHandle x ty).runOn r = .ok (res, r')) :
    r' = (r.registerStruct (x.complete ty)).2 := by
  rw [resolveHandle, completeRecord, if_pos hr, pure_bind, Build.runOn_step] at h
  exact (Prod.mk.inj (Except.ok.inj h)).2.symm

/-- Scalars demand nothing. -/
theorem not_demands_of_isScalar {ty : Ty} (h : ty.isScalar) : ¬ Demands x ty item := by
  intro hd
  cases ty with
  | integer | real | boolean =>
    cases hd with
    | struct isRecord | layout isRecord => cases isRecord
    | handle indirect | target indirect => cases indirect
  | pointer | reference | array | record => cases h

theorem indirection_adds {ty base : Ty} {pointee : LayoutM Representation}
    {res : Except Error Representation} (hb : ty.indirectBase = some base)
    (hs : r.Sound x fun _ => True)
    (hp : ∀ {res}, pointee.runOn r = .ok (res, r') → Adds x (Demands x base) r r')
    (h : (indirection x ty base pointee).runOn r = .ok (res, r')) :
    Adds x (Demands x ty) r r' := by
  rw [indirection_eq] at h
  have hiff := fun item => (demands_indirect_iff hb : Demands x ty item ↔ _).symm
  split at h
  · rename_i hr
    simp only [if_pos hr] at hiff
    have hreg : r' = (r.registerStruct (x.complete base)).2 := by
      rw [map_eq_pure_bind] at h
      rcases Build.of_runOn_bind h with ⟨id, r₁, hid, h⟩ | ⟨e, -, hid⟩
      · obtain ⟨-, rfl⟩ := Prod.mk.inj (Except.ok.inj h)
        exact resolveHandle_runOn hr hid
      · exact resolveHandle_runOn hr hid
    rw [hreg]
    exact (registerStruct_adds hs (by rw [UnitIndex.isRecord_complete, hr])
      (UnitIndex.complete_complete base)).congr hiff
  · rename_i hr
    simp only [if_neg hr] at hiff
    split at h
    · rename_i hi
      simp only [if_pos hi] at hiff
      obtain ⟨-, rfl⟩ := Prod.mk.inj (Except.ok.inj h)
      exact .nothing fun item => (hiff item).2.mt not_false
    · rename_i hi
      simp only [if_neg hi] at hiff
      rw [map_eq_pure_bind] at h
      rcases Build.of_runOn_bind h with ⟨rep, r₁, hrep, h⟩ | ⟨e, -, hrep⟩
      · obtain ⟨-, rfl⟩ := Prod.mk.inj (Except.ok.inj h)
        exact (hp hrep).congr hiff
      · exact (hp hrep).congr hiff

/-- Representing a scalar registers nothing. -/
theorem representWith_keeps_of_isScalar {ty : Ty} (h : ty.isScalar) :
    (representWith x slots ty).Keeps Eq := by
  cases ty with
  | integer width =>
    simp only [representWith, integerOfWidth]
    split
    · exact .pure _
    · split
      · exact .pure _
      · exact .throw _
  | real width =>
    simp only [representWith, realOfWidth]
    split
    · exact .pure _
    · exact .throw _
  | boolean => exact .pure _
  | pointer | reference | array | record => cases h

/-- Representing a record registers it and what its layout demands, unless it is refused before. -/
theorem representWith_record_adds (hadds : SlotsAdd x slots) {name : String} {fields : List Field}
    {res : Except Error Representation} (hs : r.Sound x fun _ => True)
    (h : (representWith x slots (.record name fields)).runOn r = .ok (res, r')) :
    Adds x (Demands x (.record name fields)) r r' := by
  rw [representWith] at h
  rcases Build.of_runOn_bind h with ⟨id, r₁, hres, h⟩ | ⟨e, -, hres⟩
  · rcases resolve_cases rfl hres with ⟨e, -, hres, -⟩ | ⟨hc, hid, hr₁⟩
    · cases hres
    have hreg := (resolve_ran hres).2
    have hs₁ : Evolved x (fun _ => True) [] r r₁ :=
      (resolve_keeps (.univ x) trivial).ran hres hs
    have hadds₁ : Adds x (fun item => item = x.complete (.record name fields)) r r₁ :=
      hr₁ ▸ registerStruct_adds hs (by rw [UnitIndex.isRecord_complete]; rfl)
        (UnitIndex.complete_complete _)
    obtain ⟨s, hstruct, hrecord⟩ := Registry.struct?_of_structOf? hreg
    obtain ⟨res', hslots⟩ : ∃ res', (slots id).runOn r₁ = .ok (res', r') := by
      rcases Build.of_runOn_bind h with ⟨_, r₂, hslots, h⟩ | ⟨e, -, hslots⟩
      · obtain ⟨-, rfl⟩ := Prod.mk.inj (Except.ok.inj h)
        exact ⟨_, hslots⟩
      · exact ⟨_, hslots⟩
    have hlayout := hadds hs₁.sound hstruct hslots
    rw [hrecord] at hlayout
    exact (hadds₁.trans hlayout).congr fun item => (demands_record_iff hc).symm
  · rcases resolve_cases rfl hres with ⟨e, hc, -, rfl⟩ | ⟨-, hid, -⟩
    · refine .nothing fun item hd => ?_
      cases hd with
      | struct _ contained | layout _ contained =>
        rw [hc] at contained
        cases contained
      | handle indirect | target indirect => cases indirect
    · cases hid

/-- Representing a type registers what it demands. -/
theorem representWith_adds (hsl : Supplies x (fun _ => True) (fun _ => False) active slots)
    (href : Refuses x (fun _ => True) (fun _ => False) slots) (hadds : SlotsAdd x slots) {ty : Ty}
    {res : Except Error Representation} (hs : r.Sound x fun _ => True)
    (h : (representWith x slots ty).runOn r = .ok (res, r')) : Adds x (Demands x ty) r r' := by
  have hx : x.Closed fun _ => True := .univ x
  induction ty using Ty.induction generalizing r r' res with
  | integer | real | boolean =>
    exact representWith_keeps_of_isScalar rfl _ _ _ h ▸
      .nothing fun item => not_demands_of_isScalar rfl
  | record name fields => exact representWith_record_adds hadds hs h
  | array base length ih =>
    rw [representWith] at h
    rcases Build.of_runOn_bind h with ⟨member, r₁, hmember, h⟩ | ⟨e, -, hmember⟩
    · obtain ⟨-, rfl⟩ := Prod.mk.inj (Except.ok.inj h)
      have hs₁ : Evolved x (fun _ => True) active r r₁ :=
        (representWith_keeps hx hsl trivial).ran hmember hs
      have hrep := representWith_ran hx hsl trivial hs hmember
      have hsupported : Supported x base := judged_ok_iff.1 (hrep.judged hs₁.sound)
      exact ((ih hs hmember).trans (registerArray_adds hs₁.sound hrep)).congr fun item =>
        (demands_array_iff hsupported).symm
    · have hrefused := representWith_fails hx href trivial hs hmember
      have hsupported : ¬ Supported x base := fun hb => by cases hrefused.unique hb.judged
      exact (ih hs hmember).congr fun item => (demands_array_iff_of_not hsupported).symm
  | pointer base ih => exact indirection_adds rfl hs (ih hs) h
  | reference base ih => exact indirection_adds rfl hs (ih hs) h

/-- Placing fields registers what they demand, up to the first one that is not supported. -/
theorem placeFields_adds (hsl : Supplies x (fun _ => True) (fun _ => False) active slots)
    (href : Refuses x (fun _ => True) (fun _ => False) slots) (hadds : SlotsAdd x slots)
    {fields : List Field} {first : Nat} {res : Except Error (List Slot)}
    (hs : r.Sound x fun _ => True)
    (h : (placeFields (representWith x slots) first fields).runOn r = .ok (res, r')) :
    Adds x (FieldsDemand x fields) r r' := by
  have hx : x.Closed fun _ => True := .univ x
  induction fields generalizing first r res with
  | nil =>
    obtain ⟨-, rfl⟩ := Prod.mk.inj (Except.ok.inj h)
    exact .nothing fun item hd => by cases hd
  | cons f rest ih =>
    rw [placeFields] at h
    rcases Build.of_runOn_bind h with ⟨rep, r₁, hrep, h⟩ | ⟨e, -, hrep⟩
    · have hs₁ : Evolved x (fun _ => True) active r r₁ :=
        (representWith_keeps hx hsl trivial).ran hrep hs
      have hsupported : Supported x f.ty :=
        judged_ok_iff.1 ((representWith_ran hx hsl trivial hs hrep).judged hs₁.sound)
      obtain ⟨res', hrest⟩ : ∃ res',
          (placeFields (representWith x slots) (first + 1) rest).runOn r₁ = .ok (res', r') := by
        rcases Build.of_runOn_bind h with ⟨_, r₂, hrest, h⟩ | ⟨e, -, hrest⟩
        · obtain ⟨-, rfl⟩ := Prod.mk.inj (Except.ok.inj h)
          exact ⟨_, hrest⟩
        · exact ⟨_, hrest⟩
      exact ((representWith_adds hsl href hadds hs hrep).trans (ih hs₁.sound hrest)).congr
        fun item => (fieldsDemand_cons_iff hsupported).symm
    · have hrefused := representWith_fails hx href trivial hs hrep
      have hsupported : ¬ Supported x f.ty := fun hf => by cases hrefused.unique hf.judged
      exact (representWith_adds hsl href hadds hs hrep).congr fun item =>
        (fieldsDemand_cons_iff_of_not hsupported).symm

/-- A layout registers what it demands, and nothing more when it is published. -/
theorem layOutWith_adds {id : Nat}
    (hsl : Supplies x (fun _ => True) (fun _ => False) (id :: active) slots)
    (href : Refuses x (fun _ => True) (fun _ => False) slots) (hadds : SlotsAdd x slots)
    {s : RecordStruct} {res : Except Error (List Slot)} (hr : r.Sound x fun _ => True)
    (hs : r.struct? id = some s) (hpending : s.slots = none)
    (h : (layOutWith x slots id s.record).runOn r = .ok (res, r')) :
    Adds x (LayoutDemands x s.record) r r' := by
  have hx : x.Closed fun _ => True := .univ x
  rcases Build.of_runOn_bind h with ⟨u, r₁, hran, hrest⟩ | ⟨e, -, hfails⟩
  · obtain ⟨hd, rfl⟩ := Build.ran_ofExcept.1 hran
    rcases Build.of_runOn_bind hrest with ⟨placed, r₂, hplaced, hpublish⟩ | ⟨e, -, hplaced⟩
    · have hfields := placeFields_adds hsl href hadds hr hplaced
      obtain ⟨he, hl, s', hs', hpending', hrecord⟩ := placed_laidOut hx hsl hr hs hpending hd hplaced
      simp only [Build.runOn_bind, runOn_publish hs', Build.runOn_pure, Except.ok.injEq,
        Prod.mk.injEq] at hpublish
      have hp : Evolved x (fun _ => True) [] r₂ (r₂.publish id placed) :=
        publish_evolved he.sound hs' hpending' (hrecord ▸ hl) (List.not_mem_nil)
      have hadds' := hfields.trans (publish_adds he.sound hp fun _ => not_false)
      rw [← hpublish.2]
      exact hadds'.congr fun item => by rw [or_false, layoutDemands_iff hd]
    · exact (placeFields_adds hsl href hadds hr hplaced).congr fun item =>
        (layoutDemands_iff hd).symm
  · obtain ⟨hd, rfl⟩ := Build.fails_ofExcept.1 hfails
    refine .nothing fun item hdemand => ?_
    cases hdemand with
    | fields defined =>
      rw [hd] at defined
      cases defined

end

theorem layOut_adds (fuel : Nat) (active : List Nat) : SlotsAdd x (layOut x fuel active) := by
  have hx : x.Closed fun _ => True := .univ x
  -- A layout that is known demands nothing that is not registered.
  have hknown : ∀ {id r r' s res} {compute : Ty → LayoutM (List Slot)},
      r.Sound x (fun _ => True) → r.struct? id = some s →
      (knownSlots id compute).runOn r = .ok (res, r') →
      Adds x (LayoutDemands x s.record) r r' ∨
        s.slots = none ∧ (compute s.record).runOn r = .ok (res, r') := by
    intro id r r' s res compute hr hs h
    rcases Build.of_runOn_bind h with ⟨t, r₁, hget, hrest⟩ | ⟨e, -, hget⟩
    · obtain ⟨rfl, rfl⟩ := Build.ran_get.1 hget
      clear h
      simp only [hs] at hrest
      cases hslots : s.slots with
      | some slots =>
        simp only [hslots] at hrest
        obtain ⟨-, rfl⟩ := Prod.mk.inj (Except.ok.inj hrest)
        exact .inl (.known fun item hd => hd.has hr (hr.laidOut hs hslots))
      | none =>
        simp only [hslots] at hrest
        exact .inr ⟨rfl, hrest⟩
    · exact absurd hget (by simp)
  induction fuel generalizing active with
  | zero =>
    intro id r r' s res hr hs h
    rcases hknown hr hs h with hadds | ⟨-, h⟩
    · exact hadds
    · cases h
  | succ fuel ih =>
    intro id r r' s res hr hs h
    rcases hknown hr hs h with hadds | ⟨hpending, h⟩
    · exact hadds
    · split at h
      · cases h
      · exact layOutWith_adds (layOut_supplies hx fuel _) (layOut_refuses hx fuel _) (ih _) hr hs
          hpending h

/-- Reading the fields of a struct registers what its layout demands, whether it can be computed or
not. -/
theorem slotsOf_adds : SlotsAdd x (slotsOf x) := by
  intro id r r' s res hr hs h
  rcases Build.of_runOn_bind h with ⟨t, r₁, hget, hrest⟩ | ⟨e, -, hget⟩
  · obtain ⟨rfl, rfl⟩ := Build.ran_get.1 hget
    exact layOut_adds (fuelBound x r₁) [] hr hs hrest
  · exact absurd hget (by simp)

end GimpleLowering.Layout

import GimpleLowering.Proofs.Comparison
import GimpleLowering.Proofs.Layout.Agreement
import GimpleLowering.Proofs.Layout.Refusal

/-!
# Runtime types that mean the same

Ids are handed out in the order of first use, so one type of the intermediate code can have
different runtime types in two registries. Two runtime types are alike if they are built in the same
way from structs for the same record and from array types with members that are alike. This is a
one-to-one correspondence, and it stays as both registries grow.

The computations on types are compared from two sound registries: whatever is registered, they end
the same way, with results that are alike or with equal errors.

## Main definitions

* `Layout.Alike` — runtime types of two registries that mean the same
* `Layout.SameStruct`, `Slot.Alike` — the same for ids of structs and for fields
* `Layout.comparison` — any two sound registries, with equal errors

## Main results

* `Layout.Alike.unique` — a runtime type is like at most one other
* `Layout.Represents.alike` — the representations of a type are alike
* `Layout.represent_inStep`, `resolve_inStep`, `slotsOf_inStep`, `slotOf_inStep` — computations on
  types end the same way
-/

namespace GimpleLowering

open Gimple

theorem Gimple.Ty.not_isRecord_of_indirect {ty base : Ty} (h : ty.indirectBase = some base) :
    ty.isRecord = false := by
  cases ty <;> first | rfl | simp [Ty.indirectBase] at h

namespace Layout

/-! ### Likeness -/

/-- The ids are those of the structs for one record. -/
def SameStruct (r r' : Registry) (id id' : Nat) : Prop :=
  ∃ record, r.structOf? record = some id ∧ r'.structOf? record = some id'

/-- The runtime types mean the same, one in each registry. -/
inductive Alike (r r' : Registry) : Flo.Ty → Flo.Ty → Prop where
  | bool : Alike r r' .bool .bool
  | signed32 : Alike r r' .signed32 .signed32
  | signed64 : Alike r r' .signed64 .signed64
  | double : Alike r r' .double .double
  | unspecified : Alike r r' .unspecified .unspecified
  | struct {id id' : Nat} (h : SameStruct r r' id id') : Alike r r' (.struct id) (.struct id')
  | array {member member' : Flo.Ty} {length i i' : Nat} (members : Alike r r' member member')
      (h : r.arrays.findIdx? (fun a => a = (member, length)) = some i)
      (h' : r'.arrays.findIdx? (fun a => a = (member', length)) = some i') :
      Alike r r' (.array (i + 1)) (.array (i' + 1))
  | handle {pointee pointee' : Flo.Ty} {nullable : Bool} (target : Alike r r' pointee pointee') :
      Alike r r' (.handle pointee nullable) (.handle pointee' nullable)

variable {x : UnitIndex} {S : Ty → Prop} {r r' r₁ r₁' : Registry} {typ typ' : Flo.Ty}

theorem SameStruct.mono {id id' : Nat} (h : SameStruct r r' id id') (hg : r.Grows r₁)
    (hg' : r'.Grows r₁') : SameStruct r₁ r₁' id id' := by
  obtain ⟨record, h, h'⟩ := h
  exact ⟨record, hg.structOf? h, hg'.structOf? h'⟩

theorem SameStruct.symm {id id' : Nat} (h : SameStruct r r' id id') : SameStruct r' r id' id := by
  obtain ⟨record, h, h'⟩ := h
  exact ⟨record, h', h⟩

theorem SameStruct.unique {id id' id'' : Nat} (h : SameStruct r r' id id')
    (h' : SameStruct r r' id id'') : id' = id'' := by
  obtain ⟨record, hl, hr⟩ := h
  obtain ⟨record', hl', hr'⟩ := h'
  obtain rfl := Registry.structOf?_inj hl hl'
  exact Option.some.inj (hr.symm.trans hr')

namespace Alike

theorem mono (h : Alike r r' typ typ') (hg : r.Grows r₁) (hg' : r'.Grows r₁') :
    Alike r₁ r₁' typ typ' := by
  induction h with
  | bool => exact .bool
  | signed32 => exact .signed32
  | signed64 => exact .signed64
  | double => exact .double
  | unspecified => exact .unspecified
  | struct h => exact .struct (h.mono hg hg')
  | array _ h h' ih => exact .array ih (hg.arrayOf? h) (hg'.arrayOf? h')
  | handle _ ih => exact .handle ih

theorem symm (h : Alike r r' typ typ') : Alike r' r typ' typ := by
  induction h with
  | bool => exact .bool
  | signed32 => exact .signed32
  | signed64 => exact .signed64
  | double => exact .double
  | unspecified => exact .unspecified
  | struct h => exact .struct h.symm
  | array _ h h' ih => exact .array ih h' h
  | handle _ ih => exact .handle ih

/-- A runtime type is like one other. -/
theorem unique {typ'' : Flo.Ty} (h : Alike r r' typ typ') (h' : Alike r r' typ typ'') :
    typ' = typ'' := by
  induction h generalizing typ'' with
  | bool | signed32 | signed64 | double | unspecified =>
    cases h'
    rfl
  | struct h =>
    cases h' with
    | struct h' => rw [h.unique h']
  | array _ h₁ h₂ ih =>
    cases h' with
    | array members h₁' h₂' =>
      obtain ⟨rfl, rfl⟩ := Prod.mk.inj (Registry.arrayOf?_inj h₁ h₁')
      obtain rfl := ih members
      rw [Option.some.inj (h₂.symm.trans h₂')]
  | handle _ ih =>
    cases h' with
    | handle target => rw [ih target]

/-! What the lowering asks of a runtime type has the same answer for types that are alike. -/

theorem isInteger_eq (h : Alike r r' typ typ') : typ.isInteger = typ'.isInteger := by
  cases h <;> rfl

theorem eq_double_iff (h : Alike r r' typ typ') : typ = .double ↔ typ' = .double := by
  cases h <;> simp

end Alike

/-- Two representations of one type are alike. -/
theorem Represents.alike {ty : Ty} {rep rep' : Representation} (h : Represents x r ty rep)
    (h' : Represents x r' ty rep') : Alike r r' rep.valueType rep'.valueType := by
  induction h generalizing rep' with
  | integer32 => cases h' <;> first | exact .signed32 | simp_all [Ty.isRecord, Ty.indirectBase]
  | integer64 => cases h' <;> first | exact .signed64 | simp_all [Ty.isRecord, Ty.indirectBase]
  | real => cases h' <;> first | exact .double | simp_all [Ty.isRecord, Ty.indirectBase]
  | boolean => cases h' <;> first | exact .bool | simp_all [Ty.isRecord, Ty.indirectBase]
  | @record ty id slots isRecord registered known =>
    cases h' with
    | record _ registered' => exact .struct ⟨_, registered, registered'⟩
    | recordHandle indirect | cell indirect =>
      rw [Ty.not_isRecord_of_indirect indirect] at isRecord
      cases isRecord
    | _ => cases isRecord
  | @array base length i member memberType registered ih =>
    cases h' with
    | array memberType' registered' => exact .array (ih memberType') registered registered'
    | record isRecord => cases isRecord
    | recordHandle indirect | cell indirect => cases indirect
  | @recordHandle ty base id indirect isRecord registered =>
    cases h' with
    | recordHandle indirect' _ registered' =>
      obtain rfl := Option.some.inj (indirect.symm.trans indirect')
      exact .handle (.struct ⟨_, registered, registered'⟩)
    | cell indirect' noRecord =>
      obtain rfl := Option.some.inj (indirect.symm.trans indirect')
      rw [isRecord] at noRecord
      cases noRecord
    | record isRecord' =>
      rw [Ty.not_isRecord_of_indirect indirect] at isRecord'
      cases isRecord'
    | _ => cases indirect
  | @cell ty base pointee indirect noRecord direct target ih =>
    cases h' with
    | cell indirect' _ _ target' =>
      obtain rfl := Option.some.inj (indirect.symm.trans indirect')
      exact .handle (ih target')
    | recordHandle indirect' isRecord =>
      obtain rfl := Option.some.inj (indirect.symm.trans indirect')
      rw [isRecord] at noRecord
      cases noRecord
    | record isRecord' =>
      rw [Ty.not_isRecord_of_indirect indirect] at isRecord'
      cases isRecord'
    | _ => cases indirect

/-! ### Fields -/

/-- Two slots are for the same field. -/
structure Slot.Alike (r r' : Registry) (slot slot' : Slot) : Prop where
  name : slot.name = slot'.name
  ty : slot.ty = slot'.ty
  index : slot.index = slot'.index
  typ : Layout.Alike r r' slot.typ slot'.typ

theorem Slot.Alike.mono {slot slot' : Slot} (h : slot.Alike r r' slot') (hg : r.Grows r₁)
    (hg' : r'.Grows r₁') : slot.Alike r₁ r₁' slot' :=
  ⟨h.name, h.ty, h.index, h.typ.mono hg hg'⟩

/-- Two layouts of one record have the same fields. -/
theorem LaidOut.alike {record : Ty} {slots slots' : List Slot} (h : LaidOut x r record slots)
    (h' : LaidOut x r' record slots') : List.Forall₂ (Slot.Alike r r') slots slots' := by
  rw [List.forall₂_iff_get]
  refine ⟨h.length_eq.trans h'.length_eq.symm, fun i hi hi' => ?_⟩
  have hf : i < record.fields.length := h.length_eq ▸ hi
  obtain ⟨rep, hrep, hslot⟩ := h.slot (List.getElem?_eq_getElem hf)
  obtain ⟨rep', hrep', hslot'⟩ := h'.slot (List.getElem?_eq_getElem hf)
  rw [List.getElem?_eq_getElem hi, Option.some.injEq] at hslot
  rw [List.getElem?_eq_getElem hi', Option.some.injEq] at hslot'
  rw [List.get_eq_getElem, List.get_eq_getElem, hslot, hslot']
  exact ⟨rfl, rfl, rfl, hrep.alike hrep'⟩

/-! ### Comparison -/

/-- Two sound registries, whatever is in them. Errors have to be equal. -/
def comparison (x : UnitIndex) : Build.Comparison Registry Error where
  twins r r' := r.Sound x (fun _ => True) ∧ r'.Sound x fun _ => True
  grows := Registry.Grows
  errors e e' := e = e'
  refl := .refl
  trans := .trans

variable {q q' : Registry}

/-- Computations are in step if their outcomes have the same verdict and their results
correspond. -/
theorem inStep_of_verdict {α β : Type} {V : Except Error Unit → Prop}
    {A : Registry → Registry → α → β → Prop} {m : LayoutM α} {m' : LayoutM β}
    (keeps : m.Keeps (Evolves x (fun _ => True) []))
    (keeps' : m'.Keeps (Evolves x (fun _ => True) []))
    (unique : ∀ res res', V res → V res' → res = res')
    (verdict : ∀ {s res t}, q.Grows s → s.Sound x (fun _ => True) → m.runOn s = .ok (res, t) →
      V (res.map fun _ => ()))
    (verdict' : ∀ {s res t}, q'.Grows s → s.Sound x (fun _ => True) →
      m'.runOn s = .ok (res, t) → V (res.map fun _ => ()))
    (results : ∀ {s s' a b t t'}, q.Grows s → q'.Grows s' → s.Sound x (fun _ => True) →
      s'.Sound x (fun _ => True) → m.Ran s a t → m'.Ran s' b t' → A t t' a b) :
    (comparison x).InStep q q' A m m' := by
  rintro s s' hs hs' ⟨hsound, hsound'⟩ ⟨res, t⟩ ⟨res', t'⟩ h h'
  have he := keeps s _ t h hsound
  have he' := keeps' s' _ t' h' hsound'
  have heq := unique _ _ (verdict hs hsound h) (verdict' hs' hsound' h')
  cases res <;> cases res' <;> simp only [Except.map, reduceCtorEq, Except.error.injEq] at heq
  · exact .error heq
  · exact .ok he.grows he'.grows ⟨he.sound, he'.sound⟩ (results hs hs' hsound hsound' h h')

/-! ### Types -/

/-- Every outcome is the verdict on the type. -/
theorem represent_judged {S : Ty → Prop} {A : Flo.Ty × Nat → Prop} (hx : x.Closed S) {ty : Ty}
    (hS : S ty) (hr : r.SoundUpTo x S A) {res : Except Error Representation}
    (h : (represent x ty).runOn r = .ok (res, r')) : Judged x ty (res.map fun _ => ()) := by
  cases res with
  | ok rep =>
    exact (represent_ran hx hS hr h).judged ((represent_keeps hx hS).ran h hr).sound
  | error e => exact represent_fails hx hS hr h

/-- A type is represented in the same way, whatever is registered. -/
theorem represent_inStep (ty : Ty) :
    (comparison x).InStep q q' (fun r r' rep rep' => Alike r r' rep.valueType rep'.valueType)
      (represent x ty) (represent x ty) := by
  have hx : x.Closed fun _ => True := .univ x
  refine inStep_of_verdict (V := Judged x ty) (represent_keeps hx trivial)
    (represent_keeps hx trivial) (fun _ _ h h' => h.unique h')
    (fun _ hs h => represent_judged hx trivial hs h)
    (fun _ hs h => represent_judged hx trivial hs h) fun _ _ hs hs' h h' => ?_
  exact (represent_ran hx trivial hs h).alike (represent_ran hx trivial hs' h')

/-- The runtime types of a type are alike, whatever is registered. -/
theorem valueType_inStep (ty : Ty) :
    (comparison x).InStep q q' Alike (valueType x ty) (valueType x ty) := by
  refine (represent_inStep ty).bind fun s s' rep rep' _ _ h => .pure fun t t' ht ht' _ => ?_
  exact h.mono ht ht'

/-! ### Structs -/

theorem completeRecord_inStep (ty : Ty) :
    (comparison x).InStep q q' (fun _ _ record record' => record = record' ∧ ty.isRecord ∧
      record = x.complete ty) (completeRecord x ty) (completeRecord x ty) := by
  unfold completeRecord
  split
  · rename_i hr
    exact .pure fun _ _ _ _ _ => ⟨rfl, hr, rfl⟩
  · exact .throw rfl

theorem registerStruct_inStep {record : Ty} (hr : record.isRecord)
    (hc : x.complete record = record) :
    (comparison x).InStep q q' SameStruct (Build.step fun r => r.registerStruct record)
      (Build.step fun r => r.registerStruct record) := by
  refine .step fun s s' _ _ hs => ?_
  have he : Evolved x (fun _ => True) [] s _ := registerStruct_evolves trivial hr hc hs.1
  have he' : Evolved x (fun _ => True) [] s' _ := registerStruct_evolves trivial hr hc hs.2
  exact ⟨he.grows, he'.grows, ⟨he.sound, he'.sound⟩, record,
    s.structOf?_registerStruct record, s'.structOf?_registerStruct record⟩

/-- A handle to a record refers to the struct for the record. -/
theorem resolveHandle_inStep (ty : Ty) :
    (comparison x).InStep q q' SameStruct (resolveHandle x ty) (resolveHandle x ty) := by
  refine (completeRecord_inStep ty).bind fun s s' record record' _ _ => ?_
  rintro ⟨rfl, hr, rfl⟩
  exact registerStruct_inStep (by rw [UnitIndex.isRecord_complete, hr])
    (UnitIndex.complete_complete ty)

/-- So does a record by value, unless it contains itself. -/
theorem resolve_inStep (ty : Ty) :
    (comparison x).InStep q q' SameStruct (resolve x ty) (resolve x ty) := by
  refine (completeRecord_inStep ty).bind fun s s' record record' _ _ => ?_
  rintro ⟨rfl, hr, rfl⟩
  refine (Build.Comparison.Steady.ofExcept (fun _ => rfl) _ s s').bind_same fun _ => ?_
  exact registerStruct_inStep (by rw [UnitIndex.isRecord_complete, hr])
    (UnitIndex.complete_complete ty)

variable {id id' : Nat}

/-- Every outcome is the verdict on the layout of the record. -/
theorem slotsOf_judged {S : Ty → Prop} {A : Flo.Ty × Nat → Prop} (hx : x.Closed S) {record : Ty}
    (hid : r.structOf? record = some id) (hr : r.SoundUpTo x S A) {res : Except Error (List Slot)}
    (h : (slotsOf x id).runOn r = .ok (res, r')) :
    LayoutJudged x record (res.map fun _ => ()) := by
  cases res with
  | ok slots => exact (slotsOf_ran hx hr hid h).2.judged
  | error e => exact slotsOf_fails hx hr hid h

/-- The structs for a record have the same fields. -/
theorem slotsOf_inStep (hid : SameStruct q q' id id') :
    (comparison x).InStep q q' (fun r r' => List.Forall₂ (Slot.Alike r r')) (slotsOf x id)
      (slotsOf x id') := by
  have hx : x.Closed fun _ => True := .univ x
  obtain ⟨record, hid, hid'⟩ := hid
  refine inStep_of_verdict (V := LayoutJudged x record) (slotsOf_keeps hx id)
    (slotsOf_keeps hx id') (fun _ _ h h' => h.unique h')
    (fun hg hs h => slotsOf_judged hx (hg.structOf? hid) hs h)
    (fun hg hs h => slotsOf_judged hx (hg.structOf? hid') hs h) fun hg hg' hs hs' h h' => ?_
  exact (slotsOf_ran hx hs (hg.structOf? hid) h).2.alike
    (slotsOf_ran hx hs' (hg'.structOf? hid') h').2

theorem recordOf_inStep (hid : SameStruct q q' id id') :
    (comparison x).InStep q q' Build.Comparison.Same (recordOf id) (recordOf id') := by
  obtain ⟨record, hid, hid'⟩ := hid
  refine .get_bind fun s s' hs hs' _ => .pure fun _ _ _ _ _ => ?_
  obtain ⟨t, ht, hrecord⟩ := Registry.struct?_of_structOf? (hs.structOf? hid)
  obtain ⟨t', ht', hrecord'⟩ := Registry.struct?_of_structOf? (hs'.structOf? hid')
  simp only [Build.Comparison.Same, ht, ht', Option.elim_some, hrecord, hrecord']

/-- The same field of the structs for a record is found by its name. -/
theorem find?_alike {slots slots' : List Slot} (h : List.Forall₂ (Slot.Alike r r') slots slots')
    (name : String) :
    Option.Rel (Slot.Alike r r') (slots.find? fun s => s.name = name)
      (slots'.find? fun s => s.name = name) := by
  induction h with
  | nil => exact .none
  | cons head _ ih =>
    rw [List.find?_cons, List.find?_cons, head.name]
    split
    · exact .some head
    · exact ih

theorem slotOf_inStep (hid : SameStruct q q' id id') (name : String) :
    (comparison x).InStep q q' Slot.Alike (slotOf x id name) (slotOf x id' name) := by
  refine (slotsOf_inStep hid).bind fun s s' slots slots' hs hs' hslots => ?_
  have hfound := find?_alike hslots name
  revert hfound
  cases slots.find? fun s => s.name = name <;> cases slots'.find? fun s => s.name = name
  · intro _
    refine (recordOf_inStep (hid.mono hs hs')).bind fun _ _ record record' _ _ heq => ?_
    exact .throw (by rw [show record = record' from heq]; rfl)
  · nofun
  · nofun
  · intro hrel
    obtain ⟨hslot⟩ := hrel
    exact .pure fun t t' ht ht' _ => hslot.mono ht ht'

end Layout

end GimpleLowering

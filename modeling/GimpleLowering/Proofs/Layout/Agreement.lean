import GimpleLowering.Proofs.Layout.Computation

/-!
# Types that share a runtime type

Structs are told apart by their records and array types by their members and length, so a runtime
type says what it represents: two types have the same runtime type if and only if they have the
same expansion. Such types agree, but not all types that agree have the same runtime type: agreement
looks through forward references in the fields of records, and structs do not.

## Main results

* `Layout.Represents.expand_eq` — types with the same runtime type have the same expansion
* `Layout.HasValueType.eq_iff` — types with the same expansion are those with the same runtime type
* `UnitIndex.agrees_of_expand_eq` — types with the same expansion agree
-/

namespace GimpleLowering

open Gimple

/-! ### Agreement -/

mutual

/-- A type agrees with itself. -/
theorem Gimple.Ty.agrees_refl : ∀ ty : Ty, ty.agrees ty
  | .integer _ | .real _ | .boolean => by simp [Ty.agrees]
  | .pointer base | .reference base => by
    rw [Ty.agrees]
    exact base.agrees_refl
  | .array base length => by
    rw [Ty.agrees, decide_eq_true rfl, Bool.true_and]
    exact base.agrees_refl
  | .record name fields => by
    rw [Ty.agrees, if_neg (not_not.2 rfl)]
    split
    · rfl
    · exact Ty.fieldsAgree_refl fields

theorem Gimple.Ty.fieldsAgree_refl : ∀ fields : List Field, Ty.fieldsAgree fields fields
  | [] => rfl
  | ⟨name, ty⟩ :: rest => by
    rw [Ty.fieldsAgree, ty.agrees_refl, Ty.fieldsAgree_refl rest]
    simp

end

/-- Scalar types have no forward references: those that agree are equal. -/
theorem Gimple.Ty.eq_of_agrees_of_isScalar {a b : Ty} (h : a.agrees b)
    (hs : a.isScalar ∨ b.isScalar) : a = b := by
  cases a <;> cases b <;> simp_all [Ty.agrees, Ty.isScalar]

namespace UnitIndex

variable {x : UnitIndex}

/-- A record with fields or without a name is complete. -/
theorem complete_record {name : String} {fields : List Field} (h : name = "" ∨ fields ≠ []) :
    x.complete (.record name fields) = .record name fields := by
  rcases h with rfl | h
  · exact x.complete_anonymous fields
  · obtain ⟨f, rest, rfl⟩ := List.exists_cons_of_ne_nil h
    exact x.complete_defined name f rest

/-- Types with the same expansion agree. -/
theorem agrees_of_expand_eq {a b : Ty} (h : x.expand a = x.expand b) : a.agrees b := by
  have hk := kind_eq_of_expand_eq h
  induction a using Ty.induction generalizing b with
  | integer | real | boolean =>
    cases b <;> simp only [Ty.kind, reduceCtorEq] at hk
    simp_all [Ty.agrees]
  | pointer base ih =>
    cases b <;> simp only [Ty.kind, reduceCtorEq] at hk
    simp only [expand_pointer, Ty.pointer.injEq] at h
    rw [Ty.agrees]
    exact ih h (kind_eq_of_expand_eq h)
  | reference base ih =>
    cases b <;> simp only [Ty.kind, reduceCtorEq] at hk
    simp only [expand_reference, Ty.reference.injEq] at h
    rw [Ty.agrees]
    exact ih h (kind_eq_of_expand_eq h)
  | array base length ih =>
    cases b <;> simp only [Ty.kind, reduceCtorEq] at hk
    simp only [expand_array, Ty.array.injEq] at h
    rw [Ty.agrees, decide_eq_true h.2, Bool.true_and]
    exact ih h.1 (kind_eq_of_expand_eq h.1)
  | record name fields =>
    cases b <;> simp only [Ty.kind, reduceCtorEq] at hk
    rename_i name' fields'
    have h : x.complete (.record name fields) = x.complete (.record name' fields') := h
    obtain rfl : name = name' := by
      have hname := congrArg Ty.recordName h
      rwa [recordName_complete, recordName_complete] at hname
    by_cases hforward : name ≠ "" ∧ (fields.isEmpty ∨ fields'.isEmpty)
    · rw [Ty.agrees, if_neg (not_not.2 rfl), if_pos hforward]
    · have hcomplete : name = "" ∨ fields ≠ [] ∧ fields' ≠ [] := by
        simpa [not_or, or_iff_not_imp_left] using hforward
      rw [complete_record (hcomplete.imp_right And.left),
        complete_record (hcomplete.imp_right And.right)] at h
      exact h ▸ Ty.agrees_refl _

end UnitIndex

namespace Layout

variable {x : UnitIndex} {r r' : Registry} {a b : Ty} {rep rep' : Representation}

/-! ### Ids -/

/-- A struct is for one record. -/
theorem Registry.structOf?_inj {record record' : Ty} {id : Nat} (h : r.structOf? record = some id)
    (h' : r.structOf? record' = some id) : record = record' := by
  obtain ⟨s, hs, rfl⟩ := Registry.struct?_of_structOf? h
  obtain ⟨s', hs', rfl⟩ := Registry.struct?_of_structOf? h'
  rw [Option.some.inj (hs.symm.trans hs')]

/-- An array type has one type of members and one length. -/
theorem Registry.arrayOf?_inj {member member' : Flo.Ty × Nat} {i : Nat}
    (h : r.arrays.findIdx? (fun m => m = member) = some i)
    (h' : r.arrays.findIdx? (fun m => m = member') = some i) : member = member' := by
  obtain ⟨hlt, hp, -⟩ := List.findIdx?_eq_some_iff_getElem.1 h
  obtain ⟨hlt', hp', -⟩ := List.findIdx?_eq_some_iff_getElem.1 h'
  exact (of_decide_eq_true hp).symm.trans (of_decide_eq_true hp')

/-! ### Runtime types -/

/-- Only records are represented by structs. -/
theorem Represents.isRecord_of_struct {id : Nat} (h : Represents x r a rep)
    (hv : rep.valueType = .struct id) : a.isRecord := by
  cases h <;> first | assumption | cases hv

/-- A pointer or reference is determined by what it refers to and by whether it can be null. -/
theorem expand_eq_of_indirectBase {base base' : Ty} (ha : a.indirectBase = some base)
    (hb : b.indirectBase = some base') (hn : a.isNullable = b.isNullable)
    (he : x.expand base = x.expand base') : x.expand a = x.expand b := by
  cases a <;> simp only [Ty.indirectBase, Option.some.injEq, reduceCtorEq] at ha <;>
    cases b <;> simp only [Ty.indirectBase, Option.some.injEq, reduceCtorEq] at hb <;>
    simp_all [Ty.isNullable]

/-- Types with the same runtime type have the same expansion. -/
theorem Represents.expand_eq (h : Represents x r a rep) (h' : Represents x r b rep')
    (hv : rep.valueType = rep'.valueType) : x.expand a = x.expand b := by
  induction h generalizing b rep' with
  | integer32 | integer64 | real | boolean => cases h' <;> first | rfl | cases hv
  | @record ty id slots isRecord registered known =>
    cases h' with
    | record isRecord' registered' known' =>
      obtain rfl := Flo.Ty.struct.inj hv
      rw [UnitIndex.expand_of_isRecord isRecord, UnitIndex.expand_of_isRecord isRecord']
      exact Registry.structOf?_inj registered registered'
    | _ => cases hv
  | @array base length i member memberType registered ih =>
    cases h' with
    | array memberType' registered' =>
      obtain rfl := Nat.succ.inj (Flo.Ty.array.inj hv)
      obtain ⟨hmember, rfl⟩ := Prod.mk.inj (Registry.arrayOf?_inj registered registered')
      rw [UnitIndex.expand_array, UnitIndex.expand_array, ih memberType' hmember]
    | _ => cases hv
  | @recordHandle ty base id indirect isRecord registered =>
    cases h' with
    | recordHandle indirect' isRecord' registered' =>
      obtain ⟨hid, hn⟩ := Flo.Ty.handle.inj hv
      obtain rfl := Flo.Ty.struct.inj hid
      refine expand_eq_of_indirectBase indirect indirect' hn ?_
      rw [UnitIndex.expand_of_isRecord isRecord, UnitIndex.expand_of_isRecord isRecord']
      exact Registry.structOf?_inj registered registered'
    | cell indirect' noRecord direct target =>
      obtain ⟨hid, -⟩ := Flo.Ty.handle.inj hv
      rw [target.isRecord_of_struct hid.symm] at noRecord
      cases noRecord
    | _ => cases hv
  | @cell ty base pointee indirect noRecord direct target ih =>
    cases h' with
    | cell indirect' noRecord' direct' target' =>
      obtain ⟨hpointee, hn⟩ := Flo.Ty.handle.inj hv
      exact expand_eq_of_indirectBase indirect indirect' hn (ih target' hpointee)
    | recordHandle indirect' isRecord' registered' =>
      obtain ⟨hid, -⟩ := Flo.Ty.handle.inj hv
      rw [target.isRecord_of_struct hid] at noRecord
      cases noRecord
    | _ => cases hv

/-- The types with the same runtime type are those with the same expansion. -/
theorem HasValueType.eq_iff {typ typ' : Flo.Ty} (h : HasValueType x r a typ)
    (h' : HasValueType x r b typ') : typ = typ' ↔ x.expand a = x.expand b := by
  constructor
  · intro heq
    obtain ⟨rep, hrep, rfl⟩ := h
    obtain ⟨rep', hrep', rfl⟩ := h'
    exact hrep.expand_eq hrep' heq
  · intro he
    exact (h.congr he).unique h'

end Layout

end GimpleLowering

import GimpleLowering.Layout.Representation
import GimpleLowering.Proofs.Layout.Completion

/-!
# What becomes of a type

Whether a type has a representation, and which error refuses it otherwise, is decided by the type
and by the definitions of the unit. What was registered before has no part in it: `Judged` is the
outcome without a registry, for types, for the layouts of records, and for lists of fields, which
are taken in order until one of them is refused. It says nothing of computations without an end.

## Main definitions

* `Layout.Judged`, `LayoutJudged`, `FieldsJudged` — the outcome for a type, a record, and fields

## Main results

* `Layout.Judged.unique`, `LayoutJudged.unique` — there is one outcome
-/

namespace GimpleLowering.Layout

open Gimple

/-! ### Checks -/

theorem repeatedName?_eq_none_iff {seen names : List String} :
    repeatedName? seen names = none ↔ names.Nodup ∧ ∀ n ∈ names, n ∉ seen := by
  induction names generalizing seen with
  | nil => simp [repeatedName?]
  | cons n rest ih =>
    unfold repeatedName?
    split
    · rename_i hn
      simp [hn]
    · rename_i hn
      rw [ih, List.nodup_cons]
      constructor
      · rintro ⟨hnodup, hnot⟩
        refine ⟨⟨fun hmem => hnot n hmem (by simp), hnodup⟩, fun m hm => ?_⟩
        rcases List.mem_cons.1 hm with rfl | hm
        · exact hn
        · exact fun hseen => hnot m hm (List.mem_cons_of_mem n hseen)
      · rintro ⟨⟨hnot, hnodup⟩, hfresh⟩
        refine ⟨hnodup, fun m hm hseen => ?_⟩
        rcases List.mem_cons.1 hseen with rfl | hseen
        · exact hnot hm
        · exact hfresh m (List.mem_cons_of_mem n hm) hseen

theorem checkDefined_eq_ok {x : UnitIndex} {record : Ty} (h : checkDefined x record = .ok ()) :
    record.fields ≠ [] ∧ (record.fields.map Field.name).Nodup ∧
      x.checkContained record = .ok () := by
  unfold checkDefined at h
  by_cases he : record.fields.isEmpty
  · simp [he, bind, Except.bind] at h
  · simp only [he, Bool.false_eq_true, if_false] at h
    split at h
    · cases h
    · rename_i hn
      exact ⟨by simpa using he, (repeatedName?_eq_none_iff.1 hn).1, h⟩

/-- A record passes all checks if it is defined, its fields have names of their own, and it does not
contain itself. -/
theorem checkDefined_of {x : UnitIndex} {record : Ty} (hdefined : record.fields ≠ [])
    (hnames : (record.fields.map Field.name).Nodup) (hcontained : x.checkContained record = .ok ()) :
    checkDefined x record = .ok () := by
  have hempty : record.fields.isEmpty = false := by simpa using hdefined
  have hunique : repeatedName? [] (record.fields.map Field.name) = none :=
    repeatedName?_eq_none_iff.2 ⟨hnames, by simp⟩
  rw [checkDefined, hempty, hunique]
  exact hcontained

/-! ### Verdicts -/

mutual

/-- The outcome of representing a type. -/
inductive Judged (x : UnitIndex) : Ty → Except Error Unit → Prop where
  | integer32 : Judged x (.integer 32) (.ok ())
  | integer64 : Judged x (.integer 64) (.ok ())
  | otherInteger {width : Nat} (h : width ≠ 32) (h' : width ≠ 64) :
      Judged x (.integer width) (.error (.unsupportedType (.scalar (.integer width))))
  | real64 : Judged x (.real 64) (.ok ())
  | otherReal {width : Nat} (h : width ≠ 64) :
      Judged x (.real width) (.error (.unsupportedType (.scalar (.real width))))
  | boolean : Judged x .boolean (.ok ())
  /-- A record by value contains itself. -/
  | contained {ty : Ty} {e : Error} (isRecord : ty.isRecord)
      (h : x.checkContained (x.complete ty) = .error e) : Judged x ty (.error e)
  /-- A record by value has the outcome of its layout. -/
  | record {ty : Ty} {res : Except Error Unit} (isRecord : ty.isRecord)
      (contained : x.checkContained (x.complete ty) = .ok ())
      (layout : LayoutJudged x (x.complete ty) res) : Judged x ty res
  | array {base : Ty} {length : Nat} {res : Except Error Unit} (member : Judged x base res) :
      Judged x (.array base length) res
  /-- A record behind a pointer may be anything. -/
  | recordHandle {ty base : Ty} (indirect : ty.indirectBase = some base)
      (isRecord : base.isRecord) : Judged x ty (.ok ())
  | doubleIndirection {ty base : Ty} (indirect : ty.indirectBase = some base)
      (noRecord : base.isRecord = false) (double : base.isIndirect) :
      Judged x ty (.error (.unsupportedType (.doubleIndirection ty)))
  | cell {ty base : Ty} {res : Except Error Unit} (indirect : ty.indirectBase = some base)
      (noRecord : base.isRecord = false) (direct : base.isIndirect = false)
      (target : Judged x base res) : Judged x ty res

/-- The outcome of laying out a record. -/
inductive LayoutJudged (x : UnitIndex) : Ty → Except Error Unit → Prop where
  | undefined {record : Ty} {e : Error} (h : checkDefined x record = .error e) :
      LayoutJudged x record (.error e)
  | defined {record : Ty} {res : Except Error Unit} (h : checkDefined x record = .ok ())
      (fields : FieldsJudged x record.fields res) : LayoutJudged x record res

/-- The outcome of representing the types of fields in order. -/
inductive FieldsJudged (x : UnitIndex) : List Field → Except Error Unit → Prop where
  | nil : FieldsJudged x [] (.ok ())
  | refused {f : Field} {rest : List Field} {e : Error} (h : Judged x f.ty (.error e)) :
      FieldsJudged x (f :: rest) (.error e)
  | cons {f : Field} {rest : List Field} {res : Except Error Unit} (h : Judged x f.ty (.ok ()))
      (others : FieldsJudged x rest res) : FieldsJudged x (f :: rest) res

end

variable {x : UnitIndex}

/-- Fields of which none is refused. -/
theorem FieldsJudged.of_forall {fields : List Field}
    (h : ∀ f ∈ fields, Judged x f.ty (.ok ())) : FieldsJudged x fields (.ok ()) := by
  induction fields with
  | nil => exact .nil
  | cons f rest ih => exact .cons (h f (by simp)) (ih fun g hg => h g (by simp [hg]))

/-- A record that is laid out has passed all checks. -/
theorem LayoutJudged.checked {record : Ty} (h : LayoutJudged x record (.ok ())) :
    checkDefined x record = .ok () := by
  cases h with
  | defined h fields => exact h

/-! ### Uniqueness -/

/-- What a record is judged by. -/
theorem Judged.of_isRecord {ty : Ty} {res : Except Error Unit} (h : Judged x ty res)
    (hr : ty.isRecord) :
    (∃ e, x.checkContained (x.complete ty) = .error e ∧ res = .error e) ∨
      x.checkContained (x.complete ty) = .ok () ∧ LayoutJudged x (x.complete ty) res := by
  cases h with
  | contained _ h => exact .inl ⟨_, h, rfl⟩
  | record _ contained layout => exact .inr ⟨contained, layout⟩
  | recordHandle indirect | doubleIndirection indirect | cell indirect =>
    cases ty <;> simp [Ty.isRecord, Ty.indirectBase] at hr indirect
  | _ => simp [Ty.isRecord] at hr

/-- What a pointer or a reference is judged by. -/
theorem Judged.of_indirect {ty base : Ty} {res : Except Error Unit} (h : Judged x ty res)
    (hb : ty.indirectBase = some base) :
    base.isRecord ∧ res = .ok () ∨
      base.isRecord = false ∧ base.isIndirect ∧
        res = .error (.unsupportedType (.doubleIndirection ty)) ∨
      base.isRecord = false ∧ base.isIndirect = false ∧ Judged x base res := by
  cases h with
  | recordHandle indirect isRecord =>
    obtain rfl := Option.some.inj (hb.symm.trans indirect)
    exact .inl ⟨isRecord, rfl⟩
  | doubleIndirection indirect noRecord double =>
    obtain rfl := Option.some.inj (hb.symm.trans indirect)
    exact .inr (.inl ⟨noRecord, double, rfl⟩)
  | cell indirect noRecord direct target =>
    obtain rfl := Option.some.inj (hb.symm.trans indirect)
    exact .inr (.inr ⟨noRecord, direct, target⟩)
  | contained isRecord | record isRecord =>
    cases ty <;> simp [Ty.isRecord, Ty.indirectBase] at hb isRecord
  | _ => simp [Ty.indirectBase] at hb

mutual

/-- There is one outcome for a type. -/
theorem Judged.unique {ty : Ty} {res res' : Except Error Unit} :
    Judged x ty res → Judged x ty res' → res = res'
  | .integer32, h' | .integer64, h' | .real64, h' | .boolean, h' | .otherInteger _ _, h'
  | .otherReal _, h' => by cases h' <;> simp_all [Ty.isRecord, Ty.indirectBase]
  | .contained isRecord h, h' => by
    rcases h'.of_isRecord isRecord with ⟨e, he, rfl⟩ | ⟨hok, -⟩
    · rw [← h, he]
    · rw [h] at hok
      cases hok
  | .record isRecord contained layout, h' => by
    rcases h'.of_isRecord isRecord with ⟨e, he, rfl⟩ | ⟨-, layout'⟩
    · rw [contained] at he
      cases he
    · exact layout.unique layout'
  | .array member, h' => by
    cases h' with
    | array member' => exact member.unique member'
    | _ => simp_all [Ty.isRecord, Ty.indirectBase]
  | .recordHandle indirect isRecord, h' => by
    rcases h'.of_indirect indirect with ⟨-, rfl⟩ | ⟨noRecord, -⟩ | ⟨noRecord, -⟩
    · rfl
    all_goals simp_all
  | .doubleIndirection indirect noRecord double, h' => by
    rcases h'.of_indirect indirect with ⟨isRecord, -⟩ | ⟨-, -, rfl⟩ | ⟨-, direct, -⟩
    · simp_all
    · rfl
    · simp_all
  | .cell indirect noRecord direct target, h' => by
    rcases h'.of_indirect indirect with ⟨isRecord, -⟩ | ⟨-, double, -⟩ | ⟨-, -, target'⟩
    · simp_all
    · simp_all
    · exact target.unique target'

/-- There is one outcome for the layout of a record. -/
theorem LayoutJudged.unique {record : Ty} {res res' : Except Error Unit} :
    LayoutJudged x record res → LayoutJudged x record res' → res = res'
  | .undefined h, h' => by
    cases h' with
    | undefined h' => rw [← h, h']
    | defined h' => simp_all
  | .defined h fields, h' => by
    cases h' with
    | undefined h' => simp_all
    | defined _ fields' => exact fields.unique fields'

/-- There is one outcome for fields. -/
theorem FieldsJudged.unique {fields : List Field} {res res' : Except Error Unit} :
    FieldsJudged x fields res → FieldsJudged x fields res' → res = res'
  | .nil, h' => by
    cases h'
    rfl
  | .refused h, h' => by
    cases h' with
    | refused h' => exact h.unique h'
    | cons h' => cases h.unique h'
  | .cons h others, h' => by
    cases h' with
    | refused h' => cases h.unique h'
    | cons _ others' => exact others.unique others'

end

end GimpleLowering.Layout

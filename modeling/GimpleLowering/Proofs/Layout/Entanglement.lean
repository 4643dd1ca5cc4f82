import GimpleLowering.Proofs.Except
import GimpleLowering.Proofs.Layout.Verdict
import Mathlib.Logic.Relation

/-!
# Layouts that need each other

To lay out a record, the types of its fields are represented, and some of them need the layout of
another record: a record by value needs its own, and so does an array of records. A pointer or
reference to a record needs none. But a pointer or reference to an array needs what the array needs,
although a value of it contains no record at all. The check that no record contains itself follows
what values contain, so it does not notice a record that needs itself through such a pointer.

## Main definitions

* `UnitIndex.Stores` — a value of one record contains a value of another
* `UnitIndex.Needs` — one record can only be laid out after another
* `UnitIndex.Entangled` — the layout of a record needs itself, through a pointer to an array
* `Layout.Grounded` — a record that can be laid out after those that it needs

## Main results

* `UnitIndex.not_stores_self` — a record that passes the check does not contain itself
* `Layout.LayoutJudged.grounded` — what is laid out needs no entangled record, near or far
-/

namespace GimpleLowering

open Gimple Relation

/-- The record whose layout is needed to represent the type. -/
def Gimple.Ty.neededRecord? : Ty → Option Ty
  | .record name fields => some (.record name fields)
  | .array base _ => base.neededRecord?
  | .pointer base | .reference base =>
    if base.isRecord || base.isIndirect then none else base.neededRecord?
  | _ => none

/-- What is stored in a value is needed to represent its type. -/
theorem Gimple.Ty.neededRecord?_of_storedRecord? {ty record : Ty}
    (h : ty.storedRecord? = some record) : ty.neededRecord? = some record := by
  induction ty using Ty.induction with
  | record name fields => exact h
  | array base length ih => exact ih h
  | integer | real | boolean | pointer | reference => cases h

namespace UnitIndex

variable {x : UnitIndex} {a b c record : Ty}

/-! ### Records and the records of their fields -/

/-- A value of the first record contains a value of the second one. -/
def Stores (x : UnitIndex) (a b : Ty) : Prop :=
  ∃ f ∈ a.fields, ∃ r, f.ty.storedRecord? = some r ∧ x.complete r = b

/-- The layout of the first record needs that of the second one, although no value of the first
record contains one of the second: there is a pointer or reference to an array between them. -/
def NeedsBehind (x : UnitIndex) (a b : Ty) : Prop :=
  ∃ f ∈ a.fields, f.ty.storedRecord? = none ∧
    ∃ r, f.ty.neededRecord? = some r ∧ x.complete r = b

/-- The layout of the first record needs that of the second one. -/
def Needs (x : UnitIndex) (a b : Ty) : Prop :=
  ∃ f ∈ a.fields, ∃ r, f.ty.neededRecord? = some r ∧ x.complete r = b

/-- The layout of the record needs itself, on a way that leads through a pointer or a reference to
an array. -/
def Entangled (x : UnitIndex) (record : Ty) : Prop :=
  ∃ a b, ReflTransGen x.Needs record a ∧ x.NeedsBehind a b ∧ ReflTransGen x.Needs b record

theorem needs_iff : x.Needs a b ↔ x.Stores a b ∨ x.NeedsBehind a b := by
  constructor
  · rintro ⟨f, hf, r, hr, hb⟩
    cases hs : f.ty.storedRecord? with
    | none => exact .inr ⟨f, hf, hs, r, hr, hb⟩
    | some r' =>
      rw [Ty.neededRecord?_of_storedRecord? hs, Option.some.injEq] at hr
      exact .inl ⟨f, hf, r', hs, hr ▸ hb⟩
  · rintro (⟨f, hf, r, hr, hb⟩ | ⟨f, hf, -, h⟩)
    · exact ⟨f, hf, r, Ty.neededRecord?_of_storedRecord? hr, hb⟩
    · exact ⟨f, hf, h⟩

theorem NeedsBehind.needs (h : x.NeedsBehind a b) : x.Needs a b := needs_iff.2 (.inr h)

theorem Entangled.needs_self (h : x.Entangled record) : TransGen x.Needs record record := by
  obtain ⟨a, b, hra, hab, hbr⟩ := h
  exact (TransGen.trans_right hra (.single hab.needs)).trans_left hbr

/-- A way from record to record stays inside values, or it leads through a pointer. -/
theorem transGen_needs (h : TransGen x.Needs a c) :
    TransGen x.Stores a c ∨
      ∃ d e, ReflTransGen x.Needs a d ∧ x.NeedsBehind d e ∧ ReflTransGen x.Needs e c := by
  induction h with
  | single h =>
    rcases needs_iff.1 h with hs | hb
    · exact .inl (.single hs)
    · exact .inr ⟨_, _, .refl, hb, .refl⟩
  | tail hab hbc ih =>
    rcases ih with hstores | ⟨d, e, had, hde, heb⟩
    · rcases needs_iff.1 hbc with hs | hb
      · exact .inl (hstores.tail hs)
      · exact .inr ⟨_, _, hab.to_reflTransGen, hb, .refl⟩
    · exact .inr ⟨d, e, had, hde, heb.tail hbc⟩

/-! ### The check -/

/-- The walk has been to everything that a value contains, and met nothing that was on the way. -/
theorem stores_not_mem {fuel : Nat} {path : List Ty} {ty root : Ty}
    (h : x.checkContainedFrom fuel path ty = .ok ()) (hroot : ty.storedRecord? = some root) :
    x.complete root ∉ path ∧
      ∀ b, TransGen x.Stores (x.complete root) b → b ∉ x.complete root :: path := by
  induction fuel generalizing path ty root with
  | zero => cases h
  | succ fuel ih =>
    simp only [checkContainedFrom, hroot] at h
    split at h
    · cases h
    · rename_i hnot
      have hfield : ∀ b, x.Stores (x.complete root) b →
          b ∉ x.complete root :: path ∧
            ∀ c, TransGen x.Stores b c → c ∉ b :: x.complete root :: path := by
        rintro b ⟨f, hf, r, hr, rfl⟩
        exact ih (forM_eq_ok h f hf) hr
      refine ⟨hnot, fun b hb => ?_⟩
      obtain ⟨c, hc, hcb⟩ := TransGen.head'_iff.1 hb
      rcases reflTransGen_iff_eq_or_transGen.1 hcb with rfl | hcb
      · exact (hfield b hc).1
      · exact fun hmem => (hfield c hc).2 b hcb (List.mem_cons_of_mem c hmem)

/-- A record that passes the check does not contain itself. -/
theorem not_stores_self (h : x.checkContained record = .ok ()) (hr : record.isRecord)
    (hc : x.complete record = record) : ¬ TransGen x.Stores record record := by
  have hstored : record.storedRecord? = some record := by
    cases record <;> first | rfl | cases hr
  intro hself
  have hnot := (stores_not_mem h hstored).2
  rw [hc] at hnot
  exact hnot record hself List.mem_cons_self

/-- A record that passes the check and needs itself is entangled. -/
theorem Entangled.of_needs_self (h : x.checkContained record = .ok ()) (hr : record.isRecord)
    (hc : x.complete record = record) (hself : TransGen x.Needs record record) :
    x.Entangled record :=
  (transGen_needs hself).resolve_left (not_stores_self h hr hc)

end UnitIndex

/-! ### Layouts that exist -/

/-- Nothing accessible is on a cycle. -/
theorem not_transGen_of_acc {α : Type} {r : α → α → Prop} {a : α} (h : Acc r a) :
    ¬ TransGen r a a := by
  have hacc := h.transGen
  clear h
  induction hacc with
  | intro a _ ih => exact fun hself => ih a hself hself

namespace Layout

variable {x : UnitIndex}

/-- The records that a record needs, and those that they need, are laid out before it. -/
def Grounded (x : UnitIndex) (record : Ty) : Prop := Acc (Function.swap x.Needs) record

theorem Grounded.not_entangled {record other : Ty} (h : Grounded x record)
    (hneeds : ReflTransGen x.Needs record other) : ¬ x.Entangled other := by
  have hother : Grounded x other := by
    induction hneeds with
    | refl => exact h
    | tail _ hbc ih => exact ih.inv hbc
  exact fun he => not_transGen_of_acc hother (transGen_swap.2 he.needs_self)

/-- A record by value needs its own layout. -/
theorem neededRecord?_of_isRecord {ty : Ty} (h : ty.isRecord) : ty.neededRecord? = some ty := by
  cases ty <;> first | rfl | cases h

/-- A pointer or reference needs what it points to, unless that is a record. -/
theorem neededRecord?_of_indirectBase {ty base : Ty} (h : ty.indirectBase = some base) :
    ty.neededRecord? = if base.isRecord || base.isIndirect then none else base.neededRecord? := by
  cases ty <;> simp only [Ty.indirectBase, Option.some.injEq, reduceCtorEq] at h <;>
    rw [h, Ty.neededRecord?]

mutual

/-- A type that is not refused needs a record that is grounded, if it needs any. -/
theorem Judged.grounded {ty record : Ty} {res : Except Error Unit} :
    Judged x ty res → res = .ok () → ty.neededRecord? = some record →
      Grounded x (x.complete record)
  | .integer32, _, h | .integer64, _, h | .real64, _, h | .boolean, _, h => by cases h
  | .otherInteger _ _, hres, _ | .otherReal _, hres, _ | .contained _ _, hres, _
  | .doubleIndirection _ _ _, hres, _ => by cases hres
  | .record isRecord _ layout, hres, h => by
    rw [neededRecord?_of_isRecord isRecord, Option.some.injEq] at h
    exact h ▸ layout.grounded hres
  | .array member, hres, h => member.grounded hres h
  | .recordHandle indirect isRecord, _, h => by
    simp [neededRecord?_of_indirectBase indirect, isRecord] at h
  | .cell indirect noRecord direct target, hres, h => by
    simp only [neededRecord?_of_indirectBase indirect, noRecord, direct, Bool.or_self,
      Bool.false_eq_true, if_false] at h
    exact target.grounded hres h

/-- A record that is laid out is grounded. -/
theorem LayoutJudged.grounded {record : Ty} {res : Except Error Unit} :
    LayoutJudged x record res → res = .ok () → Grounded x record
  | .undefined _, hres => by cases hres
  | .defined _ fields, hres =>
    .intro _ fun _ ⟨f, hf, _, hr, hb⟩ => hb ▸ fields.grounded hres f hf hr

/-- Fields of which none is refused need records that are grounded. -/
theorem FieldsJudged.grounded {fields : List Field} {res : Except Error Unit} :
    FieldsJudged x fields res → res = .ok () → ∀ f ∈ fields, ∀ {record : Ty},
      f.ty.neededRecord? = some record → Grounded x (x.complete record)
  | .nil, _, f, hf, _, _ => by cases hf
  | .refused _, hres, _, _, _, _ => by cases hres
  | .cons h others, hres, f, hf, record, hr => by
    rcases List.mem_cons.1 hf with heq | hf
    · exact h.grounded rfl (heq ▸ hr)
    · exact others.grounded hres f hf hr

end

end Layout

end GimpleLowering

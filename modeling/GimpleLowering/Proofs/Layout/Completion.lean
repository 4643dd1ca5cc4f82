import GimpleLowering.Layout.Containment

/-!
# Types up to their definitions

A forward reference and its definition are different types that mean the same. `UnitIndex.expand`
puts the definition in the place of the forward reference at the core of a type, under all arrays,
pointers and references. It does not go into the fields of records: the members of a struct are
represented one by one, each by its own type.

`Ty.agrees` looks through forward references, too, but at any depth and without the definition. In
a unit whose definitions are consistent the two notions meet: `UnitIndex.Consistent`.

## Main definitions

* `Gimple.Ty.induction` — induction on types
* `UnitIndex.expand` — a type with the forward reference at its core replaced
* `UnitIndex.Closed` — a set of types with their parts and the types of the index
* `UnitIndex.Consistent` — in a closed set, types that agree expand to the same type
-/

namespace GimpleLowering

open Gimple

/-- Induction on types, with a hypothesis for the type of every field of a record. -/
theorem Gimple.Ty.induction {P : Ty → Prop} (integer : ∀ width, P (.integer width))
    (real : ∀ width, P (.real width)) (boolean : P .boolean)
    (pointer : ∀ base, P base → P (.pointer base))
    (reference : ∀ base, P base → P (.reference base))
    (array : ∀ base length, P base → P (.array base length))
    (record : ∀ name fields, (∀ f ∈ fields, P f.ty) → P (.record name fields)) (ty : Ty) : P ty :=
  @Ty.rec P (fun f => P f.ty) (fun fields => ∀ f ∈ fields, P f.ty) integer real boolean pointer
    reference array record (fun _ _ h => h) (fun _ h => nomatch h)
    (fun _ _ h hs f hf => by
      rcases List.mem_cons.1 hf with rfl | hf
      · exact h
      · exact hs f hf) ty

namespace UnitIndex

variable {x : UnitIndex}

/-- The type with its definition in the place of the forward reference at its core. -/
def expand (x : UnitIndex) : Ty → Ty
  | .pointer base => .pointer (x.expand base)
  | .reference base => .reference (x.expand base)
  | .array base length => .array (x.expand base) length
  | ty => x.complete ty

/-! ### Completion -/

/-- A completed record is complete. -/
theorem complete_complete (ty : Ty) : x.complete (x.complete ty) = x.complete ty := by
  cases ty with
  | record name fields =>
    cases fields with
    | nil =>
      by_cases hn : name = ""
      · simp [hn]
      cases h : x.record? name with
      | none => simp [complete, hn, h]
      | some r =>
        obtain ⟨n, fields⟩ := r
        obtain rfl : n = name := name_of_record? h
        cases fields <;> simp [complete, hn, h, RecordDefinition.ty]
    | cons f fields => rfl
  | _ => rfl

theorem isRecord_complete (ty : Ty) : (x.complete ty).isRecord = ty.isRecord := by
  unfold complete
  split
  · rename_i name
    split
    · rfl
    · cases x.record? name <;> rfl
  · rfl

/-! ### Expansion -/

@[simp] theorem expand_pointer (base : Ty) : x.expand (.pointer base) = .pointer (x.expand base) :=
  rfl

@[simp] theorem expand_reference (base : Ty) :
    x.expand (.reference base) = .reference (x.expand base) := rfl

@[simp] theorem expand_array (base : Ty) (length : Nat) :
    x.expand (.array base length) = .array (x.expand base) length := rfl

@[simp] theorem expand_integer (width : Nat) : x.expand (.integer width) = .integer width := rfl

@[simp] theorem expand_real (width : Nat) : x.expand (.real width) = .real width := rfl

@[simp] theorem expand_boolean : x.expand .boolean = .boolean := rfl

theorem expand_of_isRecord {ty : Ty} (h : ty.isRecord) : x.expand ty = x.complete ty := by
  cases ty <;> first | rfl | simp [Ty.isRecord] at h

/-- Expansion replaces nothing but the core, so the outermost constructor stays. -/
theorem kind_expand (ty : Ty) : (x.expand ty).kind = ty.kind := by
  cases ty with
  | record name fields =>
    rw [expand_of_isRecord rfl]
    have h := isRecord_complete (x := x) (.record name fields)
    revert h
    cases x.complete (.record name fields) <;> simp [Ty.isRecord, Ty.kind]
  | _ => rfl

theorem kind_eq_of_expand_eq {a b : Ty} (h : x.expand a = x.expand b) : a.kind = b.kind := by
  rw [← kind_expand (x := x) a, h, kind_expand]

theorem isIndirect_of_kind_eq {a b : Ty} (h : a.kind = b.kind) : a.isIndirect = b.isIndirect := by
  cases a <;> cases b <;> first | rfl | cases h

/-- What pointers and references with the same expansion point to has the same expansion. -/
theorem indirectBase_of_expand_eq {a b base : Ty} (h : x.expand a = x.expand b)
    (ha : a.indirectBase = some base) :
    ∃ base', b.indirectBase = some base' ∧ a.isNullable = b.isNullable ∧
      x.expand base = x.expand base' := by
  have hk := kind_eq_of_expand_eq h
  cases a <;> simp only [Ty.indirectBase, Option.some.injEq, reduceCtorEq] at ha <;> subst ha
  · cases b <;> simp only [Ty.kind, reduceCtorEq] at hk
    exact ⟨_, rfl, rfl, by simpa using h⟩
  · cases b <;> simp only [Ty.kind, reduceCtorEq] at hk
    exact ⟨_, rfl, rfl, by simpa using h⟩

theorem isRecord_eq_kind (ty : Ty) : ty.isRecord = decide (ty.kind = .record) := by
  cases ty <;> rfl

theorem isRecord_of_expand_eq {a b : Ty} (h : x.expand a = x.expand b) :
    a.isRecord = b.isRecord := by
  rw [isRecord_eq_kind, isRecord_eq_kind, kind_eq_of_expand_eq h]

theorem complete_eq_of_expand_eq {a b : Ty} (h : x.expand a = x.expand b) (ha : a.isRecord) :
    x.complete a = x.complete b := by
  rw [← expand_of_isRecord ha, h,
    expand_of_isRecord (x := x) ((isRecord_of_expand_eq h).symm.trans ha)]

/-! ### Consistency -/

/-- The set has the parts of its types, the fields of records included, and all types that the
index mentions. -/
structure Closed (x : UnitIndex) (S : Ty → Prop) : Prop where
  pointer : ∀ {base : Ty}, S (.pointer base) → S base
  reference : ∀ {base : Ty}, S (.reference base) → S base
  array : ∀ {base : Ty} {length : Nat}, S (.array base length) → S base
  field : ∀ {name : String} {fields : List Field}, S (.record name fields) →
    ∀ f ∈ fields, S f.ty
  definition : ∀ r ∈ x.records, S r.ty
  global : ∀ g ∈ x.globals, S g.ty
  parameter : ∀ s ∈ x.functions, ∀ ty ∈ s.parameterTypes, S ty
  result : ∀ s ∈ x.functions, ∀ ty ∈ s.returnType, S ty

/-- Among the types of a closed set, those that agree have the same expansion. -/
structure Consistent (x : UnitIndex) (S : Ty → Prop) : Prop extends Closed x S where
  expand_eq : ∀ {a b : Ty}, S a → S b → a.agrees b → x.expand a = x.expand b

namespace Closed

variable {S : Ty → Prop}

theorem complete (h : x.Closed S) {ty : Ty} (hty : S ty) : S (x.complete ty) := by
  unfold UnitIndex.complete
  split
  · rename_i name
    split
    · exact hty
    · cases hr : x.record? name with
      | none => exact hty
      | some r => exact h.definition r (List.mem_of_find?_eq_some hr)
  · exact hty

theorem field_of_mem (h : x.Closed S) {ty : Ty} (hty : S ty) {f : Field} (hf : f ∈ ty.fields) :
    S f.ty := by
  cases ty with
  | record name fields => exact h.field hty f (by simpa [Ty.fields, Ty.recordFields] using hf)
  | _ => simp [Ty.fields, Ty.recordFields] at hf

theorem indirectBase (h : x.Closed S) {ty base : Ty} (hty : S ty)
    (hb : ty.indirectBase = some base) : S base := by
  cases ty <;> simp only [Ty.indirectBase, Option.some.injEq, reduceCtorEq] at hb
  · exact h.pointer (hb ▸ hty)
  · exact h.reference (hb ▸ hty)

theorem global?_mem (h : x.Closed S) {name : String} {ty : Ty} (hg : x.global? name = some ty) :
    S ty := by
  obtain ⟨g, hfind, rfl⟩ := Option.map_eq_some_iff.1 hg
  exact h.global g (List.mem_of_find?_eq_some hfind)

/-- Everything is a closed set. -/
theorem univ (x : UnitIndex) : x.Closed fun _ => True :=
  ⟨fun _ => trivial, fun _ => trivial, fun _ => trivial, fun _ _ _ => trivial, fun _ _ => trivial,
    fun _ _ => trivial, fun _ _ _ _ => trivial, fun _ _ _ _ => trivial⟩

end Closed

end UnitIndex

end GimpleLowering

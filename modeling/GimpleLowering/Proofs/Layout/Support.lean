import GimpleLowering.Proofs.Layout.Containment
import GimpleLowering.Proofs.Layout.Likeness
import GimpleLowering.Proofs.Layout.Requests
import GimpleLowering.Proofs.Layout.Termination
import GimpleLowering.Proofs.Lowering.Contexts

/-!
# Types that are supported

Which types have a representation can be said without a registry, and without an order in which
anything is looked at: `Supported` is the least set of types with the rules for scalars, records,
arrays, pointers and references. Definitions may go round in circles, through handles to records, as
these rest on nothing.

The representation of a type is found in a registry that remembers the layouts that succeeded, and
not those that failed. Neither makes a difference: in every registry that occurs, exactly the
supported types are represented.

## Main definitions

* `Layout.Supported` — the types that have a representation
* `Layout.Registry.Occurs` — the registries that are met

## Main results

* `Layout.judged_ok_iff` — the supported types are those that are not refused
* `Layout.represents_supported` — they are the ones that are represented, whatever is registered
-/

namespace GimpleLowering.Layout

open Gimple Relation

variable {x : UnitIndex} {A : Flo.Ty × Nat → Prop} {r r' : Registry} {ty : Ty}

/-! ### Support -/

/-- The types that the runtime has something for. -/
inductive Supported (x : UnitIndex) : Ty → Prop where
  | integer {width : Nat} (h : width = 32 ∨ width = 64) : Supported x (.integer width)
  | real : Supported x (.real 64)
  | boolean : Supported x .boolean
  /-- A record is defined, and its fields have names of their own and types that are supported. -/
  | record {ty : Ty} (isRecord : ty.isRecord) (defined : (x.complete ty).fields ≠ [])
      (names : ((x.complete ty).fields.map Field.name).Nodup)
      (fields : ∀ f ∈ (x.complete ty).fields, Supported x f.ty) : Supported x ty
  | array {base : Ty} {length : Nat} (member : Supported x base) : Supported x (.array base length)
  /-- A pointer or reference to a record asks nothing of the record. -/
  | recordHandle {ty base : Ty} (indirect : ty.indirectBase = some base)
      (isRecord : base.isRecord) : Supported x ty
  | cell {ty base : Ty} (indirect : ty.indirectBase = some base) (noRecord : base.isRecord = false)
      (direct : base.isIndirect = false) (target : Supported x base) : Supported x ty

theorem not_holds_of_indirect {base root : Ty} (h : ty.indirectBase = some base) :
    ¬ ty.Holds root := by
  intro hroot
  cases hroot <;> cases h

/-- What a supported type holds contains nothing without an end: the rules for records and arrays
are applied once for each step. -/
theorem Supported.acc (h : Supported x ty) {root : Ty} (hroot : ty.Holds root) :
    Acc (Function.swap x.Stores) (x.complete root) := by
  induction h generalizing root with
  | integer | real | boolean => cases hroot
  | record isRecord _ _ _ ih =>
    cases hroot with
    | record =>
      refine .intro _ fun b hb => ?_
      obtain ⟨f, hf, r, hr, rfl⟩ := UnitIndex.stores_iff.1 hb
      exact ih f hf hr
    | element => cases isRecord
  | array _ ih =>
    cases hroot with
    | element hroot => exact ih hroot
  | recordHandle indirect | cell indirect => exact absurd hroot (not_holds_of_indirect indirect)

theorem holds_self_of_isRecord (h : ty.isRecord) : ty.Holds ty := by
  cases ty <;> first | exact .record | cases h

/-- A supported record does not contain itself. -/
theorem Supported.checkContained_eq_ok (h : Supported x ty) (hr : ty.isRecord) :
    x.checkContained (x.complete ty) = .ok () := by
  cases hres : x.checkContained (x.complete ty) with
  | ok u => rfl
  | error e =>
    obtain ⟨root, hroot, hacc⟩ := UnitIndex.checkContained_eq_error_iff.1 ⟨e, hres⟩
    have hself : (x.complete ty).Holds (x.complete ty) :=
      holds_self_of_isRecord (by rw [UnitIndex.isRecord_complete, hr])
    rw [Ty.holds_iff] at hroot hself
    obtain rfl := Option.some.inj (hself.symm.trans hroot)
    rw [UnitIndex.complete_complete] at hacc
    exact absurd (h.acc (holds_self_of_isRecord hr)) hacc

/-- Supported types are not refused. -/
theorem Supported.judged (h : Supported x ty) : Judged x ty (.ok ()) := by
  induction h with
  | integer h =>
    rcases h with rfl | rfl
    · exact .integer32
    · exact .integer64
  | real => exact .real64
  | boolean => exact .boolean
  | record isRecord defined names fields ih =>
    have hcontained := (Supported.record isRecord defined names fields).checkContained_eq_ok isRecord
    exact .record isRecord hcontained
      (.defined (checkDefined_of defined names hcontained) (.of_forall ih))
  | array _ ih => exact .array ih
  | recordHandle indirect isRecord => exact .recordHandle indirect isRecord
  | cell indirect noRecord direct _ ih => exact .cell indirect noRecord direct ih

mutual

/-- Types that are not refused are supported. -/
theorem Judged.supported {ty : Ty} {res : Except Error Unit} :
    Judged x ty res → res = .ok () → Supported x ty
  | .integer32, _ => .integer (.inl rfl)
  | .integer64, _ => .integer (.inr rfl)
  | .real64, _ => .real
  | .boolean, _ => .boolean
  | .otherInteger _ _, hres | .otherReal _, hres | .contained _ _, hres
  | .doubleIndirection _ _ _, hres => by cases hres
  | .record isRecord _ layout, hres =>
    have ⟨defined, names, fields⟩ := layout.supported hres
    .record isRecord defined names fields
  | .array member, hres => .array (member.supported hres)
  | .recordHandle indirect isRecord, _ => .recordHandle indirect isRecord
  | .cell indirect noRecord direct target, hres =>
    .cell indirect noRecord direct (target.supported hres)

/-- A record that is laid out satisfies the rule for records. -/
theorem LayoutJudged.supported {record : Ty} {res : Except Error Unit} :
    LayoutJudged x record res → res = .ok () → record.fields ≠ [] ∧
      (record.fields.map Field.name).Nodup ∧ ∀ f ∈ record.fields, Supported x f.ty
  | .undefined _, hres => by cases hres
  | .defined h fields, hres =>
    have ⟨defined, names, _⟩ := checkDefined_eq_ok h
    ⟨defined, names, fields.supported hres⟩

/-- So do the types of fields of which none is refused. -/
theorem FieldsJudged.supported {fields : List Field} {res : Except Error Unit} :
    FieldsJudged x fields res → res = .ok () → ∀ f ∈ fields, Supported x f.ty
  | .nil, _, f, hf => by cases hf
  | .refused _, hres, _, _ => by cases hres
  | .cons h others, hres, f, hf => by
    rcases List.mem_cons.1 hf with heq | hf
    · exact heq ▸ h.supported rfl
    · exact others.supported hres f hf

end

theorem judged_ok_iff : Judged x ty (.ok ()) ↔ Supported x ty :=
  ⟨fun h => h.supported rfl, Supported.judged⟩

/-! ### Representations of supported types -/

/-- A type that is not refused is represented: no layout that it needs waits for itself. -/
theorem exists_represent_ran (hr : r.SoundUpTo x (fun _ => True) A)
    (h : Judged x ty (.ok ())) : ∃ rep r', (represent x ty).Ran r rep r' := by
  cases hrun : (represent x ty).runOn r with
  | error b =>
    obtain ⟨root, hroot, other, hneeds, hentangled, -⟩ := (represent_ends hr).breaks hrun
    exact absurd hentangled ((h.grounded rfl hroot).not_entangled hneeds)
  | ok out =>
    obtain ⟨res, r'⟩ := out
    cases res with
    | ok rep => exact ⟨rep, r', hrun⟩
    | error e => cases (represent_judged (.univ x) trivial hr hrun).unique h

/-- The registries that occur: while functions are lowered, or by any requests. -/
def Registry.Occurs (x : UnitIndex) (r : Registry) : Prop :=
  ReflTransGen (Lowering.Uses x) .empty r ∨ ReflTransGen (Requests x) .empty r

theorem Registry.Occurs.sound (h : r.Occurs x) : ∃ A, r.SoundUpTo x (fun _ => True) A := by
  rcases h with h | h
  · exact ⟨_, (Lowering.evolves_of_uses h (.empty x _)).sound⟩
  · exact ⟨_, sound_of_requests h⟩

/-- **Exactly the supported types are represented.** In whatever registry that occurs, a type that
is supported gets its representation, and one that gets a representation is supported; what has
another outcome is not. So no type depends on what was laid out before it, nor on what was
refused. -/
theorem represents_supported (occurs : r.Occurs x) (ty : Ty) :
    ((∃ rep r', (represent x ty).Ran r rep r') ↔ Supported x ty) ∧
      ∀ res r', (represent x ty).runOn r = .ok (res, r') → ((∃ rep, res = .ok rep) ↔ Supported x ty) := by
  obtain ⟨A, hr⟩ := occurs.sound
  have hiff : (∃ rep r', (represent x ty).Ran r rep r') ↔ Supported x ty := by
    rw [← judged_ok_iff]
    refine ⟨?_, exists_represent_ran hr⟩
    rintro ⟨rep, r', hran⟩
    exact represent_judged (.univ x) trivial hr hran
  refine ⟨hiff, fun res r' hrun => ?_⟩
  rw [← hiff]
  constructor
  · rintro ⟨rep, rfl⟩
    exact ⟨rep, r', hrun⟩
  · rintro ⟨rep, r'', hran⟩
    exact ⟨rep, (Prod.mk.inj (Except.ok.inj (hrun.symm.trans hran))).1⟩

/-- After its layout was refused, a record is not represented, and a pointer to it is. -/
theorem represents_oddRecord : ∃ r : Registry, (slotsOf .empty 1).Fails
      (Registry.empty.registerStruct oddRecord).2 (.unsupportedType (.scalar (.integer 7))) r ∧
    (∃ rep r', (represent .empty (.pointer oddRecord)).Ran r rep r') ∧
    ¬ ∃ rep r', (represent .empty oddRecord).Ran r rep r' := by
  refine ⟨_, rfl, ?_⟩
  have occurs : Registry.Occurs .empty _ :=
    .inr (ReflTransGen.head (.resolve oddRecord rfl) (.single (.fields 1 rfl)))
  refine ⟨(represents_supported occurs _).1.2 (.recordHandle rfl rfl), fun h => ?_⟩
  cases (represents_supported occurs _).1.1 h with
  | record _ _ _ fields =>
    cases fields ⟨"flags", .integer 7⟩ (by decide) with
    | integer h => revert h; decide
    | _ => simp_all [Ty.isRecord, Ty.indirectBase]
  | _ => simp_all [Ty.isRecord, Ty.indirectBase, oddRecord]

end GimpleLowering.Layout

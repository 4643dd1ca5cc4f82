import GimpleLowering.Proofs.Flo.Typing
import GimpleLowering.Proofs.Layout.Agreement
import GimpleLowering.Proofs.Lowering.Blocks

/-!
# The types of emitted code

What is checked when a statement is lowered are types of the source, and they are compared up to
forward references. In a consistent set of types, those that agree have the same expansion, and so
the same runtime type. From there it is an induction over the descriptions of the code: the variable
that an operand is read into has the runtime type of the operand, and the calls are those that the
statement asks for.

It does not matter which other types the registry has. The set has to have the types of the function
and of the index, since all that is compared in the function is among them or a part of one.

There is one exception. An integer constant of a real type becomes a double whatever its width, so
its variable has a type even where the runtime has none for it.

## Main definitions

* `Lowering.Completes` — the object in the end, where the types of the function are consistent
* `Lowering.Carries` — a variable with the runtime type of a type
* `Lowering.Receives` — a variable with the runtime type of an operand

## Main results

* `Lowering.Completes.reads`, `writes` — the code of operands moves values
* `Lowering.Completes.performs`, `leaves` — the code of statements calls what they ask for
-/

namespace GimpleLowering

open Gimple Layout

namespace Lowering

/-! ### The object in the end -/

/-- The object of a function whose types are in a consistent set. -/
structure Completes (S : Ty → Prop) (P : Setting) (w : State) (r : Registry) (o : Flo.Object) :
    Prop extends Finishes P w r o where
  consistent : P.index.Consistent S
  occurs : ∀ ty ∈ P.function.types, S ty

/-- The variable has the runtime type of the values of the type. A real number has sixty-four bits
whatever its type says. -/
def Carries (x : UnitIndex) (r : Registry) (o : Flo.Object) (v : Nat) (ty : Ty) : Prop :=
  (∃ typ, HasValueType x r ty typ ∧ o.HasType v typ) ∨
    ((∃ width, ty = .real width) ∧ o.HasType v .double)

/-- The variable has the runtime type of the operand. Only a constant can do without one. -/
def Receives (x : UnitIndex) (r : Registry) (o : Flo.Object) (v : Nat) (e : Expr) : Prop :=
  (∃ typ, HasValueType x r e.ty typ ∧ o.HasType v typ) ∨
    ((∃ width value, e = .integer (.real width) value) ∧ o.HasType v .double)

section

variable {S : Ty → Prop} {P : Setting} {ps : Polyfills} {w : State} {r : Registry} {o : Flo.Object}

theorem Receives.carries {x : UnitIndex} {v : Nat} {e : Expr} (h : Receives x r o v e) :
    Carries x r o v e.ty := by
  obtain h | ⟨⟨width, value, rfl⟩, hv⟩ := h
  · exact .inl h
  · exact .inr ⟨⟨width, rfl⟩, hv⟩

/-- The type of the variable, where the runtime has one. -/
theorem Carries.hasType {x : UnitIndex} {v : Nat} {ty : Ty} {typ : Flo.Ty}
    (h : Carries x r o v ty) (ht : HasValueType x r ty typ) : o.HasType v typ := by
  rcases h with ⟨typ', ht', hv⟩ | ⟨⟨width, rfl⟩, hv⟩
  · exact ht.unique ht' ▸ hv
  · exact ht.eq_double ▸ hv

/-! ### Handles -/

/-- A pointer or reference is a handle to a value of the type that it points to. -/
theorem Carries.accesses_whole {x : UnitIndex} {pointer pointee : Ty} {v : Nat}
    (hv : Carries x r o v pointer) (hb : pointer.indirectBase = some pointee) {typ : Flo.Ty}
    (ht : HasValueType x r pointee typ) : o.Accesses v .whole typ := by
  rcases hv with ⟨typ', ⟨rep', hrep', rfl⟩, hv⟩ | ⟨⟨width, rfl⟩, -⟩
  · obtain ⟨rep, hrep, rfl⟩ := ht
    exact .whole (hrep'.pointee hb hrep ▸ hv)
  · simp [Ty.indirectBase] at hb

/-- A real that a pointer points to is one that the runtime has. -/
theorem Carries.hasValueType_pointee {x : UnitIndex} {pointer : Ty} {width : Nat}
    {v : Nat} (hv : Carries x r o v pointer) (hb : pointer.indirectBase = some (.real width)) :
    HasValueType x r (.real width) .double := by
  rcases hv with ⟨typ, ⟨rep, hrep, rfl⟩, -⟩ | ⟨⟨width, rfl⟩, -⟩
  · cases hrep with
    | recordHandle indirect isRecord =>
      obtain rfl := Option.some.inj (hb.symm.trans indirect)
      simp [Ty.isRecord] at isRecord
    | cell indirect noRecord direct target =>
      obtain rfl := Option.some.inj (hb.symm.trans indirect)
      have ht : HasValueType x r (.real width) _ := ⟨_, target, rfl⟩
      exact ht.eq_double ▸ ht
    | record isRecord => cases pointer <;> simp [Ty.isRecord, Ty.indirectBase] at isRecord hb
    | _ => simp [Ty.indirectBase] at hb
  · simp [Ty.indirectBase] at hb

/-- A routine that compares values of one type. -/
theorem invokes_comparison {x : UnitIndex} {op : Operator} {ty : Ty} {typ : Flo.Ty} {name : String}
    {a b v : Nat} {note : Flo.Note} (htyp : HasValueType x r ty typ) (ha : o.HasType a typ)
    (hb : o.HasType b typ) (hv : o.HasType v .bool)
    (isRoutine : ps.forOperation? op [typ, typ] .bool = some name) :
    o.Invokes x r ps (.operation op [ty, ty] .boolean) (.call (.builtin name) [a, b] [v] note) :=
  .routine (.cons htyp (.cons htyp .nil)) ⟨_, .boolean, rfl⟩ isRoutine (.cons ha (.cons hb .nil)) hv

theorem Finishes.hasType_of_temp (h : Finishes P w r o) {v : Nat} {typ : Flo.Ty}
    (ht : Temp w v typ) : o.HasType v typ := by
  obtain ⟨row, hrow, htyp, -⟩ := ht
  exact ⟨row, (h.vars_get v).trans hrow, htyp⟩

namespace Completes

variable (h : Completes S P w r o)

include h

theorem hasType_of_mem {v : Var} (hv : v ∈ w.scope) :
    HasValueType P.index r v.ty v.typ ∧ o.HasType v.id v.typ := by
  have hholds := h.inv.holds v hv
  obtain ⟨row, hrow, htyp, -⟩ := hholds.row
  exact ⟨⟨_, hholds.represents.mono h.grows, rfl⟩, row, (h.vars_get v.id).trans hrow, htyp⟩

/-- The type of a variable in scope is written where it is declared. -/
theorem occurs_of_mem {v : Var} (hv : v ∈ w.scope) : S v.ty := by
  have hdeclared := (h.inv.holds v hv).declared
  generalize v.usage = usage at hdeclared
  cases usage with
  | parameter => exact h.occurs _ (Function.mem_types_of_parameter hdeclared)
  | automatic => exact h.occurs _ (Function.mem_types_of_local hdeclared)
  | global => exact h.consistent.toClosed.global?_mem hdeclared
  | returnSlot | temporary => cases hdeclared

/-- Types that agree have the same runtime type. -/
theorem hasValueType_congr {a b : Ty} (ha : S a) (hb : S b) (hab : a.agrees b)
    {typ : Flo.Ty} : HasValueType P.index r a typ ↔ HasValueType P.index r b typ := by
  have he := h.consistent.expand_eq ha hb hab
  exact ⟨fun ht => ht.congr he, fun ht => ht.congr he.symm⟩

/-- A struct whose fields are known can be used, and its members are the fields. -/
theorem hasMembers {id : Nat} {slots : List Slot} (hk : w.types.Knows id slots) :
    o.HasMembers id (slots.map Slot.typ) := by
  obtain ⟨s, hs, hslots⟩ := hk.mono h.grows
  refine ⟨s.entry, ?_, ?_, ?_⟩
  · rw [h.object, Flo.Table.get?_eq_rows]
    cases id with
    | zero => simp at hs
    | succ i =>
      have hs : r.structs[i]? = some s := hs
      simp [Registry.tables, Flo.Table.rows, hs]
  · simp [RecordStruct.entry, hslots]
  · simp [RecordStruct.entry, hslots]

/-- The field that an expression accesses is a member of its struct. -/
theorem isSlot {record : Ty} {struct : Nat} {slots : List Slot} {member : String} {slot : Slot}
    (hS : S record) (hi : IsSlot P.index w record struct slots member slot) :
    (slots.map Slot.typ)[slot.index]? = some slot.typ ∧ S slot.ty ∧
      HasValueType P.index r slot.ty slot.typ := by
  obtain ⟨hslot, hfield, rep, hrep, htyp⟩ := hi.laidOut.of_mem hi.mem
  refine ⟨by rw [List.getElem?_map, hslot]; rfl, ?_, rep, hrep.mono h.grows, htyp⟩
  have hS' := h.consistent.toClosed.complete hS
  exact h.consistent.toClosed.field_of_mem hS' (List.mem_of_getElem? hfield)

/-- One variable for each member. -/
theorem forall₂_of_areTemps {first : Nat} {slots : List Slot} (ht : AreTemps w first slots) :
    List.Forall₂ o.HasType (List.range' first slots.length) (slots.map Slot.typ) := by
  refine List.forall₂_iff_get.2 ⟨by simp, fun i hi hi' => ?_⟩
  have hi : i < slots.length := by simpa using hi
  have htemp := h.hasType_of_temp (ht (List.getElem?_eq_getElem hi))
  simpa using htemp

theorem isConstant {e : Expr} {c : Flo.Constant} (hc : IsConstant P.index w e c) {v : Nat}
    (hv : o.HasType v c.typ) : Receives P.index r o v e := by
  cases hc with
  | @integer width value rep c represents constant =>
    exact .inl ⟨c.typ, ⟨rep, represents.mono h.grows, typ_of_integerConstant constant⟩, hv⟩
  | truth => exact .inl ⟨.bool, ⟨_, .boolean, rfl⟩, hv⟩
  | rounded => exact .inr ⟨⟨_, _, rfl⟩, hv⟩
  | null represents => exact .inl ⟨_, ⟨_, represents.mono h.grows, rfl⟩, hv⟩
  | real represents isDouble =>
    exact .inl ⟨_, ⟨_, represents.mono h.grows, isDouble.symm⟩, hv⟩

theorem carries_congr {a b : Ty} (ha : S a) (hb : S b) (hab : a.agrees b) {v : Nat} :
    Carries P.index r o v a ↔ Carries P.index r o v b := by
  have hreal : (∃ width, a = .real width) ↔ ∃ width, b = .real width := by
    constructor
    · rintro ⟨width, rfl⟩
      cases b <;> simp [Ty.agrees] at hab ⊢
    · rintro ⟨width, rfl⟩
      cases a <;> simp [Ty.agrees] at hab ⊢
  unfold Carries
  rw [hreal]
  simp only [h.hasValueType_congr ha hb hab]

/-- A variable in scope has the runtime type of any type that agrees with its own. -/
theorem typed_of_mem {v : Var} {ty : Ty} (hv : v ∈ w.scope) (hS : S ty) (agrees : ty.agrees v.ty) :
    HasValueType P.index r ty v.typ ∧ o.HasType v.id v.typ := by
  obtain ⟨htyp, hvar⟩ := h.hasType_of_mem hv
  exact ⟨(h.hasValueType_congr hS (h.occurs_of_mem hv) agrees).2 htyp, hvar⟩

/-! ### Handles and arrays -/

/-- A pointer or reference to a registered record is a handle to its struct. -/
theorem hasType_handle {pointer record : Ty} {struct : Nat} {slots : List Slot} {member : String}
    {slot : Slot} (hb : pointer.indirectBase = some record)
    (hi : IsSlot P.index w record struct slots member slot) {v : Nat}
    (hv : Carries P.index r o v pointer) :
    o.HasType v (.handle (.struct struct) pointer.isNullable) :=
  hv.hasType ⟨_, .recordHandle hb hi.isRecord (h.grows.structOf? hi.registered), rfl⟩

/-- An array has members of the type of its elements. -/
theorem accesses_element {base index : Ty} {length : Nat} (hint : index.isIntegral) {a i : Nat}
    (ha : Carries P.index r o a (.array base length)) (hi : Carries P.index r o i index) :
    ∃ typ, HasValueType P.index r base typ ∧ o.Accesses a (.element i) typ := by
  rcases ha with ⟨typ, ⟨rep, hrep, rfl⟩, ha⟩ | ⟨⟨width, hw⟩, -⟩
  · rcases hi with ⟨typ', htyp', hi⟩ | ⟨⟨width, rfl⟩, -⟩
    · cases hrep with
      | @array _ _ j member memberType registered =>
        have hj : r.arrays[j]? = some (member.valueType, length) := by
          obtain ⟨hlt, hp, -⟩ := List.findIdx?_eq_some_iff_getElem.1 registered
          rw [List.getElem?_eq_getElem hlt]
          exact congrArg some (by simpa using hp)
        have hget : o.types.arrays.get? (j + 1) = some ⟨member.valueType, length, .usable⟩ := by
          rw [h.object, Flo.Table.get?_eq_rows]
          simp [Registry.tables, Flo.Table.rows, hj]
        exact ⟨_, ⟨member, memberType, rfl⟩, .element ha hget rfl hi (htyp'.isInteger hint)⟩
      | record isRecord => simp [Ty.isRecord] at isRecord
      | recordHandle indirect => simp [Ty.indirectBase] at indirect
      | cell indirect => simp [Ty.indirectBase] at indirect
    · simp [Ty.isIntegral] at hint
  · cases hw

/-- The field that is accessed through a pointer. -/
theorem accesses_field {pointer record : Ty} (hS : S pointer) {struct : Nat}
    {slots : List Slot} {member : String} {slot : Slot} (hb : pointer.indirectBase = some record)
    (hi : IsSlot P.index w record struct slots member slot) {v : Nat}
    (hv : Carries P.index r o v pointer) : o.Accesses v slot.member slot.typ :=
  .field (h.hasType_handle hb hi hv) (h.hasMembers hi.known)
    (h.isSlot (h.consistent.toClosed.indirectBase hS hb) hi).1

/-- A record by value has the type of its struct. -/
theorem hasValueType_struct {record : Ty} {struct : Nat} {slots : List Slot} {member : String}
    {slot : Slot} (hi : IsSlot P.index w record struct slots member slot) :
    HasValueType P.index r record (.struct struct) :=
  ⟨_, .record hi.isRecord (h.grows.structOf? hi.registered) (hi.known.mono h.grows), rfl⟩

/-! ### Operands -/

/-- An operand is read into a variable of its type, by code that only moves values. -/
theorem reads {e : Expr} {n v m : Nat} {code : List Flo.Statement}
    (hr : Reads P.index w e n v code m) (hS : ∀ ty ∈ e.types, S ty) :
    (∀ s ∈ code, o.Moves s) ∧ Receives P.index r o v e := by
  induction hr with
  | constant isConstant temp noted =>
    have htemp := h.hasType_of_temp temp
    exact ⟨by simpa using .assignConst htemp, h.isConstant isConstant htemp⟩
  | @named ty v n m le mem agrees =>
    exact ⟨by simp, .inl ⟨_, h.typed_of_mem mem (hS ty (by simp [Expr.types])) agrees⟩⟩
  | @through ty rty record pointer member struct slots slot n handle m code note base isSlot agrees
      readPointer temp noted ih =>
    have hpointer : S pointer.ty := hS _ (by simp [Expr.types, pointer.ty_mem_types])
    obtain ⟨hcode, hv⟩ := ih fun t ht => hS t (by simp [Expr.types, ht])
    obtain ⟨-, hslot, htyp⟩ :=
      h.isSlot (h.consistent.toClosed.indirectBase hpointer base) isSlot
    have htemp := h.hasType_of_temp temp
    have hload : o.Moves (.load handle slot.member m note) :=
      .load (h.accesses_field hpointer base isSlot hv.carries) htemp
    have htyp' := (h.hasValueType_congr (hS ty (by simp [Expr.types])) hslot agrees).2 htyp
    exact ⟨List.forall_mem_append.2 ⟨hcode, by simpa using hload⟩, .inl ⟨_, htyp', htemp⟩⟩
  | @part ty base member struct slots slot n whole m code note direct isSlot agrees readWhole temps
      noted ih =>
    have hbase : S base.ty := hS _ (by simp [Expr.types, base.ty_mem_types])
    obtain ⟨hcode, hv⟩ := ih fun t ht => hS t (by simp [Expr.types, ht])
    obtain ⟨-, hslot, htyp⟩ := h.isSlot hbase isSlot
    have hpart := h.hasType_of_temp (temps isSlot.getElem?_index)
    have hparts : o.Moves (.destructure whole (List.range' m slots.length) note) :=
      .destructure (hv.carries.hasType (h.hasValueType_struct isSlot)) (h.hasMembers isSlot.known)
        (h.forall₂_of_areTemps temps)
    have htyp' := (h.hasValueType_congr (hS ty (by simp [Expr.types])) hslot agrees).2 htyp
    exact ⟨List.forall_mem_append.2 ⟨hcode, by simpa using hparts⟩, .inl ⟨_, htyp', hpart⟩⟩
  | @deref ty pointee pointer rep n handle m code note base agrees represents readPointer temp noted
      ih =>
    have hpointer : S pointer.ty := hS _ (by simp [Expr.types, pointer.ty_mem_types])
    have hty : S ty := hS ty (by simp [Expr.types])
    obtain ⟨hcode, hv⟩ := ih fun t ht => hS t (by simp [Expr.types, ht])
    have hrep : HasValueType P.index r ty rep.valueType := ⟨rep, represents.mono h.grows, rfl⟩
    have htemp := h.hasType_of_temp temp
    have hload : o.Moves (.load handle .whole m note) :=
      .load (hv.carries.accesses_whole base ((h.hasValueType_congr hty
        (h.consistent.toClosed.indirectBase hpointer base) agrees).1 hrep)) htemp
    exact ⟨List.forall_mem_append.2 ⟨hcode, by simpa using hload⟩, .inl ⟨_, hrep, htemp⟩⟩
  | @element ty base length array index rep n a k i m code code' note isArray agrees integral
      represents readArray readIndex temp noted iha ihi =>
    have hty : S ty := hS ty (by simp [Expr.types])
    obtain ⟨hcode, ha⟩ := iha fun t ht => hS t (by simp [Expr.types, ht])
    obtain ⟨hcode', hi⟩ := ihi fun t ht => hS t (by simp [Expr.types, ht])
    have harray : S (.array base length) :=
      isArray ▸ hS _ (by simp [Expr.types, array.ty_mem_types])
    obtain ⟨typ, htyp, haccess⟩ := h.accesses_element integral (isArray ▸ ha.carries) hi.carries
    have hrep : HasValueType P.index r ty rep.valueType := ⟨rep, represents.mono h.grows, rfl⟩
    have hsame := (h.hasValueType_congr hty (h.consistent.array harray) agrees).1 hrep
    have htemp := h.hasType_of_temp temp
    have hload : o.Moves (.load a (.element i) m note) := .load (htyp.unique hsame ▸ haccess) htemp
    have hcodes := List.forall_mem_append.2 ⟨hcode, hcode'⟩
    exact ⟨List.forall_mem_append.2 ⟨hcodes, by simpa using hload⟩, .inl ⟨_, hrep, htemp⟩⟩

/-- A variable of the type of the target is written by code that only moves values. -/
theorem writes {e : Expr} {n v m : Nat} {code : List Flo.Statement}
    (hw : Writes P.index w e n v code m) (hS : ∀ ty ∈ e.types, S ty)
    (hv : Carries P.index r o v e.ty) : ∀ s ∈ code, o.Moves s := by
  induction hw with
  | @named ty u value n m note le mem agrees noted =>
    obtain ⟨htyp, hvar⟩ := h.typed_of_mem mem (hS ty (by simp [Expr.types])) agrees
    simpa using .assign hvar (hv.hasType htyp)
  | @through ty rty record pointer member struct slots slot value n handle m code note base isSlot
      agrees readPointer noted =>
    have hpointer : S pointer.ty := hS _ (by simp [Expr.types, pointer.ty_mem_types])
    obtain ⟨hcode, hp⟩ := h.reads readPointer fun t ht => hS t (by simp [Expr.types, ht])
    obtain ⟨-, hslot, htyp⟩ :=
      h.isSlot (h.consistent.toClosed.indirectBase hpointer base) isSlot
    have htyp' := (h.hasValueType_congr (hS ty (by simp [Expr.types])) hslot agrees).2 htyp
    have hstore : o.Moves (.store handle slot.member value note) :=
      .store (h.accesses_field hpointer base isSlot hp.carries) (hv.hasType htyp')
    exact List.forall_mem_append.2 ⟨hcode, by simpa using hstore⟩
  | @part ty base member struct slots slot value n whole k m code code' note note' direct isSlot
      agrees readWhole temps temp writeBase noted noted' ih =>
    have hbase : S base.ty := hS _ (by simp [Expr.types, base.ty_mem_types])
    obtain ⟨hcode, hwhole⟩ := h.reads readWhole fun t ht => hS t (by simp [Expr.types, ht])
    obtain ⟨hmember, hslot, htyp⟩ := h.isSlot hbase isSlot
    have htyp' := (h.hasValueType_congr (hS ty (by simp [Expr.types])) hslot agrees).2 htyp
    have htemp := h.hasType_of_temp temp
    have hparts := h.forall₂_of_areTemps temps
    have hset : List.Forall₂ o.HasType ((List.range' k slots.length).set slot.index value)
        (slots.map Slot.typ) := Flo.Object.forall₂_set hparts hmember (hv.hasType htyp')
    have hstruct := h.hasValueType_struct isSlot
    have hcode' := ih (fun t ht => hS t (by simp [Expr.types, ht])) (.inl ⟨_, hstruct, htemp⟩)
    have hmiddle : ∀ s ∈ [Flo.Statement.destructure whole (List.range' k slots.length) note,
        .construct (k + slots.length) ((List.range' k slots.length).set slot.index value) note'],
        o.Moves s := by
      simp only [List.mem_cons, List.not_mem_nil, or_false, forall_eq_or_imp, forall_eq]
      exact ⟨.destructure (hwhole.carries.hasType hstruct) (h.hasMembers isSlot.known) hparts,
        .construct htemp (h.hasMembers isSlot.known) hset⟩
    exact List.forall_mem_append.2 ⟨List.forall_mem_append.2 ⟨hcode, hmiddle⟩, hcode'⟩
  | @deref ty pointee pointer value n handle m code note base agrees readPointer noted =>
    have hpointer : S pointer.ty := hS _ (by simp [Expr.types, pointer.ty_mem_types])
    have hpointee := h.consistent.toClosed.indirectBase hpointer base
    obtain ⟨hcode, hp⟩ := h.reads readPointer fun t ht => hS t (by simp [Expr.types, ht])
    have hstore : o.Moves (.store handle .whole value note) := by
      rcases (h.carries_congr (hS ty (by simp [Expr.types])) hpointee agrees).1 hv with
        ⟨typ, htyp, hval⟩ | ⟨⟨width, rfl⟩, hval⟩
      · exact .store (hp.carries.accesses_whole base htyp) hval
      · exact .store (hp.carries.accesses_whole base (hp.carries.hasValueType_pointee base)) hval
    exact List.forall_mem_append.2 ⟨hcode, by simpa using hstore⟩
  | @element ty base length array index value n a k i m code code' note isArray agrees integral
      readArray readIndex noted =>
    obtain ⟨hcode, ha⟩ := h.reads readArray fun t ht => hS t (by simp [Expr.types, ht])
    obtain ⟨hcode', hi⟩ := h.reads readIndex fun t ht => hS t (by simp [Expr.types, ht])
    have harray : S (.array base length) :=
      isArray ▸ hS _ (by simp [Expr.types, array.ty_mem_types])
    obtain ⟨typ, htyp, haccess⟩ := h.accesses_element integral (isArray ▸ ha.carries) hi.carries
    have htyp' := (h.hasValueType_congr (hS ty (by simp [Expr.types]))
      (h.consistent.array harray) agrees).2 htyp
    have hstore : o.Moves (.store a (.element i) value note) :=
      .store haccess (hv.hasType htyp')
    exact List.forall_mem_append.2
      ⟨List.forall_mem_append.2 ⟨hcode, hcode'⟩, by simpa using hstore⟩

theorem readsAll {es : List Expr} {n m : Nat} {vs : List Nat} {code : List Flo.Statement}
    (hr : ReadsAll P.index w es n vs code m) (hS : ∀ e ∈ es, ∀ ty ∈ e.types, S ty) :
    (∀ s ∈ code, o.Moves s) ∧ List.Forall₂ (Receives P.index r o) vs es := by
  induction hr with
  | nil n => exact ⟨by simp, .nil⟩
  | @cons e es n v k m vs code code' read rest ih =>
    obtain ⟨hcode, hv⟩ := h.reads read (hS e (by simp))
    obtain ⟨hcode', hvs⟩ := ih fun e' he' => hS e' (by simp [he'])
    exact ⟨List.forall_mem_append.2 ⟨hcode, hcode'⟩, .cons hv hvs⟩

/-- The types that a routine is looked up by are those of the operands in the end. -/
theorem operandTypes {tys : List Ty} {types : List Flo.Ty}
    (ht : List.Forall₂ (HasValueType P.index w.types) tys types) :
    List.Forall₂ (HasValueType P.index r) tys types := ht.imp fun _ _ ht => ht.mono h.grows

/-- Operands that have been read have the types that a routine is looked up by. -/
theorem hasTypes {es : List Expr} {vs : List Nat} {types : List Flo.Ty}
    (hvs : List.Forall₂ (Receives P.index r o) vs es)
    (ht : List.Forall₂ (HasValueType P.index w.types) (es.map Expr.ty) types) :
    List.Forall₂ o.HasType vs types := by
  induction hvs generalizing types with
  | nil =>
    cases ht
    exact .nil
  | cons hv _ ih =>
    cases ht with
    | cons htyp hrest => exact .cons (hv.carries.hasType (htyp.mono h.grows)) (ih hrest)

/-- Operands that agree with parameters are passed with the types of the parameters. -/
theorem passes {arguments : List Expr} {parameters : List Ty} {vs : List Nat}
    (hS : ∀ e ∈ arguments, ∀ ty ∈ e.types, S ty) (hparameters : ∀ p ∈ parameters, S p)
    (passed : List.Forall₂ (fun a p => rejectNull p a = .ok () ∧ a.ty.agrees p) arguments parameters)
    (hvs : List.Forall₂ (Receives P.index r o) vs arguments) :
    Flo.Passes P.index r o vs arguments parameters := by
  induction hvs generalizing parameters with
  | nil =>
    cases passed
    exact .nil
  | @cons v e vs es hv _ ih =>
    obtain ⟨hSe, hSes⟩ := List.forall_mem_cons.1 hS
    cases passed with
    | @cons _ p _ ps hpass hrest =>
      obtain ⟨hp, hps⟩ := List.forall_mem_cons.1 hparameters
      have hothers := ih hSes hps hrest
      obtain ⟨typ, htyp, hvar⟩ | ⟨⟨width, value, rfl⟩, hvar⟩ := hv
      · have htyp' := (h.hasValueType_congr (hSe _ e.ty_mem_types) hp hpass.2).1 htyp
        exact .typed htyp' hvar hothers
      · obtain rfl : Ty.real width = p := Ty.eq_of_agrees_of_isScalar hpass.2 (.inl rfl)
        by_cases hwidth : width = 64
        · subst hwidth
          exact .typed ⟨_, .real, rfl⟩ hvar hothers
        · exact .rounded hwidth hvar hothers

theorem external {callee : Signature} {arguments : List Expr} {vs outputs : List Nat}
    {function : String} {note : Flo.Note} (hc : P.index.function? function = some callee)
    (hS : ∀ e ∈ arguments, ∀ ty ∈ e.types, S ty)
    (passed : List.Forall₂ (fun a p => rejectNull p a = .ok () ∧ a.ty.agrees p) arguments
      callee.parameterTypes)
    (hvs : List.Forall₂ (Receives P.index r o) vs arguments)
    (takes : Flo.Takes P.index r o callee.returnType outputs) :
    o.Invokes P.index r ps (.function function arguments)
      (.call (.external callee.name) vs outputs note) :=
  .external hc (h.passes hS (h.consistent.parameter callee (List.mem_of_find?_eq_some hc)) passed
    hvs) takes

/-! ### Statements -/

/-- The code of an assignment or a call has the calls that it asks for. -/
theorem performs {stmt : Statement} {n m : Nat} {code : List Flo.Statement}
    (hp : Performs P ps w stmt n code m) (hS : ∀ ty ∈ stmt.types, S ty) :
    Flo.CodeTyped P.index r ps o stmt.invocations code := by
  cases hp with
  | @copy op lhs source line n v k m code code' isCopy noNull agrees read write =>
    obtain ⟨hlhs, hops⟩ := Statement.forall_types_assign.1 hS
    have hsource := hops source List.mem_cons_self
    obtain ⟨hcode, hv⟩ := h.reads read hsource
    have hv' := (h.carries_congr (hlhs _ lhs.ty_mem_types) (hsource _ source.ty_mem_types)
      agrees).2 hv.carries
    rw [Statement.invocations, if_pos isCopy]
    exact .of_moves (List.forall_mem_append.2 ⟨hcode, h.writes write hlhs hv'⟩)
  | @operateTo op ty v operands line types result routine n k m vs code note noCopy arity noNull
      checked operandTypes resultType isRoutine reads le mem agrees noted =>
    obtain ⟨hlhs, hops⟩ := Statement.forall_types_assign.1 hS
    obtain ⟨hcode, hvs⟩ := h.readsAll reads hops
    have hresult := resultType.mono h.grows
    obtain ⟨htyp, hvar⟩ := h.typed_of_mem mem (hlhs ty List.mem_cons_self) agrees
    rw [Statement.invocations, if_neg noCopy]
    exact (Flo.CodeTyped.of_moves hcode).append (.of_invokes (.routine (h.operandTypes operandTypes)
      hresult isRoutine (h.hasTypes hvs operandTypes) (htyp.unique hresult ▸ hvar)))
  | @operate op lhs operands line types result routine n k m vs code code' note noCopy arity unnamed
      noNull checked operandTypes resultType isRoutine reads temp write noted =>
    obtain ⟨hlhs, hops⟩ := Statement.forall_types_assign.1 hS
    obtain ⟨hcode, hvs⟩ := h.readsAll reads hops
    have htemp := h.hasType_of_temp temp
    have hresult := resultType.mono h.grows
    have hcall : o.Invokes P.index r ps (.operation op (operands.map Expr.ty) lhs.ty)
        (.call (.builtin routine) vs [k] note) :=
      .routine (h.operandTypes operandTypes) hresult isRoutine (h.hasTypes hvs operandTypes) htemp
    rw [Statement.invocations, if_neg noCopy]
    exact ((Flo.CodeTyped.of_moves hcode).append (.of_invokes hcall)).append
      (.of_moves (h.writes write hlhs (.inl ⟨_, hresult, htemp⟩)))
  | @callTo function callee arguments ty result v line n k m vs code note isCallee passed returns
      stored reads le mem agrees noted =>
    obtain ⟨hargs, hlhs⟩ := Statement.forall_types_call.1 hS
    obtain ⟨hcode, hvs⟩ := h.readsAll reads hargs
    have hty : S ty := hlhs _ rfl ty List.mem_cons_self
    have hresult := h.consistent.result callee (List.mem_of_find?_eq_some isCallee) result returns
    obtain ⟨htyp, hvar⟩ := h.typed_of_mem mem hty agrees
    have htyp' := (h.hasValueType_congr hty hresult stored).1 htyp
    exact (Flo.CodeTyped.of_moves hcode).append (.of_invokes
      (h.external isCallee hargs passed hvs (returns ▸ ⟨_, _, rfl, htyp', hvar⟩)))
  | @callStore function callee arguments lhs result typ line n k m vs code code' note isCallee passed
      returns stored unnamed reads resultType temp write noted =>
    obtain ⟨hargs, hout⟩ := Statement.forall_types_call.1 hS
    have hlhs := hout lhs rfl
    obtain ⟨hcode, hvs⟩ := h.readsAll reads hargs
    have hresult := h.consistent.result callee (List.mem_of_find?_eq_some isCallee) result returns
    have htemp := h.hasType_of_temp temp
    have htyp := resultType.mono h.grows
    have htyp' := (h.hasValueType_congr (hlhs _ lhs.ty_mem_types) hresult stored).1 htyp
    have hcall : o.Invokes P.index r ps (.function function arguments)
        (.call (.external callee.name) vs [k] note) :=
      h.external isCallee hargs passed hvs (returns ▸ ⟨_, _, rfl, htyp', htemp⟩)
    exact ((Flo.CodeTyped.of_moves hcode).append (.of_invokes hcall)).append
      (.of_moves (h.writes write hlhs (.inl ⟨_, htyp, htemp⟩)))
  | @callDiscard function callee arguments result typ line n k vs code note isCallee passed returns
      reads resultType temp noted =>
    obtain ⟨hargs, -⟩ := Statement.forall_types_call.1 hS
    obtain ⟨hcode, hvs⟩ := h.readsAll reads hargs
    exact (Flo.CodeTyped.of_moves hcode).append (.of_invokes (h.external isCallee hargs passed hvs
      (returns ▸ ⟨_, _, rfl, resultType.mono h.grows, h.hasType_of_temp temp⟩)))
  | @callVoid function callee arguments line n m vs code note isCallee passed returns reads noted =>
    obtain ⟨hargs, -⟩ := Statement.forall_types_call.1 hS
    obtain ⟨hcode, hvs⟩ := h.readsAll reads hargs
    exact (Flo.CodeTyped.of_moves hcode).append
      (.of_invokes (h.external isCallee hargs passed hvs (returns ▸ rfl)))

/-! ### Terminators -/

theorem isArm {arm condition target : Nat} (ha : IsArm w arm condition target)
    (hc : o.HasType condition .bool) :
    ∃ row, o.matchArms.get? arm = some row ∧ o.HasType row.condition .bool := by
  obtain ⟨location, hrow, -⟩ := ha
  exact ⟨_, by rw [h.object, Flo.Table.get?_eq_rows]; exact hrow, hc⟩

/-- Labels are compared with a selector of the type that their constants have. -/
theorem compares {selector : Nat} {ty : Ty} {typ : Flo.Ty} (htyp : HasValueType P.index r ty typ)
    (hsel : o.HasType selector typ) {c : Case} {n v m : Nat} {code : List Flo.Statement}
    (hc : Compares ps w selector typ c n v code m) :
    Flo.CodeTyped P.index r ps o (c.invocations ty) code ∧ o.HasType v .bool := by
  cases hc with
  | single isSingle isLow isEq temp result noted noted' =>
    have hlow := h.hasType_of_temp temp
    have hbool := h.hasType_of_temp result
    have hlow' := typ_of_integerConstant isLow ▸ hlow
    rw [Case.invocations, if_pos isSingle]
    exact ⟨.move (.assignConst hlow)
      (.of_invokes (invokes_comparison htyp hsel hlow' hbool isEq)), hbool⟩
  | range isRange isLow isHigh isGe isLe isAnd lowTemp highTemp above below both noted =>
    have hlow := h.hasType_of_temp lowTemp
    have hhigh := h.hasType_of_temp highTemp
    have habove := h.hasType_of_temp above
    have hbelow := h.hasType_of_temp below
    have hboth := h.hasType_of_temp both
    have hlow' := typ_of_integerConstant isLow ▸ hlow
    have hhigh' := typ_of_integerConstant isHigh ▸ hhigh
    rw [Case.invocations, if_neg isRange]
    exact ⟨.move (.assignConst hlow) (.move (.assignConst hhigh)
      (.call (invokes_comparison htyp hsel hlow' habove isGe)
        (.call (invokes_comparison htyp hsel hhigh' hbelow isLe)
          (.of_invokes (invokes_comparison ⟨_, .boolean, rfl⟩ habove hbelow hboth isAnd))))), hboth⟩

theorem arms {selector : Nat} {ty : Ty} {typ : Flo.Ty} (htyp : HasValueType P.index r ty typ)
    (hsel : o.HasType selector typ) {cases : List (Case × Nat)} {n m : Nat}
    {code : List Flo.Statement} {arms : List Nat}
    (ha : Arms ps w selector typ cases n code arms m) :
    Flo.CodeTyped P.index r ps o ((cases.map Prod.fst).flatMap (Case.invocations ty)) code ∧
      ∀ arm ∈ arms, ∃ row, o.matchArms.get? arm = some row ∧ o.HasType row.condition .bool := by
  induction ha with
  | nil n => exact ⟨.nil, by simp⟩
  | cons compare isArm rest ih =>
    obtain ⟨hcode, hv⟩ := h.compares htyp hsel compare
    obtain ⟨hcode', harms⟩ := ih
    exact ⟨hcode.append hcode', List.forall_mem_cons.2 ⟨h.isArm isArm hv, harms⟩⟩

/-- The code of a statement that ends a block has the calls that it asks for, and its exit is well
typed. -/
theorem leaves {stmt : Statement} {n m : Nat} {code : List Flo.Statement} {exit : Flo.BlockExit}
    (hp : Leaves P ps w stmt n code exit m) (hS : ∀ ty ∈ stmt.types, S ty)
    (hret : P.returns.length = P.function.returnType.toList.length) :
    Flo.CodeTyped P.index r ps o stmt.invocations code ∧ Flo.ExitTyped o P.returns exit := by
  cases hp with
  | goto isTarget => exact ⟨.nil, trivial⟩
  | @conditional op left right t f line typ routine tid fid first second n a k b m code code' note
      note' isComparison agrees operandType isTrue isFalse isRoutine readLeft readRight condition
      otherwise isFirst isSecond =>
    have hops := Statement.forall_types_conditional.1 hS
    have hl := hops left List.mem_cons_self
    have hr := hops right (List.mem_cons_of_mem _ List.mem_cons_self)
    obtain ⟨hcode, ha⟩ := h.reads readLeft hl
    obtain ⟨hcode', hb⟩ := h.reads readRight hr
    have htyp := operandType.mono h.grows
    have htyp' := (h.hasValueType_congr (hl _ left.ty_mem_types) (hr _ right.ty_mem_types)
      agrees).1 htyp
    have hcond := h.hasType_of_temp condition
    have hother := h.hasType_of_temp otherwise
    have hcall : o.Invokes P.index r ps (.operation op [left.ty, right.ty] .boolean)
        (.call (.builtin routine) [a, b] [m] note) :=
      .routine (.cons htyp (.cons htyp' .nil)) ⟨_, .boolean, rfl⟩ isRoutine
        (.cons (ha.carries.hasType htyp) (.cons (hb.carries.hasType htyp') .nil)) hcond
    refine ⟨(Flo.CodeTyped.of_moves (List.forall_mem_append.2 ⟨hcode, hcode'⟩)).append
      (.call hcall (.move (.assignConst hother) .nil)), ?_⟩
    simp only [Flo.ExitTyped, List.mem_cons, List.not_mem_nil, or_false, forall_eq_or_imp, forall_eq]
    exact ⟨h.isArm isFirst hcond, h.isArm isSecond hother⟩
  | @switch value cases default line typ targets arms d last n v k m code code' note integral
      selectorType valid areTargets isDefault read areArms otherwise isLast =>
    have htyp := selectorType.mono h.grows
    obtain ⟨hcode, hv⟩ := h.reads read hS
    obtain ⟨hcode', harms⟩ := h.arms htyp (hv.carries.hasType htyp) areArms
    have hlength : cases.length = targets.length := by simpa using congrArg List.length areTargets
    rw [List.map_fst_zip (Nat.le_of_eq hlength)] at hcode'
    have hother := h.hasType_of_temp otherwise
    refine ⟨?_, List.forall_mem_append.2 ⟨harms, by simpa using h.isArm isLast hother⟩⟩
    have hlast : ∀ s ∈ [Flo.Statement.assignConst m (.ofBool true) note], o.Moves s := by
      simpa using .assignConst hother
    have hall := ((Flo.CodeTyped.of_moves hcode).append hcode').append (.of_moves hlast)
    rwa [List.nil_append, List.append_nil] at hall
  | retVoid isVoid =>
    have hnil : P.returns = [] := by simpa [isVoid] using hret
    exact ⟨.nil, hnil.symm⟩
  | @ret value ty line slot n v m code note isResult isSlot noNull agrees read noted =>
    have hvalue := Statement.forall_types_ret.1 hS value rfl
    obtain ⟨hcode, hv⟩ := h.reads read hvalue
    obtain ⟨ty', rep, row, hty, hrep, hrow, htyp, -⟩ := h.inv.result slot (by simp [isSlot])
    obtain rfl := Option.some.inj (isResult.symm.trans hty)
    have hslot : o.HasType slot rep.valueType := ⟨row, (h.vars_get slot).trans hrow, htyp⟩
    have hresult := h.occurs ty (Function.mem_types_of_returnType isResult)
    have htyp' := (h.hasValueType_congr (hvalue _ value.ty_mem_types) hresult
      agrees).2 ⟨rep, hrep.mono h.grows, rfl⟩
    have hassign : o.Moves (.assign slot v note) := .assign hslot (hv.carries.hasType htyp')
    exact ⟨.of_moves (List.forall_mem_append.2 ⟨hcode, by simpa using hassign⟩), isSlot.symm⟩

/-- The code of each statement of a block has the calls that it asks for, and the exit is well
typed. -/
theorem lowersAll {stmts : List Statement} {n m : Nat} {codes : List (List Flo.Statement)}
    {exit : Option Flo.BlockExit} (hl : LowersAll P ps w stmts n codes exit m)
    (hS : ∀ stmt ∈ stmts, ∀ ty ∈ stmt.types, S ty)
    (hret : P.returns.length = P.function.returnType.toList.length) :
    List.Forall₂ (fun stmt code => Flo.CodeTyped P.index r ps o stmt.invocations code) stmts codes ∧
      ∀ e, exit = some e → Flo.ExitTyped o P.returns e := by
  induction hl with
  | nil n => exact ⟨.nil, by simp⟩
  | @leave stmt n m code exit leaves =>
    obtain ⟨hcode, hexit⟩ := h.leaves leaves (hS stmt (by simp)) hret
    exact ⟨.cons hcode .nil, fun e he => Option.some.inj he ▸ hexit⟩
  | @perform stmt rest n k m code codes exit performs others ih =>
    obtain ⟨hcodes, hexit⟩ := ih fun t ht => hS t (by simp [ht])
    exact ⟨.cons (h.performs performs (hS stmt (by simp))) hcodes, hexit⟩

end Completes

end

end Lowering

end GimpleLowering

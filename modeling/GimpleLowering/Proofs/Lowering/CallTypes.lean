import GimpleLowering.Proofs.Layout.Support
import GimpleLowering.Proofs.Lowering.Admission

/-!
# Types that cross a call

The types that the unit declares for a function are not translated where it is called. A call rests
on what it passes: the type of an argument agrees with that of the parameter, and an argument is
read from a place that has a type which is supported. So no value of a type without a runtime type
is passed to a function or comes back from it, with two exceptions.

An integer that is written as a constant of a real type becomes a double, whatever the width of the
real type is. Nothing asks for the type of such a constant, as is done for all others. And the type
of the place may differ from the declared type in what a forward reference inside of a record stands
for, so that it is supported and the declared type is not. The place is one that the argument names:
the variable with its declaration, or the field in the definition of its record. Where the types of
the function and of the index are consistent, there is no such place.

This is about calls wherever lowering comes to one (`Arrives`), whether or not the rest of the
function can be lowered.

## Main definitions

* `Gimple.Expr.StoredAs`, `Gimple.Expr.variableType?` — the type of the place that is read or written
* `Lowering.IsRounded`, `Lowering.Ambiguous` — the exceptions
* `Gimple.Statement.Crosses` — the types of a call
* `Lowering.Arrives` — the states in which the statements of a function are lowered

## Main results

* `Lowering.Reads.exists_supported` — what is read has a supported type
* `Gimple.Signature.Serves.isSupported` — consistent types make no exception
* `Lowering.statement_crosses` — the types of all calls that are lowered
* `Lowering.passingOuter_passes` — a record that is passed and has no layout as it is declared
-/

namespace GimpleLowering

open Gimple Layout

/-! ### Supported types -/

namespace Layout

variable {x : UnitIndex} {S : Ty → Prop} {A : Flo.Ty × Nat → Prop} {r : Registry} {ty ty' : Ty}

theorem Represents.supported {rep : Representation} (h : Represents x r ty rep)
    (hs : r.SoundUpTo x S A) : Supported x ty :=
  judged_ok_iff.1 (h.judged hs)

/-- Forward references do not matter for what they stand for. -/
theorem Supported.congr (h : Supported x ty) (he : x.expand ty = x.expand ty') :
    Supported x ty' := by
  have hempty : Registry.empty.SoundUpTo x (fun _ => True) fun _ => False := .empty x _
  obtain ⟨rep, r, hrun⟩ := exists_represent_ran hempty h.judged
  have hs := ((represent_keeps (.univ x) trivial).ran hrun hempty).sound
  exact ((represent_ran (.univ x) trivial hempty hrun).congr he).supported hs

theorem Supported.width {width : Nat} (h : Supported x (.integer width)) :
    width = 32 ∨ width = 64 := by
  cases h with
  | integer h => exact h
  | record isRecord => cases isRecord
  | recordHandle indirect => cases indirect
  | cell indirect => cases indirect

theorem Supported.width_real {width : Nat} (h : Supported x (.real width)) : width = 64 := by
  cases h with
  | real => rfl
  | record isRecord => cases isRecord
  | recordHandle indirect => cases indirect
  | cell indirect => cases indirect

end Layout

/-! ### Places -/

namespace Gimple

/-- The type of the variable that the operand stands for, or of the one that is made for it. -/
def Expr.variableType? (x : UnitIndex) (f : Function) : Expr → Option Ty
  | .named _ name => f.typeOf? x name
  | .integer ty _ | .real ty _ | .component ty _ _ | .deref ty _ | .element ty _ _
  | .address ty _ => some ty

/-- The operand is read from a place of the type. A field has the type that the definition of its
record gives it, and so has the field of a record that a pointer points to. -/
inductive Expr.StoredAs (x : UnitIndex) (f : Function) : Expr → Ty → Prop where
  | through {ty rty record field : Ty} {pointer : Expr} {member : String}
      (base : pointer.ty.indirectBase = some record)
      (isField : ⟨member, field⟩ ∈ (x.complete record).fields) :
      StoredAs x f (.component ty (.deref rty pointer) member) field
  | part {ty field : Ty} {base : Expr} {member : String}
      (direct : ∀ rty pointer, base ≠ .deref rty pointer)
      (isField : ⟨member, field⟩ ∈ (x.complete base.ty).fields) :
      StoredAs x f (.component ty base member) field
  | whole {e : Expr} {ty : Ty} (noPart : ∀ ty base member, e ≠ .component ty base member)
      (isVariable : e.variableType? x f = some ty) : StoredAs x f e ty

variable {x : UnitIndex} {S : Ty → Prop} {f : Function}

theorem Expr.variableType?_unnamed {e : Expr} (h : ∀ ty name, e ≠ .named ty name) :
    e.variableType? x f = some e.ty := by
  cases e with
  | named ty name => exact absurd rfl (h ty name)
  | _ => rfl

/-- The types of variables are among those of the function and of the index. -/
theorem Function.typeOf?_mem (closed : x.Closed S) (occurs : ∀ ty ∈ f.types, S ty) {name : String}
    {ty : Ty} (h : f.typeOf? x name = some ty) : S ty := by
  unfold Function.typeOf? at h
  cases hfind : (f.parameters ++ f.locals).find? fun d => d.name = name with
  | some d =>
    rw [hfind] at h
    obtain rfl := Option.some.inj h
    rcases List.mem_append.1 (List.mem_of_find?_eq_some hfind) with hd | hd
    · exact occurs _ (Function.mem_types_of_parameter hd)
    · exact occurs _ (Function.mem_types_of_local hd)
  | none =>
    rw [hfind] at h
    exact closed.global?_mem h

theorem Expr.variableType?_mem (closed : x.Closed S) (occurs : ∀ ty ∈ f.types, S ty) {e : Expr}
    (hS : ∀ ty ∈ e.types, S ty) {ty : Ty} (h : e.variableType? x f = some ty) : S ty := by
  cases e with
  | named written name => exact Function.typeOf?_mem closed occurs h
  | _ => exact Option.some.inj h ▸ hS _ (Expr.ty_mem_types _)

/-- So are the types of all places. -/
theorem Expr.StoredAs.mem (closed : x.Closed S) (occurs : ∀ ty ∈ f.types, S ty) {e : Expr}
    (hS : ∀ ty ∈ e.types, S ty) {ty : Ty} (h : e.StoredAs x f ty) : S ty := by
  cases h with
  | through base isField =>
    have hpointer := hS _ (List.mem_cons_of_mem _ (List.mem_cons_of_mem _ (Expr.ty_mem_types _)))
    exact closed.field_of_mem (closed.complete (closed.indirectBase hpointer base)) isField
  | part direct isField =>
    have hbase := hS _ (List.mem_cons_of_mem _ (Expr.ty_mem_types _))
    exact closed.field_of_mem (closed.complete hbase) isField
  | whole noPart isVariable => exact Expr.variableType?_mem closed occurs hS isVariable

end Gimple

namespace Lowering

/-! ### Exceptions -/

/-- The operand is an integer, written as a constant of a real type that is not supported. -/
def IsRounded (e : Expr) : Prop := ∃ width value, width ≠ 64 ∧ e = .integer (.real width) value

/-- The type as it is written agrees with that of a place, which is supported and is not the
declared one, once forward references are replaced. -/
def Ambiguous (x : UnitIndex) (place : Ty → Prop) (written declared : Ty) : Prop :=
  ∃ ty, place ty ∧ written.agrees ty ∧ Supported x ty ∧ x.expand ty ≠ x.expand declared

/-- No scalar type is ambiguous. -/
theorem not_ambiguous_of_isScalar {x : UnitIndex} {place : Ty → Prop} {written declared : Ty}
    (agrees : written.agrees declared) (hs : declared.isScalar) :
    ¬ Ambiguous x place written declared := by
  obtain rfl := Ty.eq_of_agrees_of_isScalar agrees (.inr hs)
  rintro ⟨ty, -, hty, -, hne⟩
  exact hne (congrArg x.expand (Ty.eq_of_agrees_of_isScalar hty (.inl hs)).symm)

/-- No type is ambiguous where all types that agree have the same expansion. -/
theorem not_ambiguous_of_consistent {x : UnitIndex} {S place : Ty → Prop} (hx : x.Consistent S)
    (hplace : ∀ ty, place ty → S ty) {written declared : Ty} (hw : S written) (hd : S declared)
    (agrees : written.agrees declared) : ¬ Ambiguous x place written declared := by
  rintro ⟨ty, hty, hagrees, -, hne⟩
  exact hne ((hx.expand_eq hw (hplace ty hty) hagrees).symm.trans (hx.expand_eq hw hd agrees))

/-- The type that is declared agrees with the type as it is written, and it is supported unless the
latter is ambiguous. -/
structure Vouched (x : UnitIndex) (place : Ty → Prop) (written declared : Ty) : Prop where
  agrees : written.agrees declared
  supported : Supported x declared ∨ Ambiguous x place written declared

theorem Vouched.of_supported {x : UnitIndex} {place : Ty → Prop} {written declared ty : Ty}
    (agrees : written.agrees declared) (hty : written.agrees ty) (hplace : place ty)
    (h : Supported x ty) : Vouched x place written declared := by
  refine ⟨agrees, ?_⟩
  by_cases he : x.expand ty = x.expand declared
  · exact .inl (h.congr he)
  · exact .inr ⟨ty, hplace, hty, h, he⟩

theorem Vouched.supported_of_isScalar {x : UnitIndex} {place : Ty → Prop} {written declared : Ty}
    (h : Vouched x place written declared) (hs : declared.isScalar) : Supported x declared :=
  h.supported.resolve_right (not_ambiguous_of_isScalar h.agrees hs)

theorem Vouched.supported_of_consistent {x : UnitIndex} {S place : Ty → Prop} (hx : x.Consistent S)
    (hplace : ∀ ty, place ty → S ty) {written declared : Ty} (hw : S written) (hd : S declared)
    (h : Vouched x place written declared) : Supported x declared :=
  h.supported.resolve_right (not_ambiguous_of_consistent hx hplace hw hd h.agrees)

end Lowering

open Lowering

/-! ### Calls -/

/-- The types that a function is declared with, where it is called. -/
structure Gimple.Signature.Serves (x : UnitIndex) (f : Function) (callee : Signature)
    (arguments : List Expr) (lhs : Option Expr) : Prop where
  parameter : List.Forall₂ (fun a p => Vouched x (a.StoredAs x f) a.ty p ∨
    IsRounded a ∧ a.ty.agrees p) arguments callee.parameterTypes
  result : ∀ ty ∈ callee.returnType, (lhs = none → Supported x ty) ∧
    ∀ e ∈ lhs, Vouched x (fun place => e.variableType? x f = some place) e.ty ty
  integer : ∀ width, .integer width ∈ callee.types → width = 32 ∨ width = 64
  real : ∀ width, .real width ∈ callee.returnType → width = 64

/-- All types that a function is declared with are supported, but for those of constants that are
rounded. -/
structure Gimple.Signature.IsSupported (x : UnitIndex) (callee : Signature)
    (arguments : List Expr) : Prop where
  parameter : List.Forall₂ (fun a p => Supported x p ∨ IsRounded a ∧ a.ty = p) arguments
    callee.parameterTypes
  result : ∀ ty ∈ callee.returnType, Supported x ty

/-- If the statement is a call, the types that the function is declared with can cross it. They are
supported if the types that occur are consistent. -/
def Gimple.Statement.Crosses (x : UnitIndex) (f : Function) : Statement → Prop
  | .call function arguments lhs _ =>
    ∃ callee, x.function? function = some callee ∧ callee.Serves x f arguments lhs ∧
      (x.Consistent (f.Occurs x) → callee.IsSupported x arguments)
  | .assign _ _ _ _ | .conditional _ _ _ _ _ | .ret _ _ | .goto _ _ | .switch _ _ _ _ => True

/-- Places make no exceptions where the types that occur are consistent: only constants do. -/
theorem Lowering.supported_of_vouched {x : UnitIndex} {S : Ty → Prop} {f : Function}
    (hx : x.Consistent S) (occurs : ∀ ty ∈ f.types, S ty) {arguments : List Expr}
    {declared : List Ty} (hargs : ∀ e ∈ arguments, ∀ ty ∈ e.types, S ty)
    (hdeclared : ∀ ty ∈ declared, S ty)
    (h : List.Forall₂ (fun a p => Vouched x (a.StoredAs x f) a.ty p ∨ IsRounded a ∧ a.ty.agrees p)
      arguments declared) :
    List.Forall₂ (fun a p => Supported x p ∨ IsRounded a ∧ a.ty = p) arguments declared := by
  induction h with
  | nil => exact .nil
  | @cons a p as ps hpass _ ih =>
    obtain ⟨ha, hrest⟩ := List.forall_mem_cons.1 hargs
    obtain ⟨hp, hps⟩ := List.forall_mem_cons.1 hdeclared
    refine .cons ?_ (ih hrest hps)
    obtain hvouched | ⟨hrounded, hagrees⟩ := hpass
    · exact .inl (hvouched.supported_of_consistent hx
        (fun ty hty => hty.mem hx.toClosed occurs ha) (ha _ a.ty_mem_types) hp)
    · obtain ⟨width, value, -, rfl⟩ := id hrounded
      exact .inr ⟨hrounded, Ty.eq_of_agrees_of_isScalar hagrees (.inl rfl)⟩

theorem Gimple.Signature.Serves.isSupported {x : UnitIndex} {S : Ty → Prop} {f : Function}
    {callee : Signature} {arguments : List Expr} {lhs : Option Expr}
    (h : callee.Serves x f arguments lhs) (hx : x.Consistent S) (occurs : ∀ ty ∈ f.types, S ty)
    (mem : callee ∈ x.functions) (hargs : ∀ e ∈ arguments, ∀ ty ∈ e.types, S ty)
    (hlhs : ∀ e ∈ lhs, ∀ ty ∈ e.types, S ty) : callee.IsSupported x arguments := by
  refine ⟨supported_of_vouched hx occurs hargs (hx.parameter callee mem) h.parameter,
    fun ty hty => ?_⟩
  obtain ⟨hnone, hsome⟩ := h.result ty hty
  cases lhs with
  | none => exact hnone rfl
  | some e =>
    have he := hlhs e rfl
    exact (hsome e rfl).supported_of_consistent hx
      (fun ty hty => Expr.variableType?_mem hx.toClosed occurs he hty) (he _ e.ty_mem_types)
      (hx.result callee mem ty hty)

/-- What holds of the types that the function is declared with holds of integers and of results
that are real numbers in particular, and they are no exceptions. -/
theorem Gimple.Signature.Serves.of_declared {x : UnitIndex} {f : Function} {callee : Signature}
    {arguments : List Expr} {lhs : Option Expr}
    (parameter : List.Forall₂ (fun a p => Vouched x (a.StoredAs x f) a.ty p ∨
      IsRounded a ∧ a.ty.agrees p) arguments callee.parameterTypes)
    (result : ∀ ty ∈ callee.returnType, (lhs = none → Supported x ty) ∧
      ∀ e ∈ lhs, Vouched x (fun place => e.variableType? x f = some place) e.ty ty) :
    callee.Serves x f arguments lhs := by
  have hresult : ∀ ty ∈ callee.returnType, ty.isScalar → Supported x ty := by
    intro ty hty hs
    obtain ⟨hnone, hsome⟩ := result ty hty
    cases lhs with
    | none => exact hnone rfl
    | some e => exact (hsome e rfl).supported_of_isScalar hs
  refine ⟨parameter, result, fun width hmem => ?_, fun width hmem => ?_⟩
  · rcases List.mem_append.1 hmem with hmem | hmem
    · obtain ⟨i, hi, hp⟩ := List.getElem_of_mem hmem
      obtain ⟨hlength, hall⟩ := List.forall₂_iff_get.1 parameter
      have hpassed := hall i (hlength ▸ hi) hi
      simp only [List.get_eq_getElem, hp] at hpassed
      rcases hpassed with hvouched | ⟨⟨width', value, -, heq⟩, hagrees⟩
      · exact (hvouched.supported_of_isScalar rfl).width
      · rw [heq] at hagrees
        cases hagrees
    · exact (hresult _ (Option.mem_toList.1 hmem) rfl).width
  · exact (hresult _ hmem rfl).width_real

namespace Lowering

variable {x : UnitIndex} {ps : Polyfills} {P : Setting} {s s' w : State} {cx : Context}
  {S : Ty → Prop} {f : Function} {source : String} {types types' : Registry} {stmt : Statement}

section

variable (h : w.Inv P) (hvariables : w.HasVariables P.function)

include h

/-- A variable in scope has a supported type. -/
theorem State.Inv.supported_of_mem {v : Var} (hv : v ∈ w.scope) : Supported P.index v.ty :=
  (h.holds v hv).represents.supported h.sound

/-- So does the field of a record. -/
theorem IsSlot.supported {record : Ty} {struct : Nat} {slots : List Slot} {member : String}
    {slot : Slot} (hi : IsSlot P.index w record struct slots member slot) :
    ⟨member, slot.ty⟩ ∈ (P.index.complete record).fields ∧ Supported P.index slot.ty := by
  obtain ⟨-, hfield, rep, hrep, -⟩ := hi.laidOut.of_mem hi.mem
  exact ⟨hi.name ▸ List.mem_of_getElem? hfield, hrep.supported h.sound⟩

include hvariables

/-- The place of what is read has a supported type, but for a constant. -/
theorem Reads.exists_supported {e : Expr} {n v m : Nat} {code : List Flo.Statement}
    (hr : Reads P.index w e n v code m) :
    IsRounded e ∨ ∃ ty, e.StoredAs P.index P.function ty ∧ e.ty.agrees ty ∧
      Supported P.index ty := by
  cases hr with
  | constant isConstant temp noted =>
    have hself : ∀ {e : Expr} {rep : Representation}, Represents P.index w.types e.ty rep →
        e.variableType? P.index P.function = some e.ty →
        (∀ ty base member, e ≠ .component ty base member) →
        ∃ ty, e.StoredAs P.index P.function ty ∧ e.ty.agrees ty ∧ Supported P.index ty :=
      fun hrep hvar hwhole => ⟨_, .whole hwhole hvar, Ty.agrees_refl _, hrep.supported h.sound⟩
    cases isConstant with
    | integer represents | null represents | real represents =>
      exact .inr (hself represents rfl nofun)
    | truth => exact .inr (hself .boolean rfl nofun)
    | @rounded width value =>
      by_cases hw : width = 64
      · subst hw
        exact .inr (hself .real rfl nofun)
      · exact .inl ⟨width, value, hw, rfl⟩
  | named le mem agrees =>
    exact .inr ⟨_, .whole nofun (h.typeOf?_eq hvariables mem), agrees, h.supported_of_mem mem⟩
  | through base isSlot agrees =>
    obtain ⟨hfield, hsupported⟩ := isSlot.supported h
    exact .inr ⟨_, .through base hfield, agrees, hsupported⟩
  | part direct isSlot agrees =>
    obtain ⟨hfield, hsupported⟩ := isSlot.supported h
    exact .inr ⟨_, .part direct hfield, agrees, hsupported⟩
  | deref base agrees represents =>
    exact .inr ⟨_, .whole nofun rfl, Ty.agrees_refl _, represents.supported h.sound⟩
  | element isArray agrees integral represents =>
    exact .inr ⟨_, .whole nofun rfl, Ty.agrees_refl _, represents.supported h.sound⟩

/-- An argument is passed to a parameter. -/
theorem Reads.vouched {e : Expr} {n v m : Nat} {code : List Flo.Statement}
    (hr : Reads P.index w e n v code m) {declared : Ty} (agrees : e.ty.agrees declared) :
    Vouched P.index (e.StoredAs P.index P.function) e.ty declared ∨
      IsRounded e ∧ e.ty.agrees declared := by
  rcases hr.exists_supported h hvariables with hrounded | ⟨ty, hty, hagrees, hsupported⟩
  · exact .inr ⟨hrounded, agrees⟩
  · exact .inl (.of_supported agrees hagrees hty hsupported)

theorem ReadsAll.vouched {es : List Expr} {n m : Nat} {vs : List Nat} {code : List Flo.Statement}
    (hr : ReadsAll P.index w es n vs code m) {declared : List Ty}
    (passed : List.Forall₂ (fun a p => rejectNull p a = .ok () ∧ a.ty.agrees p) es declared) :
    List.Forall₂ (fun a p => Vouched P.index (a.StoredAs P.index P.function) a.ty p ∨
      IsRounded a ∧ a.ty.agrees p) es declared := by
  induction hr generalizing declared with
  | nil n =>
    cases passed
    exact .nil
  | cons read rest ih =>
    cases passed with
    | cons hp hps => exact .cons (read.vouched h hvariables hp.2) (ih hps)

/-- The types of a call that is lowered. -/
theorem Performs.serves {function : String} {arguments : List Expr} {lhs : Option Expr}
    {line : Option Nat} {n m : Nat} {code : List Flo.Statement}
    (hp : Performs P ps w (.call function arguments lhs line) n code m) :
    ∃ callee, P.index.function? function = some callee ∧
      callee.Serves P.index P.function arguments lhs := by
  cases hp with
  | callTo isCallee passed returns stored reads le mem agrees =>
    refine ⟨_, isCallee, .of_declared (reads.vouched h hvariables passed) ?_⟩
    rintro ty hty
    obtain rfl := Option.some.inj (returns.symm.trans hty)
    refine ⟨fun hnone => absurd hnone (Option.some_ne_none _), ?_⟩
    rintro e ⟨⟩
    -- The result goes to the variable directly, so it is the variable that has a supported type.
    exact .of_supported stored agrees (h.typeOf?_eq hvariables mem) (h.supported_of_mem mem)
  | callStore isCallee passed returns stored unnamed reads resultType =>
    refine ⟨_, isCallee, .of_declared (reads.vouched h hvariables passed) ?_⟩
    rintro ty hty
    obtain rfl := Option.some.inj (returns.symm.trans hty)
    refine ⟨fun hnone => absurd hnone (Option.some_ne_none _), ?_⟩
    rintro e ⟨⟩
    obtain ⟨rep, hrep, -⟩ := resultType
    exact .of_supported stored (Ty.agrees_refl _) (Expr.variableType?_unnamed unnamed)
      (hrep.supported h.sound)
  | callDiscard isCallee passed returns reads resultType =>
    refine ⟨_, isCallee, .of_declared (reads.vouched h hvariables passed) ?_⟩
    rintro ty hty
    obtain rfl := Option.some.inj (returns.symm.trans hty)
    obtain ⟨rep, hrep, -⟩ := resultType
    exact ⟨fun _ => hrep.supported h.sound, fun _ he => absurd he (Option.not_mem_none _)⟩
  | callVoid isCallee passed returns reads =>
    refine ⟨_, isCallee, .of_declared (reads.vouched h hvariables passed) ?_⟩
    rintro ty hty
    cases returns.symm.trans hty

/-- No other statement is a call. -/
theorem Lowers.crosses {n m : Nat} {code : List Flo.Statement} {exit : Option Flo.BlockExit}
    (hl : Lowers P ps w stmt n code exit m) (hS : ∀ ty ∈ stmt.types, ty ∈ P.function.types) :
    stmt.Crosses P.index P.function := by
  cases stmt with
  | call function arguments lhs line =>
    cases exit with
    | some exit => cases hl
    | none =>
      obtain ⟨callee, hcallee, hserves⟩ := Performs.serves h hvariables hl
      refine ⟨callee, hcallee, hserves, fun hx => ?_⟩
      obtain ⟨hargs, hlhs⟩ := Statement.forall_types_call.1 fun ty hty =>
        Function.occurs_of_mem (x := P.index) (hS ty hty)
      exact hserves.isSupported hx (fun _ => Function.occurs_of_mem)
        (List.mem_of_find?_eq_some hcallee) hargs hlhs
  | assign | conditional | ret | goto | switch => trivial

theorem LowersAll.crosses {stmts : List Statement} {n m : Nat} {codes : List (List Flo.Statement)}
    {exit : Option Flo.BlockExit} (hl : LowersAll P ps w stmts n codes exit m)
    (hS : ∀ stmt ∈ stmts, ∀ ty ∈ stmt.types, ty ∈ P.function.types) :
    ∀ stmt ∈ stmts, stmt.Crosses P.index P.function := by
  induction hl with
  | nil n => exact nofun
  | leave leaves =>
    have hlowers : Lowers P ps w _ _ _ (some _) _ := leaves
    exact List.forall_mem_singleton.2
      (hlowers.crosses h hvariables (List.forall_mem_singleton.1 hS))
  | perform performs others ih =>
    obtain ⟨hstmt, hrest⟩ := List.forall_mem_cons.1 hS
    have hlowers : Lowers P ps w _ _ _ none _ := performs
    exact List.forall_mem_cons.2 ⟨hlowers.crosses h hvariables hstmt, ih hrest⟩

end

/-! ### Arriving at a statement -/

/-- Lowering a function comes to a statement: all that is before it has been lowered, and it is
lowered next, in the state `s`. -/
inductive Arrives (x : UnitIndex) (ps : Polyfills) (source : String) (f : Function)
    (types : Registry) : Context → Statement → State → Prop where
  | intro {cx : Context} {parameters : List Nat} {entry fuel label id : Nat}
      {pending : List (Nat × Nat)} {b : Block} {before after : List Statement} {stmt : Statement}
      {s₁ s₂ s₃ : State}
      (prepared : (prepare x ps f).Ran (.initial types f.name source) (cx, parameters, entry) s₁)
      (blocks : (lowerPending cx fuel).Ran s₁ () s₂) (next : s₂.pending = (label, id) :: pending)
      (isBlock : f.block? label = some b) (isStatement : b.statements = before ++ stmt :: after)
      (earlier : (lowerStatements cx label 0 before).Ran { s₂ with pending, body := [] } none s₃) :
      Arrives x ps source f types { cx with line := stmt.line } stmt s₃

/-- Wherever lowering comes to a statement, what holds between steps does, and the variables of the
function are in scope. -/
theorem Arrives.inv (sound : types.Sound x fun _ => True)
    (arrives : Arrives x ps source f types cx stmt s) :
    cx.index = x ∧ cx.function = f ∧ s.Inv (cx.setting fun _ => True) ∧ cx.LineKnown ∧
      s.HasVariables f ∧ ∀ ty ∈ stmt.types, ty ∈ f.types := by
  cases arrives with
  | @intro cx parameters entry fuel label id pending b before after stmt s₁ s₂ s prepared blocks
      next isBlock isStatement earlier =>
    obtain ⟨slot, vs, ls, rfl, -, -, -, hps, hls, hscope, hinv₁, hprogress, -⟩ :=
      prepare_ran (.univ x) (by simp) sound prepared
    set cx : Context := ⟨x, ps, f, slot, none⟩
    have hstmts : ∀ b ∈ cx.function.blocks, ∀ stmt ∈ b.statements,
        Belongs cx (fun _ => True) stmt := belongs_of_types fun _ _ => trivial
    obtain ⟨hg₁, hinv₂, -, -⟩ := hprogress.lowerPending (.univ x) hstmts (Q := fun _ => True)
      (fun _ _ hQ => hQ) hinv₁ trivial blocks
    obtain ⟨hg₂, h₂⟩ : s₂.Grows { s₂ with pending, body := [] } ∧
        State.Inv (cx.setting fun _ => True) { s₂ with pending, body := [] } :=
      hinv₂.of_eq rfl rfl rfl rfl rfl
    have hb := List.mem_of_find?_eq_some isBlock
    have hblock := hstmts b hb
    rw [isStatement] at hblock
    obtain ⟨hbefore, hrest⟩ := List.forall_mem_append.1 hblock
    obtain ⟨-, codes, he, -⟩ := lowerStatements_ran (.univ x) hbefore h₂ earlier
    obtain ⟨-, hline⟩ := hrest stmt List.mem_cons_self
    have hmem : stmt ∈ b.statements := isStatement ▸ List.mem_append_right _ List.mem_cons_self
    have hvariables : s₁.HasVariables f := ⟨vs, ls, hps, hls, hscope⟩
    exact ⟨rfl, rfl, he.inv, fun n hn _ => hline n hn,
      hvariables.mono (hg₁.trans (hg₂.trans he.grows)),
      fun ty hty => Function.mem_types_of_statement hb hmem hty⟩

/-- The types of a call that lowering comes to, if the call can be lowered. -/
theorem Arrives.crosses (sound : types.Sound x fun _ => True)
    (arrives : Arrives x ps source f types cx stmt s) {exit : Option Flo.BlockExit}
    (run : (lowerStatement cx stmt).Ran s exit s') : stmt.Crosses x f := by
  obtain ⟨rfl, rfl, hinv, hline, hvariables, hS⟩ := arrives.inv sound
  obtain ⟨-, code, he, hlowers⟩ :=
    lowerStatement_ran (.univ _) hline (fun _ _ => trivial) hinv run
  exact (hlowers s' (.refl s')).crosses (P := cx.setting fun _ => True) he.inv
    (hvariables.mono he.grows) hS

/-! ### Functions -/

/-- The types of the calls of a function that is lowered. -/
theorem lowerFunction_crosses (sound : types.Sound x fun _ => True) {o : Flo.Object}
    (run : (lowerFunction x ps source f).Ran types o types') {label : Nat} {b : Block}
    (reaches : f.Reaches label) (isBlock : f.block? label = some b) (mem : stmt ∈ b.statements) :
    stmt.Crosses x f := by
  obtain ⟨returns, w, parameters, locals, entry, signature, h, -, -⟩ :=
    lowerFunction_ran (.univ x) (by simp) sound run
  obtain ⟨n, codes, exit, m, hlowers⟩ := h.exists_lowersAll reaches isBlock
  have hb := List.mem_of_find?_eq_some isBlock
  refine hlowers.crosses h.inv h.hasVariables (fun stmt hstmt ty hty => ?_) stmt mem
  exact Function.mem_types_of_statement hb hstmt hty

/-- **Only values of supported types cross a call, with two exceptions.** Wherever lowering comes to
a call that it can lower, and in every function that can be lowered as a whole, the function that is
called is declared with types that are supported. The exceptions are integers that are passed as
constants of a real type, and records that are not declared as the place is from which they are
passed, or to which they are returned. If the types that occur in the function and in the index are
consistent, only constants are an exception. -/
theorem statement_crosses (reached : Reached x types) :
    (∀ cx stmt s exit s', Arrives x ps source f types cx stmt s →
      (lowerStatement cx stmt).Ran s exit s' → stmt.Crosses x f) ∧
    ∀ o types', (lowerFunction x ps source f).Ran types o types' →
      ∀ label b, f.Reaches label → f.block? label = some b →
        ∀ stmt ∈ b.statements, stmt.Crosses x f :=
  ⟨fun _ _ _ _ _ arrives run => arrives.crosses reached.sound run,
    fun _ _ run _ _ reaches isBlock _ mem =>
      lowerFunction_crosses reached.sound run reaches isBlock mem⟩

/-- A unit that declares a function with a parameter of a type that is not supported. -/
def takingFloat : UnitIndex := { UnitIndex.empty with functions := [⟨"half", [.real 32], none⟩] }

/-- A function that passes an integer there. -/
def passingFloat : Function :=
  ⟨"pass", [], none, 2, [],
    [⟨2, [.call "half" [.integer (.real 32) 1] none none, .ret none none]⟩]⟩

theorem passingFloat_crosses :
    ∃ o types, (lowerFunction takingFloat .empty "" passingFloat).Ran .empty o types ∧
      ¬ Supported takingFloat (.real 32) ∧ ∃ b, passingFloat.block? 2 = some b ∧
        ∀ stmt ∈ b.statements, stmt.Crosses takingFloat passingFloat := by
  obtain ⟨o, types, run⟩ : ∃ o types,
      (lowerFunction takingFloat .empty "" passingFloat).Ran .empty o types :=
    Build.exists_ran_of_endsWell (by decide +kernel)
  refine ⟨o, types, run, fun h => absurd h.width_real (by decide), _, rfl, fun stmt mem => ?_⟩
  exact (statement_crosses .empty).2 o types run 2 _ .entry rfl stmt mem

/-- A record with another one in it that is not defined. -/
def opaqueOuter : Ty := .record "outer" [⟨"inner", .record "inner" []⟩]

/-- The record with the other one spelled out. -/
def spelledOuter : Ty := .record "outer" [⟨"inner", .record "inner" [⟨"value", .integer 32⟩]⟩]

/-- A unit that declares a function with a parameter that has no layout. -/
def takingOuter : UnitIndex := { UnitIndex.empty with functions := [⟨"take", [opaqueOuter], none⟩] }

/-- A function that passes a variable there which has one. -/
def passingOuter : Function :=
  ⟨"pass", [⟨"a", spelledOuter⟩], none, 2, [],
    [⟨2, [.call "take" [.named spelledOuter "a"] none none, .ret none none]⟩]⟩

/-- The other exception: the types are not consistent, and the declared one is not supported. -/
theorem passingOuter_passes : opaqueOuter.agrees spelledOuter ∧
    (∃ o types, (lowerFunction takingOuter .empty "" passingOuter).Ran .empty o types) ∧
    ¬ Supported takingOuter opaqueOuter ∧ Supported takingOuter spelledOuter := by
  have hempty : Registry.empty.Sound takingOuter fun _ => True := .empty _ _
  refine ⟨by decide, Build.exists_ran_of_endsWell (by decide +kernel), fun h => ?_, ?_⟩
  · obtain ⟨rep, r, hran⟩ := exists_represent_ran hempty h.judged
    cases hran
  · have hran : (represent takingOuter spelledOuter).Ran .empty _ _ := rfl
    have hs := ((represent_keeps (.univ _) trivial).ran hran hempty).sound
    exact (represent_ran (.univ _) trivial hempty hran).supported hs

end Lowering

end GimpleLowering

import GimpleLowering.Polyfill
import GimpleLowering.Proofs.Flo.Draft
import GimpleLowering.Proofs.Layout.Growth

/-!
# Types of statements

The runtime does not convert anything: a statement moves values between variables and parts of
objects, and the types of both sides have to be the same. The parts of structs and arrays are those
that the type tables of the object say.

Calls are there because the source asks for them. An operation asks for the routine that is called
for its operator and the types that are written, and a call asks for the function with its name. So
whether a call is right depends on what was asked for, which is known of the code of a statement:
the calls in it are those that the statement asks for, one for each and in the same order.

## Main definitions

* `Gimple.Invocation`, `Gimple.Statement.invocations` — what a statement asks for
* `Flo.Object.HasType` — the type of a variable
* `Flo.Object.Accesses` — the type of a part of an object
* `Flo.Object.Moves` — a statement whose sides have the same types
* `Flo.Passes` — the types of what is passed to a function
* `Flo.Object.Invokes` — the call that is asked for
* `Flo.CodeTyped` — code with the calls that are asked for
* `Flo.ExitTyped` — an exit whose variables have the types that are expected of them
-/

namespace GimpleLowering

/-! ### What statements ask for -/

namespace Gimple

/-- A call that the code of a statement has to make. -/
inductive Invocation where
  /-- A routine for the operator, with operands and a result of the types. -/
  | operation (op : Operator) (operands : List Ty) (result : Ty)
  /-- The function with the name. -/
  | function (name : String) (arguments : List Expr)

/-- A label is compared with a selector of the type: once for a value, and twice for a range. -/
def Case.invocations (selector : Ty) (c : Case) : List Invocation :=
  if c.upper = c.low then [.operation .eq [selector, selector] .boolean]
  else [.operation .ge [selector, selector] .boolean, .operation .le [selector, selector] .boolean,
    .operation .truthAnd [.boolean, .boolean] .boolean]

/-- The calls that the code of a statement has to make, in order. A copy needs none. -/
def Statement.invocations : Statement → List Invocation
  | .assign op lhs operands _ =>
    if op.opClass = .copy then [] else [.operation op (operands.map Expr.ty) lhs.ty]
  | .conditional op operands _ _ _ => [.operation op (operands.map Expr.ty) .boolean]
  | .switch value cases _ _ => cases.flatMap (Case.invocations value.ty)
  | .call function arguments _ _ => [.function function arguments]
  | .ret _ _ | .goto _ _ => []

end Gimple

namespace Flo

open Gimple Layout

/-- The variable has the type. -/
def Object.HasType (o : Object) (v : Nat) (typ : Ty) : Prop :=
  ∃ row, o.vars.get? v = some row ∧ row.typ = typ

/-- One of the variables is replaced by another one of its type. -/
theorem Object.forall₂_set {o : Object} {vs : List Nat} {types : List Ty} {i v : Nat} {typ : Ty}
    (h : List.Forall₂ o.HasType vs types) (hi : types[i]? = some typ) (hv : o.HasType v typ) :
    List.Forall₂ o.HasType (vs.set i v) types := by
  induction h generalizing i with
  | nil => simp at hi
  | cons hhead htail ih =>
    cases i with
    | zero =>
      obtain rfl := Option.some.inj hi
      exact .cons hv htail
    | succ i => exact .cons hhead (ih hi)

/-- The entry of the struct can be used, and these are the types of its members. -/
def Object.HasMembers (o : Object) (struct : Nat) (members : List Ty) : Prop :=
  ∃ entry, o.types.structs.get? struct = some entry ∧ entry.poison = .usable ∧
    entry.members = members

/-- The member of the handle or the array has the type. -/
inductive Object.Accesses (o : Object) (handle : Nat) : Member → Ty → Prop where
  | whole {typ : Ty} {nullable : Bool} (hasHandle : o.HasType handle (.handle typ nullable)) :
      Accesses o handle .whole typ
  | field {struct i : Nat} {nullable : Bool} {members : List Ty} {typ : Ty}
      (hasHandle : o.HasType handle (.handle (.struct struct) nullable))
      (hasMembers : o.HasMembers struct members) (member : members[i]? = some typ) :
      Accesses o handle (.field i) typ
  | element {array index : Nat} {entry : ArrayType} {typ : Ty}
      (hasArray : o.HasType handle (.array array))
      (isArray : o.types.arrays.get? array = some entry) (usable : entry.poison = .usable)
      (hasIndex : o.HasType index typ) (isInteger : typ.isInteger) :
      Accesses o handle (.element index) entry.memberType

/-- Both sides of the statement have the same types, and it calls nothing. -/
inductive Object.Moves (o : Object) : Statement → Prop where
  | assignConst {target : Nat} {value : Constant} {note : Note}
      (hasType : o.HasType target value.typ) : Moves o (.assignConst target value note)
  | assign {target source : Nat} {typ : Ty} {note : Note} (hasTarget : o.HasType target typ)
      (hasSource : o.HasType source typ) : Moves o (.assign target source note)
  | construct {target struct : Nat} {initializer : List Nat} {members : List Ty} {note : Note}
      (hasTarget : o.HasType target (.struct struct)) (hasMembers : o.HasMembers struct members)
      (hasParts : List.Forall₂ o.HasType initializer members) :
      Moves o (.construct target initializer note)
  | destructure {whole struct : Nat} {parts : List Nat} {members : List Ty} {note : Note}
      (hasWhole : o.HasType whole (.struct struct)) (hasMembers : o.HasMembers struct members)
      (hasParts : List.Forall₂ o.HasType parts members) : Moves o (.destructure whole parts note)
  | load {handle target : Nat} {member : Member} {typ : Ty} {note : Note}
      (accesses : o.Accesses handle member typ) (hasTarget : o.HasType target typ) :
      Moves o (.load handle member target note)
  | store {handle value : Nat} {member : Member} {typ : Ty} {note : Note}
      (accesses : o.Accesses handle member typ) (hasValue : o.HasType value typ) :
      Moves o (.store handle member value note)

/-- The variables that are passed for arguments have the runtime types of the parameters. The only
exception are integers that are written as constants of a real type that the runtime does not have:
they are passed as real numbers of sixty-four bits. -/
inductive Passes (x : UnitIndex) (r : Registry) (o : Object) :
    List Nat → List Expr → List Gimple.Ty → Prop where
  | nil : Passes x r o [] [] []
  | typed {v : Nat} {e : Expr} {ty : Gimple.Ty} {typ : Ty} {vs : List Nat} {es : List Expr}
      {tys : List Gimple.Ty} (hasValueType : HasValueType x r ty typ) (hasType : o.HasType v typ)
      (rest : Passes x r o vs es tys) : Passes x r o (v :: vs) (e :: es) (ty :: tys)
  | rounded {v width : Nat} {value : Int} {vs : List Nat} {es : List Expr} {tys : List Gimple.Ty}
      (unsupported : width ≠ 64) (hasType : o.HasType v .double) (rest : Passes x r o vs es tys) :
      Passes x r o (v :: vs) (.integer (.real width) value :: es) (.real width :: tys)

/-- The variables take the results of a function with the given return type. -/
def Takes (x : UnitIndex) (r : Registry) (o : Object) (returnType : Option Gimple.Ty)
    (vs : List Nat) : Prop :=
  match returnType with
  | none => vs = []
  | some ty => ∃ v typ, vs = [v] ∧ HasValueType x r ty typ ∧ o.HasType v typ

section

variable (x : UnitIndex) (r : Registry) (ps : Polyfills) (o : Object)

/-- The call is the one that is asked for. The variables of a routine have the runtime types of the
operands and the result, and those of a function the ones of its signature in the index. -/
inductive Object.Invokes : Invocation → Statement → Prop where
  | routine {op : Operator} {operands : List Gimple.Ty} {result : Gimple.Ty} {name : String}
      {input : List Nat} {output : Nat} {types : List Ty} {typ : Ty} {note : Note}
      (operandTypes : List.Forall₂ (HasValueType x r) operands types)
      (resultType : HasValueType x r result typ)
      (isRoutine : ps.forOperation? op types typ = some name)
      (hasInput : List.Forall₂ o.HasType input types) (hasOutput : o.HasType output typ) :
      Invokes (.operation op operands result) (.call (.builtin name) input [output] note)
  | external {function : String} {arguments : List Expr} {callee : Gimple.Signature}
      {input outputs : List Nat} {note : Note} (isCallee : x.function? function = some callee)
      (passes : Passes x r o input arguments callee.parameterTypes)
      (takes : Takes x r o callee.returnType outputs) :
      Invokes (.function function arguments) (.call (.external callee.name) input outputs note)

/-- The calls in the code are those that are asked for, and everything else moves values between
places of the same types. -/
inductive CodeTyped : List Invocation → List Statement → Prop where
  | nil : CodeTyped [] []
  | move {s : Statement} {is : List Invocation} {code : List Statement} (moves : o.Moves s)
      (rest : CodeTyped is code) : CodeTyped is (s :: code)
  | call {i : Invocation} {s : Statement} {is : List Invocation} {code : List Statement}
      (invokes : o.Invokes x r ps i s) (rest : CodeTyped is code) :
      CodeTyped (i :: is) (s :: code)

/-- The statement is in code that makes the calls that it is asked for. -/
def WellTyped (s : Statement) : Prop := o.Moves s ∨ ∃ i, o.Invokes x r ps i s

end

section

variable {x : UnitIndex} {r : Registry} {ps : Polyfills} {o : Object} {is is' : List Invocation}
  {code code' : List Statement} {s : Statement}

namespace CodeTyped

theorem append (h : CodeTyped x r ps o is code) (h' : CodeTyped x r ps o is' code') :
    CodeTyped x r ps o (is ++ is') (code ++ code') := by
  induction h with
  | nil => exact h'
  | move moves _ ih => exact .move moves ih
  | call invokes _ ih => exact .call invokes ih

/-- Code that only moves values can be anywhere. -/
theorem of_moves (h : ∀ s ∈ code, o.Moves s) : CodeTyped x r ps o [] code := by
  induction code with
  | nil => exact .nil
  | cons s code ih =>
    obtain ⟨hs, hcode⟩ := List.forall_mem_cons.1 h
    exact .move hs (ih hcode)

/-- A single call. -/
theorem of_invokes {i : Invocation} (h : o.Invokes x r ps i s) : CodeTyped x r ps o [i] [s] :=
  .call h .nil

theorem wellTyped (h : CodeTyped x r ps o is code) : ∀ s ∈ code, WellTyped x r ps o s := by
  induction h with
  | nil => exact nofun
  | move moves _ ih => exact List.forall_mem_cons.2 ⟨.inl moves, ih⟩
  | call invokes _ ih => exact List.forall_mem_cons.2 ⟨.inr ⟨_, invokes⟩, ih⟩

end CodeTyped

/-- A call by name goes by the signature in the index. -/
theorem WellTyped.of_external {name : String} {input outputs : List Nat} {note : Note}
    (h : WellTyped x r ps o (.call (.external name) input outputs note)) :
    ∃ callee arguments, x.function? name = some callee ∧
      Passes x r o input arguments callee.parameterTypes ∧ Takes x r o callee.returnType outputs := by
  generalize hs : Statement.call (.external name) input outputs note = s at h
  obtain h | ⟨i, h⟩ := h
  · cases h <;> cases hs
  · cases h with
    | routine => cases hs
    | external isCallee passes takes =>
      cases hs
      exact ⟨_, _, UnitIndex.name_of_function? isCallee ▸ isCallee, passes, takes⟩

end

/-- The conditions of a branch are truth values, and what is returned are the results. -/
def ExitTyped (o : Object) (returns : List Nat) : BlockExit → Prop
  | .ret values => values = returns
  | .branch arms => ∀ arm ∈ arms, ∃ row, o.matchArms.get? arm = some row ∧
      o.HasType row.condition .bool
  | .goto _ | .panic _ _ => True
  | .unspecified => False

end Flo

end GimpleLowering

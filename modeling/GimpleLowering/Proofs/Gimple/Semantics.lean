import GimpleLowering.Layout.Containment
import GimpleLowering.Polyfill
import GimpleLowering.Proofs.Memory

/-!
# Meaning of the intermediate code

Operands are evaluated from left to right, and evaluating them changes nothing. The target of an
assignment is evaluated to a *place*, which is a variable, a part of an object, or a part of a
record that is in such a place itself; the assignment then changes that place.

The types that are written in the code say where in a record a field stands. They play no other
part: which values fit together is for others to say, and code that does not fit is stuck.

## Main definitions

* `Gimple.Store` — the values of the variables of a function, and the memory
* `Gimple.Program` — what the meaning of statements depends on
* `Gimple.Program.eval`, `Gimple.Program.place` — operands and targets
* `Gimple.Program.perform` — the effect of a statement

## Main results

* `Gimple.Program.eval_eq_get_place` — an operand that can be assigned to has the value that is in
  its place
-/

namespace GimpleLowering

open Gimple

/-! ### Operations -/

/-- The name that operations on values of a type have for it, if there are any. -/
def Gimple.Ty.operandName? : Ty → Option String
  | .integer width => if width = 32 then some "i32" else if width = 64 then some "i64" else none
  | .real width => if width = 64 then some "f64" else none
  | .boolean => some "bool"
  | .pointer _ | .reference _ => some "handle"
  | .array _ _ | .record _ _ => none

/-- The routine that an operator stands for on operands of the given types. -/
def Polyfills.forTypes? (ps : Polyfills) (op : Operator) (operands : List Ty) (result : Ty) :
    Option String := do
  let types ← operands.mapM Ty.operandName?
  let types ← if op.opClass = .conversion then result.operandName?.map (types ++ [·])
    else some types
  ps.ofLeft? (Polyfill.operationName op.name types)

namespace Gimple

/-! ### Stores -/

/-- The function has a parameter or a local variable of that name. -/
def Function.Declares (f : Function) (name : String) : Prop :=
  ∃ d ∈ f.parameters ++ f.locals, d.name = name

instance (f : Function) (name : String) : Decidable (f.Declares name) :=
  inferInstanceAs (Decidable (∃ d ∈ f.parameters ++ f.locals, d.name = name))

/-- The state of a function. -/
structure Store where
  /-- The values of the parameters and the local variables. -/
  locals : String → Value
  /-- The value that the function is going to return. -/
  result : Value
  memory : Memory

/-- What the meaning of statements depends on. -/
structure Program where
  index : UnitIndex
  polyfills : Polyfills
  function : Function
  runtime : Runtime

namespace Program

variable (P : Program)

/-! ### Operands -/

/-- The value of a variable. A variable of the function hides a global of the same name. -/
def read (σ : Store) (name : String) : Outcome Value :=
  if P.function.Declares name then .ok (σ.locals name)
  else if (P.index.global? name).isSome then .ok (σ.memory.globals name)
  else .error .stuck

/-- Changes a variable. -/
def write (σ : Store) (name : String) (value : Value) : Outcome Store :=
  if P.function.Declares name then .ok { σ with locals := Function.update σ.locals name value }
  else if (P.index.global? name).isSome then
    .ok { σ with memory := σ.memory.setGlobal name value }
  else .error .stuck

/-- The value of an integer constant. -/
def integerValue : Ty → Int → Outcome Value
  | .integer _, value => .ok (.integer value)
  | .boolean, value => .ok (.truth (value ≠ 0))
  | .real _, value => .ok (.real (.ofInt value))
  | .pointer _, value => if value = 0 then .ok .null else .error .stuck
  | _, _ => .error .stuck

/-- The position of a field in the values of a record. -/
def position (record : Ty) (member : String) : Outcome Nat :=
  match (P.index.complete record).fields.findIdx? fun f => f.name = member with
  | some i => .ok i
  | none => .error .stuck

/-- The parts of a value of a record: one for each field. -/
def parts (record : Ty) : Value → Outcome (List Value)
  | .record parts =>
    if parts.length = (P.index.complete record).fields.length then .ok parts else .error .stuck
  | _ => .error .stuck

/-- The part of an object that `pointer->member` is. -/
def fieldBehind (pointer : Ty) (member : String) : Outcome Access :=
  match pointer.indirectBase with
  | some record => do return .field (← P.position record member)
  | none => .error .stuck

/-- The value of an operand. -/
def eval (σ : Store) : Expr → Outcome Value
  | .integer ty value => integerValue ty value
  | .real _ value => .ok (.real value)
  | .named _ name => P.read σ name
  | .component _ (.deref _ pointer) member => do
    let access ← P.fieldBehind pointer.ty member
    σ.memory.load (← eval σ pointer) access
  | .component _ base member => do
    let i ← P.position base.ty member
    let parts ← P.parts base.ty (← eval σ base)
    return parts.getD i .null
  | .deref _ pointer => do σ.memory.load (← eval σ pointer) .whole
  | .element _ array index => do
    let array ← eval σ array
    let index ← eval σ index
    σ.memory.load array (.element index)
  | .address _ _ => .error .stuck

/-! ### Places -/

/-- Where a value can be changed. -/
inductive Place where
  | named (name : String)
  /-- A part of the object that a value refers to. -/
  | object (handle : Value) (access : Access)
  /-- A part of the record in another place. -/
  | part (whole : Place) (record : Ty) (position : Nat)

/-- The place that the target of an assignment denotes. -/
def place (σ : Store) : Expr → Outcome Place
  | .named _ name => .ok (.named name)
  | .component _ (.deref _ pointer) member => do
    let access ← P.fieldBehind pointer.ty member
    return .object (← P.eval σ pointer) access
  | .component _ base member => do
    let i ← P.position base.ty member
    return .part (← place σ base) base.ty i
  | .deref _ pointer => return .object (← P.eval σ pointer) .whole
  | .element _ array index => do
    let array ← P.eval σ array
    let index ← P.eval σ index
    return .object array (.element index)
  | .integer _ _ | .real _ _ | .address _ _ => .error .stuck

/-- The value in a place. -/
def get (σ : Store) : Place → Outcome Value
  | .named name => P.read σ name
  | .object handle access => σ.memory.load handle access
  | .part whole record i => do
    let parts ← P.parts record (← get σ whole)
    return parts.getD i .null

/-- Changes the value in a place. -/
def set (σ : Store) : Place → Value → Outcome Store
  | .named name, value => P.write σ name value
  | .object handle access, value => return { σ with memory := ← σ.memory.store handle access value }
  | .part whole record i, value => do
    let parts ← P.parts record (← P.get σ whole)
    set σ whole (.record (parts.set i value))

/-- Changes the value in the place that an operand denotes. -/
def assign (σ : Store) (lhs : Expr) (value : Value) : Outcome Store := do
  P.set σ (← P.place σ lhs) value

/-! ### Statements -/

/-- The result of an operator. Every operator but the copy is computed by a routine. -/
def apply (op : Operator) (result : Ty) (operands : List Ty) (values : List Value) :
    Outcome Value :=
  if op.opClass = .copy then
    match values with
    | [value] => .ok value
    | _ => .error .stuck
  else
    match P.polyfills.forTypes? op operands result with
    | some routine => .ok (P.runtime.routine routine values)
    | none => .error .stuck

/-- Calls a function, which returns one value unless it is void. -/
def call (σ : Store) (function : String) (values : List Value) : Outcome (List Value × Store) :=
  match P.index.function? function with
  | none => .error .stuck
  | some callee => do
    let (results, memory) ← P.runtime.function function values σ.memory
    if results.length = callee.returnType.toList.length then
      return (results, { σ with memory })
    else .error .stuck

/-- The effect of a statement on the store. Which statement is next is not part of it: a branch or
a switch only evaluates its operands. -/
def perform (σ : Store) : Statement → Outcome Store
  | .assign op lhs operands _ => do
    let values ← operands.mapM (P.eval σ)
    P.assign σ lhs (← P.apply op lhs.ty (operands.map Expr.ty) values)
  | .call function arguments lhs _ => do
    let (results, σ) ← P.call σ function (← arguments.mapM (P.eval σ))
    match lhs, results with
    | none, _ => return σ
    | some lhs, [value] => P.assign σ lhs value
    | some _, _ => .error .stuck
  | .conditional _ operands _ _ _ => do
    let _ ← operands.mapM (P.eval σ)
    return σ
  | .ret none _ => return σ
  | .ret (some value) _ => return { σ with result := ← P.eval σ value }
  | .goto _ _ => return σ
  | .switch value _ _ _ => do
    let _ ← P.eval σ value
    return σ

/-- The effect of statements that run one after the other. -/
def performAll (σ : Store) : List Statement → Outcome Store
  | [] => .ok σ
  | s :: rest => do performAll (← P.perform σ s) rest

/-! ### Operands and places -/

variable {P} {σ : Store}

/-- A field of something that is not behind a pointer is a part of a record by value. -/
theorem eval_component {base : Expr} (h : ∀ rty pointer, base ≠ .deref rty pointer) {ty : Ty}
    {member : String} :
    P.eval σ (.component ty base member) = (do
      let i ← P.position base.ty member
      let parts ← P.parts base.ty (← P.eval σ base)
      return parts.getD i .null) := by
  cases base with
  | deref rty pointer => exact absurd rfl (h rty pointer)
  | _ => rfl

theorem place_component {base : Expr} (h : ∀ rty pointer, base ≠ .deref rty pointer) {ty : Ty}
    {member : String} :
    P.place σ (.component ty base member) = (do
      let i ← P.position base.ty member
      return .part (← P.place σ base) base.ty i) := by
  cases base with
  | deref rty pointer => exact absurd rfl (h rty pointer)
  | _ => rfl

/-- A constant has no place. -/
theorem place_of_isConstant {e : Expr} (h : e.isConstant) : P.place σ e = .error .stuck := by
  cases e <;> first | rfl | cases h

/-- A constant is no record. -/
theorem parts_of_isConstant {e : Expr} (h : e.isConstant) (record : Ty) :
    (P.eval σ e >>= P.parts record) = .error .stuck := by
  cases e with
  | integer ty value =>
    cases ty with
    | pointer base =>
      simp only [eval, integerValue]
      split <;> rfl
    | _ => rfl
  | real ty value => rfl
  | _ => cases h

/-- An operand that can be assigned to has the value that is in its place. -/
theorem eval_eq_get_place {e : Expr} (h : e.isConstant = false) :
    P.eval σ e = (P.place σ e >>= P.get σ) := by
  induction e using place.induct with
  | case1 ty name => rfl
  | case2 ty rty pointer member =>
    simp only [eval, place, bind_assoc, pure_bind]
    rfl
  | case3 ty base member hdirect ih =>
    rw [eval_component hdirect, place_component hdirect]
    cases hbase : base.isConstant with
    | true =>
      rw [place_of_isConstant hbase]
      cases P.position base.ty member with
      | error e => rfl
      | ok i =>
        calc
          _ = ((P.eval σ base >>= P.parts base.ty) >>= fun parts => pure (parts.getD i .null)) :=
            (bind_assoc _ _ _).symm
          _ = _ := by rw [parts_of_isConstant hbase]; rfl
    | false =>
      rw [ih hbase]
      simp only [bind_assoc, pure_bind]
      rfl
  | case4 ty pointer =>
    simp only [eval, place, bind_assoc, pure_bind]
    rfl
  | case5 ty array index =>
    simp only [eval, place, bind_assoc, pure_bind]
    rfl
  | case6 ty value => cases h
  | case7 ty value => cases h
  | case8 ty value => rfl

end Program

end Gimple

end GimpleLowering

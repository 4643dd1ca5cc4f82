import GimpleLowering.Flo.Draft
import GimpleLowering.Layout.Representation
import GimpleLowering.Lowering.Check
import GimpleLowering.Polyfill

/-!
# The state of lowering a function

A function is lowered into a draft of its own, while the types are registered for the whole unit.
The state has the draft, the variables in scope, and the blocks: a block is reserved in the draft
and put on the list of pending ones when it is first branched to.

Everything that is emitted for a statement is marked with the line of the statement, which is part
of the surroundings (`Context`) and not of the state.

## Main definitions

* `Lowering.Var`, `Lowering.createVariable` — variables with their representation
* `Lowering.Context`, `Lowering.State`, `Lowering.LowerM`
* `Lowering.temporary`, `emit` and what is built on them
* `Lowering.declare`, `lookup` — the variables in scope
* `Lowering.blockFor` — the block for a label
-/

namespace GimpleLowering.Lowering

open Gimple Layout

/-! ### Variables -/

/-- What a variable is for. -/
inductive Usage where
  | parameter
  /-- A local variable. -/
  | automatic
  | returnSlot
  /-- A variable that the source does not have. -/
  | temporary
  | global
  deriving DecidableEq, Repr

/-- A variable of the source with the runtime variable that holds it. -/
structure Var where
  name : String
  /-- The type that the variable is declared with. -/
  ty : Ty
  /-- The runtime variable. -/
  id : Nat
  usage : Usage
  representation : Representation
  deriving DecidableEq

/-- The runtime type of a variable. -/
def Var.typ (v : Var) : Flo.Ty := v.representation.valueType

/-- Creates a variable. A global is linked by its name, and a temporary has none. -/
def createVariable (r : Representation) (name : String) (ty : Ty) (usage : Usage)
    (location : Option Nat) (d : Flo.Draft) : Var × Flo.Draft :=
  let linkage := if usage = .global then .external name else .frame
  let label := if usage = .temporary then none else some name
  let (id, d) := d.addVariable r.valueType linkage label location
  (⟨name, ty, id, usage, r⟩, d)

/-- The name of the variable that holds the result of a function. It is not in scope. -/
def returnSlotName : String := "<retval>"

/-! ### Surroundings and state -/

/-- What does not change while a statement is lowered. -/
structure Context where
  index : UnitIndex
  polyfills : Polyfills
  function : Function
  /-- The variable that holds the result, unless the function is void. -/
  returnSlot : Option Nat
  /-- The line of the statement. -/
  line : Option Nat

/-- The variables that the function returns. -/
def Context.returns (cx : Context) : List Nat := cx.returnSlot.toList

/-- What changes while a function is lowered. -/
structure State where
  types : Registry
  draft : Flo.Draft
  /-- The variables in scope, each name once. -/
  scope : List Var
  /-- The labels that were branched to, with their blocks. -/
  blocks : List (Nat × Nat)
  /-- The block that leaves the function, if anything branches there. -/
  exitBlock : Option Nat
  /-- The labels whose blocks are still to be filled in. -/
  pending : List (Nat × Nat)
  /-- The statements of the block that is being lowered. -/
  body : List Nat
  /-- Execution can end with a panic. -/
  canPanic : Bool

/-- The state before anything is lowered. -/
def State.initial (types : Registry) (function source : String) : State :=
  ⟨types, .empty function source, [], [], none, [], [], false⟩

/-- Computations that lower a part of a function. -/
abbrev LowerM := Build State Error

/-- A computation on the registered types. -/
def onTypes {α : Type} (m : LayoutM α) : LowerM α :=
  Build.zoom State.types (fun s types => { s with types }) m

/-- A step on the draft. -/
def onDraft {α : Type} (f : Flo.Draft → α × Flo.Draft) : LowerM α :=
  Build.step fun s => ((f s.draft).1, { s with draft := (f s.draft).2 })

/-- A check. -/
def check {α : Type} (r : Except Error α) : LowerM α := Build.ofExcept r

/-- Execution can end with a panic from here on. -/
def markPanic : LowerM Unit := Build.step fun s => ((), { s with canPanic := true })

/-- The runtime type of the values of a type. -/
def valueType (cx : Context) (ty : Ty) : LowerM Flo.Ty := onTypes (Layout.valueType cx.index ty)

/-! ### Emission -/

/-- The location of the statement that is being lowered. -/
def location (cx : Context) : LowerM (Option Nat) := onDraft fun d => d.locate cx.line

/-- The note on everything that is emitted for a statement. -/
def note (cx : Context) : LowerM Flo.Note := return ⟨[], ← location cx⟩

/-- Appends a statement to the block that is being lowered. -/
def emit (s : Flo.Statement) : LowerM Unit := do
  let id ← onDraft fun d => d.addStatement s
  Build.step fun s => ((), { s with body := s.body ++ [id] })

/-- A variable without a name. -/
def temporary (cx : Context) (typ : Flo.Ty) : LowerM Nat := do
  let location ← location cx
  onDraft fun d => d.addVariable typ .frame none location

/-- A temporary that holds a constant. -/
def constant (cx : Context) (value : Flo.Constant) : LowerM Nat := do
  let target ← temporary cx value.typ
  emit (.assignConst target value (← note cx))
  return target

/-- Emits `target = source`. -/
def assign (cx : Context) (target source : Nat) : LowerM Unit := do
  emit (.assign target source (← note cx))

/-- Emits a call. -/
def call (cx : Context) (block : Flo.BlockRef) (input outputs : List Nat) : LowerM Unit := do
  emit (.call block input outputs (← note cx))

/-- Emits `target = handle.member` with a new temporary for the target. -/
def load (cx : Context) (handle : Nat) (member : Flo.Member) (typ : Flo.Ty) : LowerM Nat := do
  let target ← temporary cx typ
  emit (.load handle member target (← note cx))
  return target

/-- Emits `handle.member = value`. -/
def store (cx : Context) (handle : Nat) (member : Flo.Member) (value : Nat) : LowerM Unit := do
  emit (.store handle member value (← note cx))

/-- Emits a call to the routine for an operation. The result goes to `output`, or else to a new
temporary. -/
def callRoutine (cx : Context) (op : Operator) (input : List Nat) (operandTypes : List Flo.Ty)
    (result : Flo.Ty) (output : Option Nat) : LowerM Nat := do
  match cx.polyfills.forOperation? op operandTypes result with
  | none => throw (.unsupportedConstruct (.noRoutine op operandTypes))
  | some routine =>
    let output ← match output with
      | some output => pure output
      | none => temporary cx result
    call cx (.builtin routine) input [output]
    return output

/-! ### Scope -/

/-- Creates a variable of the given type, without a name that can be looked up. -/
def create (x : UnitIndex) (line : Option Nat) (name : String) (ty : Ty) (usage : Usage) :
    LowerM Var := do
  let r ← onTypes (represent x ty)
  let location ← onDraft fun d => d.locate line
  onDraft (createVariable r name ty usage location)

/-- Brings a variable into scope. -/
def declare (x : UnitIndex) (function : String) (line : Option Nat) (name : String) (ty : Ty)
    (usage : Usage) : LowerM Var := do
  if (← get).scope.any fun v => v.name = name then
    throw (.malformed (.declaredTwice name function))
  let v ← create x line name ty usage
  Build.step fun s => ((), { s with scope := s.scope ++ [v] })
  return v

/-- Brings a global into scope. -/
def declareGlobal (cx : Context) (name : String) : LowerM Unit :=
  match cx.index.global? name with
  | none => throw (.malformed (.undeclared name cx.function.name))
  | some ty => do
    let _ ← declare cx.index cx.function.name cx.line name ty .global

/-- The variable that an operand names, which has to have the type that the operand is written
with. A global comes into scope when it is first used. -/
def lookup (cx : Context) (name : String) (e : Expr) : LowerM Var := do
  unless (← get).scope.any fun v => v.name = name do declareGlobal cx name
  match (← get).scope.find? fun v => v.name = name with
  | none => throw (.internal (.vanished name))
  | some v =>
    check (sameType e.text e.ty v.name v.ty)
    return v

/-! ### Blocks -/

/-- The block that leaves the function with the current result. -/
def exitBlock (cx : Context) : LowerM Nat := do
  match (← get).exitBlock with
  | some id => return id
  | none =>
    let id ← onDraft fun d => d.addBlock ⟨none, .usable, [], .ret cx.returns, []⟩
    Build.step fun s => ((), { s with exitBlock := some id })
    return id

/-- The block for a label, which is scheduled when it is first branched to. -/
def blockFor (cx : Context) (label : Nat) : LowerM Nat := do
  if label = exitIndex then exitBlock cx
  else
    match (← get).blocks.lookup label with
    | some id => return id
    | none =>
      if (cx.function.block? label).isNone then
        throw (.malformed (.noSuchBlock label cx.function.name))
      let id ← onDraft fun d => d.reserveBlock
      Build.step fun s =>
        ((), { s with blocks := s.blocks ++ [(label, id)], pending := s.pending ++ [(label, id)] })
      return id

end GimpleLowering.Lowering

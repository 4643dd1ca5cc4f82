import GimpleLowering.Lowering.Operand

/-!
# Statements

A copy becomes an assignment, every other operation a call to a routine of the runtime library, and
a call a call to an external function. A branch becomes a list of arms that are tried in order; the
last one always holds.

## Main definitions

* `Lowering.lowerStatement` — lowers one statement and returns the exit of a terminator
-/

namespace GimpleLowering.Lowering

open Gimple

/-! ### Assignments -/

/-- The operation of an assignment that is not a copy. -/
def lowerOperation (cx : Context) (op : Operator) (lhs : Expr) (operands : List Expr) :
    LowerM Unit := do
  let operandTypes ← operands.mapM fun e => valueType cx e.ty
  let resultType ← valueType cx lhs.ty
  if (cx.polyfills.forOperation? op operandTypes resultType).isNone then
    throw (.unsupportedConstruct (.noRoutineFor op (operands.map Expr.ty)))
  let inputs ← operands.mapM (read cx)
  match ← destination cx lhs with
  | some target => let _ ← callRoutine cx op inputs operandTypes resultType (some target)
  | none => write cx lhs (← callRoutine cx op inputs operandTypes resultType none)

/-- Lowers `lhs = op(operands…)`. -/
def lowerAssign (cx : Context) (op : Operator) (lhs : Expr) (operands : List Expr) :
    LowerM Unit := do
  if op.opClass = .pointerArithmetic then
    throw (.unsupportedConstruct (.pointerAssignment op lhs))
  if operands.length ≠ op.arity then throw (.malformed (.operandCount op operands.length))
  check (operands.forM fun e => rejectNull lhs.ty e)
  check (checkOperation op lhs operands)
  if op.opClass = .copy then
    let source ← Build.present 0 operands[0]?
    write cx lhs (← read cx source)
  else lowerOperation cx op lhs operands

/-! ### Calls -/

/-- The arguments of a call have the types of the parameters. -/
def checkArguments (callee : String) (position : Nat) : List Expr → List Ty → Except Error Unit
  | argument :: arguments, parameter :: parameters => do
    rejectNull parameter argument
    sameType argument.text argument.ty
      ("parameter " ++ toString position ++ " of `" ++ callee ++ "`") parameter
    checkArguments callee (position + 1) arguments parameters
  | _, _ => .ok ()

/-- The result of a call can be stored where it should go. -/
def checkResult (callee : Signature) : Option Expr → Except Error Unit
  | none => .ok ()
  | some lhs =>
    match callee.returnType with
    | none => .error (.malformed (.voidAssigned callee.name lhs))
    | some ty => sameType lhs.text lhs.ty ("the result of `" ++ callee.name ++ "`") ty

/-- Lowers a call. A result that is not stored goes to a temporary. -/
def lowerCall (cx : Context) (function : String) (arguments : List Expr) (lhs : Option Expr) :
    LowerM Unit := do
  match cx.index.function? function with
  | none => throw (.malformed (.undeclaredCallee function))
  | some callee =>
    if arguments.length ≠ callee.parameterTypes.length then
      throw (.arityMismatch callee.name callee.parameterTypes.length arguments.length)
    check (checkArguments callee.name 0 arguments callee.parameterTypes)
    check (checkResult callee lhs)
    let inputs ← arguments.mapM (read cx)
    let block := .external callee.name
    match callee.returnType, lhs with
    | some _, some lhs =>
      match ← destination cx lhs with
      | some target => call cx block inputs [target]
      | none =>
        let output ← temporary cx (← valueType cx lhs.ty)
        call cx block inputs [output]
        write cx lhs output
    | some ty, none =>
      let discarded ← temporary cx (← valueType cx ty)
      call cx block inputs [discarded]
    | none, _ => call cx block inputs []

/-! ### Branches -/

/-- An arm that continues at a block if a condition holds. -/
def addArm (cx : Context) (condition target : Nat) : LowerM Nat := do
  let location ← location cx
  onDraft fun d => d.addMatchArm condition target location

/-- An arm that always continues at a block. -/
def addDefaultArm (cx : Context) (target : Nat) : LowerM Nat := do
  addArm cx (← constant cx (.ofBool true)) target

/-- Lowers a branch to one of two blocks. -/
def lowerConditional (cx : Context) (op : Operator) (operands : List Expr)
    (trueLabel falseLabel : Nat) : LowerM Flo.BlockExit := do
  if op.opClass ≠ .comparison then throw (.malformed (.notACondition op))
  match operands with
  | [left, right] =>
    check (sameType left.text left.ty right.text right.ty)
    let typ ← valueType cx left.ty
    let trueTarget ← blockFor cx trueLabel
    let falseTarget ← blockFor cx falseLabel
    let left ← read cx left
    let right ← read cx right
    let condition ← callRoutine cx op [left, right] [typ, typ] .bool none
    let otherwise ← constant cx (.ofBool true)
    let first ← addArm cx condition trueTarget
    return .branch [first, ← addArm cx otherwise falseTarget]
  | _ => throw (.malformed (.conditionOperands op operands.length))

/-- The condition that a selector matches a label. -/
def caseCondition (cx : Context) (selector : Nat) (typ : Flo.Ty) (c : Case) : LowerM Nat := do
  let low ← constant cx (← check (integerConstant typ c.low))
  if c.upper = c.low then callRoutine cx .eq [selector, low] [typ, typ] .bool none
  else
    let high ← constant cx (← check (integerConstant typ c.upper))
    let above ← callRoutine cx .ge [selector, low] [typ, typ] .bool none
    let below ← callRoutine cx .le [selector, high] [typ, typ] .bool none
    callRoutine cx .truthAnd [above, below] [.bool, .bool] .bool none

/-- The arms for labels whose blocks are known. -/
def caseArms (cx : Context) (selector : Nat) (typ : Flo.Ty) : List (Case × Nat) → LowerM (List Nat)
  | [] => pure []
  | (c, target) :: rest => do
    let arm ← addArm cx (← caseCondition cx selector typ c) target
    return arm :: (← caseArms cx selector typ rest)

/-- Lowers a switch. -/
def lowerSwitch (cx : Context) (value : Expr) (cases : List Case) (defaultLabel : Nat) :
    LowerM Flo.BlockExit := do
  if ! value.ty.isIntegral then throw (.malformedSwitch (.selector value))
  let typ ← valueType cx value.ty
  check (validateCases value typ [] cases)
  let targets ← cases.mapM fun c => blockFor cx c.block
  let default ← blockFor cx defaultLabel
  let selector ← read cx value
  let arms ← caseArms cx selector typ (cases.zip targets)
  return .branch (arms ++ [← addDefaultArm cx default])

/-! ### Returns -/

/-- Lowers a return. The value goes through the return slot. -/
def lowerReturn (cx : Context) (value : Option Expr) : LowerM Flo.BlockExit := do
  let function := cx.function.name
  match cx.function.returnType, value with
  | none, none => return .ret []
  | none, some value => throw (.malformed (.valueFromVoid value function))
  | some _, none => throw (.malformed (.noValue function))
  | some ty, some value =>
    check (rejectNull ty value)
    check (sameType value.text value.ty ("the result of `" ++ function ++ "`") ty)
    let source ← read cx value
    match cx.returnSlot with
    | none => throw (.internal (.noReturnSlot function))
    | some slot =>
      assign cx slot source
      return .ret [slot]

/-! ### Statements -/

/-- Lowers a statement. A terminator gives the exit of its block. -/
def lowerStatement (cx : Context) : Statement → LowerM (Option Flo.BlockExit)
  | .assign op lhs operands _ => do
    lowerAssign cx op lhs operands
    return none
  | .call function arguments lhs _ => do
    lowerCall cx function arguments lhs
    return none
  | .conditional op operands t f _ => return some (← lowerConditional cx op operands t f)
  | .ret value _ => return some (← lowerReturn cx value)
  | .goto target _ => return some (.goto (← blockFor cx target))
  | .switch value cases default _ => return some (← lowerSwitch cx value cases default)

end GimpleLowering.Lowering

import GimpleLowering.Flo.Ty
import GimpleLowering.Gimple.Unit
import GimpleLowering.Json.Defect

/-!
# Errors of a compilation

An error is a cause with everything that its message shows. Causes are grouped by what they mean
for the user (`Error.Kind`): a mistake in the intermediate code, a type or a construct that the
runtime has nothing for, a record without a layout, and so on. An error that some other tool
reports is known by its kind and its words alone.

`Failure` says which function could not be lowered, and at which statement.

## Main definitions

* `Error`, `Error.kind`, `Error.message`
* `StatementLocation`, `Failure`, `Failure.message`
-/

namespace GimpleLowering

open Gimple

namespace Error

/-- What an error means for the user. -/
inductive Kind where
  /-- Something went wrong that no other kind describes. -/
  | internal
  /-- The intermediate code contradicts itself. -/
  | malformed
  /-- The runtime has nothing for a type. -/
  | unsupportedType
  /-- The runtime has nothing for a construct. -/
  | unsupportedConstruct
  /-- Two types have to be equal and are not. -/
  | typeMismatch
  /-- A call has the wrong number of arguments. -/
  | arityMismatch
  /-- A record contains itself, or is used by value without a definition. -/
  | invalidLayout
  /-- The labels of a switch are empty or overlap. -/
  | malformedSwitch
  /-- The passes cannot be put into an order. -/
  | passOrder
  /-- The result of a pass is not there. -/
  | missingPassData
  deriving DecidableEq, Repr

/-- The words before the cause. -/
def Kind.heading : Kind → String
  | internal => "Compilation failed: "
  | malformed => "Malformed GIMPLE: "
  | unsupportedType => "The GIMPLE type "
  | unsupportedConstruct => "Unsupported construct: "
  | typeMismatch => "Types do not match: "
  | arityMismatch => "Call to "
  | invalidLayout => "Invalid record layout: "
  | malformedSwitch => "Malformed switch: "
  | passOrder => "Invalid Pass Ordering: "
  | missingPassData => "The data for pass "

/-- The words of an error of a kind that is described by one text. -/
def Kind.describe (kind : Kind) (text : String) : String :=
  match kind with
  | unsupportedType => kind.heading ++ text ++ " is not supported"
  | missingPassData => kind.heading ++ "`" ++ text ++ "` is not available"
  | kind => kind.heading ++ text

end Error

/-! ### Causes -/

/-- Failures that no unit should be able to cause. -/
inductive InternalCause where
  | notARecord (ty : Ty)
  | blockVanished (index : Nat)
  | notAnInteger (value : Int) (typ : Flo.Ty)
  | noReturnSlot (function : String)
  | vanished (name : String)
  deriving DecidableEq

/-- The words for an internal failure. -/
def InternalCause.message : InternalCause → String
  | notARecord ty => "attempted to resolve the non-record type " ++ ty.text ++ " as a struct"
  | blockVanished index =>
    "block " ++ toString index ++ " was scheduled but does not exist"
  | notAnInteger value typ =>
    "the integer " ++ toString value ++ " cannot be held in a value of type " ++ typ.text
  | noReturnSlot function => "`" ++ function ++ "` has no return slot"
  | vanished name => "`" ++ name ++ "` vanished from scope"

/-- The ways in which intermediate code contradicts itself. -/
inductive Malformation where
  | defect (e : Json.Defect)
  | contradiction (c : Contradiction)
  | globalTwice (name : String)
  | conflictingSignatures (function : String)
  | noSuchField (record : Ty) (name : String)
  | noSuchBlock (label : Nat) (function : String)
  | declaredTwice (name function : String)
  | undeclared (name function : String)
  | notLast (statement : String) (block : Nat)
  | doesNotFit (value : Int) (typ : Flo.Ty)
  | nullStored (target : Ty)
  | nullConstant (ty : Ty)
  | realOfOtherType (value : Double) (ty : Ty)
  | constantAssigned (constant : Expr)
  | integerOfAggregate (value : Int) (ty : Ty)
  | derefAsRecord (pointer : Expr)
  | fieldOfNonRecord (member : String) (base : Expr)
  | derefNonPointer (pointer : Expr)
  | indexNonArray (array : Expr)
  | operandCount (operator : Operator) (given : Nat)
  | undeclaredCallee (function : String)
  | voidAssigned (function : String) (lhs : Expr)
  | notACondition (operator : Operator)
  | conditionOperands (operator : Operator) (given : Nat)
  | valueFromVoid (value : Expr) (function : String)
  | noValue (function : String)
  deriving DecidableEq

/-- The words for a malformation. -/
def Malformation.message : Malformation → String
  | defect e => e.message
  | contradiction c => c.message
  | globalTwice name => "global `" ++ name ++ "` is declared more than once"
  | conflictingSignatures function => "conflicting declarations of function `" ++ function ++ "`"
  | noSuchField record name => record.text ++ " has no field `" ++ name ++ "`"
  | noSuchBlock label function =>
    "branch to block " ++ toString label ++ ", which does not exist in `" ++ function ++ "`"
  | declaredTwice name function =>
    "`" ++ name ++ "` is declared more than once in `" ++ function ++ "`"
  | undeclared name function =>
    "`" ++ name ++ "` is used in `" ++ function ++ "` but never declared"
  | notLast statement block =>
    "the " ++ statement ++ " statement is not the last statement of block " ++ toString block
  | doesNotFit value typ => "the integer " ++ toString value ++ " does not fit in " ++ typ.text
  | nullStored target =>
    "null cannot be stored into the non-nullable reference type " ++ target.text
  | nullConstant ty => "null constant of the non-nullable type " ++ ty.text
  | realOfOtherType value ty =>
    "the real constant " ++ value.text .constant ++ " has the non-real type " ++ ty.text
  | constantAssigned constant => "the constant `" ++ constant.text ++ "` cannot be assigned to"
  | integerOfAggregate value ty =>
    "the integer constant " ++ toString value ++ " has the aggregate type " ++ ty.text
  | derefAsRecord pointer =>
    "`" ++ pointer.text ++ "` is dereferenced as a record but has type " ++ pointer.ty.text
  | fieldOfNonRecord member base =>
    "the field `" ++ member ++ "` is accessed on `" ++ base.text
      ++ "`, which has the non-record type " ++ base.ty.text
  | derefNonPointer pointer =>
    "`" ++ pointer.text ++ "` is dereferenced but has the non-pointer type " ++ pointer.ty.text
  | indexNonArray array =>
    "`" ++ array.text ++ "` is indexed but has the non-array type " ++ array.ty.text
  | operandCount operator given =>
    "`" ++ operator.name ++ "` expects " ++ toString operator.arity ++ " operands but was given "
      ++ toString given
  | undeclaredCallee function => "call to `" ++ function ++ "`, which is never declared"
  | voidAssigned function lhs =>
    "the result of the void function `" ++ function ++ "` is assigned to `" ++ lhs.text ++ "`"
  | notACondition operator =>
    "`" ++ operator.name ++ "` cannot be used as the condition of a branch"
  | conditionOperands operator given =>
    "the condition `" ++ operator.name ++ "` expects 2 operands but was given " ++ toString given
  | valueFromVoid value function =>
    "`" ++ value.text ++ "` is returned from the void function `" ++ function ++ "`"
  | noValue function => "the non-void function `" ++ function ++ "` returns without a value"

/-- The types that the runtime has nothing for. -/
inductive UnsupportedType where
  /-- Integers and reals of other widths than the runtime's. -/
  | scalar (ty : Ty)
  /-- Pointers and references to pointers and references. -/
  | doubleIndirection (ty : Ty)
  deriving DecidableEq

/-- The words for an unsupported type. -/
def UnsupportedType.message : UnsupportedType → String
  | scalar ty => ty.text
  | doubleIndirection ty => ty.text ++ " (pointers to pointers)"

/-- The constructs that the runtime has nothing for. -/
inductive UnsupportedUse where
  | noRoutine (operator : Operator) (operands : List Flo.Ty)
  | noRoutineFor (operator : Operator) (operands : List Ty)
  | addressTaken (value : Expr)
  | addressAssigned (lhs : Expr)
  | integerAddress (value : Int) (ty : Ty)
  | pointerArithmetic (operator : Operator) (lhs : Expr)
  | pointerAssignment (operator : Operator) (lhs : Expr)
  deriving DecidableEq

/-- The words for an unsupported construct. -/
def UnsupportedUse.message : UnsupportedUse → String
  | noRoutine operator operands =>
    "`" ++ operator.name ++ "` on operands of type " ++ Flo.Ty.listText operands
  | noRoutineFor operator operands =>
    "`" ++ operator.name ++ "` on operands of type " ++ ", ".intercalate (operands.map Ty.text)
  | addressTaken value => "taking the address of `" ++ value.text ++ "`"
  | addressAssigned lhs => "assigning to the address `" ++ lhs.text ++ "`"
  | integerAddress value ty =>
    "the integer " ++ toString value ++ " used as an address of type " ++ ty.text
  | pointerArithmetic operator lhs =>
    "pointer arithmetic in `" ++ lhs.text ++ " = " ++ operator.name ++ "(...)`"
  | pointerAssignment operator lhs =>
    "pointer arithmetic `" ++ operator.name ++ "` in the assignment to `" ++ lhs.text ++ "`"

/-- The ways in which a record has no layout. -/
inductive LayoutFault where
  | containsItself (record : Ty)
  | undefinedByValue (record : Ty)
  | fieldTwice (record : Ty) (name : String)
  deriving DecidableEq

/-- The words for a record without a layout. -/
def LayoutFault.message : LayoutFault → String
  | containsItself record => record.text ++ " contains itself by value"
  | undefinedByValue record => record.text ++ " is used by value but never defined"
  | fieldTwice record name => record.text ++ " has more than one field named `" ++ name ++ "`"

/-- The ways in which a switch contradicts itself. -/
inductive SwitchFault where
  | selector (value : Expr)
  | outOfRange (c : Case) (value : Expr)
  | emptyRange (c : Case)
  | repeatedValue (value : Int)
  | overlap (later earlier : Case)
  deriving DecidableEq

/-- The words for a bad switch. -/
def SwitchFault.message : SwitchFault → String
  | selector value =>
    "the selector `" ++ value.text ++ "` has the non-integer type " ++ value.ty.text
  | outOfRange c value =>
    "the case " ++ c.text ++ " is out of the range of the selector `" ++ value.text ++ "`"
  | emptyRange c =>
    "the case range " ++ toString c.low ++ " ... " ++ toString c.upper ++ " is empty"
  | repeatedValue value => "duplicate case value " ++ toString value
  | overlap later earlier => "case " ++ later.text ++ " overlaps case " ++ earlier.text

/-- The ways in which passes cannot be put into an order, with the names of passes. -/
inductive OrderFault where
  | providedTwice
  | dependencyMissing (pass : String)
  | circular (passes : List String)
  deriving DecidableEq

/-- The words for passes without an order. -/
def OrderFault.message : OrderFault → String
  | providedTwice => "The same pass was provided more than once"
  | dependencyMissing pass => pass ++ " depends on a pass that was not provided"
  | circular passes => "Circular dependencies between " ++ ", ".intercalate passes

/-! ### Errors -/

/-- Why a unit or a function could not be compiled. -/
inductive Error where
  | internal (cause : InternalCause)
  | malformed (cause : Malformation)
  | unsupportedType (cause : UnsupportedType)
  | unsupportedConstruct (cause : UnsupportedUse)
  | typeMismatch (left leftType right rightType : String)
  | arityMismatch (callee : String) (expected actual : Nat)
  | invalidLayout (cause : LayoutFault)
  | malformedSwitch (cause : SwitchFault)
  | passOrder (cause : OrderFault)
  | missingPassData (pass : String)
  /-- An error known by its kind and its words alone. -/
  | reported (kind : Error.Kind) (text : String)
  deriving DecidableEq

namespace Error

/-- What an error means for the user. -/
def kind : Error → Kind
  | internal _ => .internal
  | malformed _ => .malformed
  | unsupportedType _ => .unsupportedType
  | unsupportedConstruct _ => .unsupportedConstruct
  | typeMismatch .. => .typeMismatch
  | arityMismatch .. => .arityMismatch
  | invalidLayout _ => .invalidLayout
  | malformedSwitch _ => .malformedSwitch
  | passOrder _ => .passOrder
  | missingPassData _ => .missingPassData
  | reported kind _ => kind

/-- The words for an error. -/
def message : Error → String
  | internal cause => Kind.describe .internal cause.message
  | malformed cause => Kind.describe .malformed cause.message
  | unsupportedType cause => Kind.describe .unsupportedType cause.message
  | unsupportedConstruct cause => Kind.describe .unsupportedConstruct cause.message
  | typeMismatch left leftType right rightType =>
    Kind.describe .typeMismatch (left ++ ":" ++ leftType ++ " <> " ++ right ++ ":" ++ rightType)
  | arityMismatch callee expected actual =>
    Kind.describe .arityMismatch ("`" ++ callee ++ "` expects " ++ toString expected
      ++ " arguments but was given " ++ toString actual)
  | invalidLayout cause => Kind.describe .invalidLayout cause.message
  | malformedSwitch cause => Kind.describe .malformedSwitch cause.message
  | passOrder cause => Kind.describe .passOrder cause.message
  | missingPassData pass => Kind.describe .missingPassData pass
  | reported kind text => kind.describe text

end Error

/-! ### Failures of functions -/

/-- A statement of a function, by its block and its position there. -/
structure StatementLocation where
  block : Nat
  statement : Nat
  line : Option Nat
  deriving DecidableEq, Repr

/-- The words for a location. -/
def StatementLocation.text (l : StatementLocation) : String :=
  "block " ++ toString l.block ++ ", statement " ++ toString l.statement
    ++ match l.line with
      | some line => " (line " ++ toString line ++ ")"
      | none => ""

/-- A function that could not be lowered, with the statement at fault if there is one. -/
structure Failure where
  function : String
  location : Option StatementLocation
  error : Error
  deriving DecidableEq

/-- The words for a failure. -/
def Failure.message (f : Failure) : String :=
  "Failed to translate `" ++ f.function ++ "`"
    ++ (match f.location with
      | some l => " at " ++ l.text
      | none => "")
    ++ ": " ++ f.error.message

end GimpleLowering

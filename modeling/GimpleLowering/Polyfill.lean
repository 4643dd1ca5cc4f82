import GimpleLowering.Flo.Ty
import GimpleLowering.Gimple.Operator
import GimpleLowering.Pairing

/-!
# Routines of the runtime library

The runtime only moves data around: every arithmetic operation, comparison and conversion is a
call to a routine of its library. Which routine implements an operation on which types is decided
by a one-to-one pairing of operations, written as `plus_expr(i32, i32)`, with the names of routines.

## Main definitions

* `Polyfill.operationName`, `Polyfill.routineName` — the names of both sides
* `Polyfills.library` — the routines that the runtime library comes with
* `Polyfills.forOperation?` — the routine for an operation on values of given types
-/

namespace GimpleLowering

open Gimple

/-- The routines for operations. -/
abbrev Polyfills := Pairing String String

namespace Polyfill

/-! ### Names -/

/-- The name of an operation on operands of the given types. -/
def operationName (opcode : String) (types : List String) : String :=
  opcode ++ "(" ++ ", ".intercalate types ++ ")"

/-- The name of the routine for an operation on operands of the given types. -/
def routineName (opcode : String) (types : List String) : String :=
  "__gimple_" ++ opcode ++ "_" ++ (if types.isEmpty then "void" else "_".intercalate types)

/-- The name of a runtime type in the names of operations, if there are routines for values of
that type. -/
def typeName? : Flo.Ty → Option String
  | .bool => some "bool"
  | .signed32 => some "i32"
  | .signed64 => some "i64"
  | .double => some "f64"
  | .handle _ _ => some "handle"
  | .array _ | .struct _ | .unspecified => none

/-! ### The runtime library -/

/-- One signature for each integer type. -/
def integerUnary : List (List String) := [["i32"], ["i64"]]

/-- One signature for each numeric type. -/
def numericUnary : List (List String) := [["i32"], ["i64"], ["f64"]]

/-- Two operands of one integer type. -/
def integerBinary : List (List String) := [["i32", "i32"], ["i64", "i64"]]

/-- Two operands of one numeric type. -/
def numericBinary : List (List String) := [["i32", "i32"], ["i64", "i64"], ["f64", "f64"]]

/-- Two operands that have an order. -/
def comparable : List (List String) := numericBinary ++ [["bool", "bool"]]

/-- Two operands that can be equal. Handles have no order. -/
def equatable : List (List String) := comparable ++ [["handle", "handle"]]

/-- The operand types for which the runtime library implements an operation. The signature of a
conversion ends with the type of its result. -/
def signatures : Operator → List (List String)
  | .plus | .minus | .mult | .min | .max => numericBinary
  | .truncDiv | .truncMod | .bitAnd | .bitOr | .bitXor | .shiftLeft | .shiftRight => integerBinary
  | .realDiv => [["f64", "f64"]]
  | .negate | .abs => numericUnary
  | .bitNot => integerUnary
  | .eq | .ne => equatable
  | .lt | .le | .gt | .ge => comparable
  | .truthAnd | .truthOr => [["bool", "bool"]]
  | .truthNot => [["bool"]]
  | .float => [["i32", "f64"], ["i64", "f64"]]
  | .fixTrunc => [["f64", "i32"], ["f64", "i64"]]
  | .convert =>
    [["i32", "i64"], ["i64", "i32"], ["bool", "i32"], ["bool", "i64"], ["i32", "bool"],
     ["i64", "bool"]]
  | .copy | .pointerPlus => []

/-- The operators that the runtime library implements for some types. -/
def libraryOperators : List Operator :=
  [.plus, .minus, .mult, .truncDiv, .realDiv, .truncMod, .negate, .abs, .min, .max, .bitAnd,
   .bitOr, .bitXor, .bitNot, .shiftLeft, .shiftRight, .eq, .ne, .lt, .le, .gt, .ge, .truthAnd,
   .truthOr, .truthNot, .float, .fixTrunc, .convert]

end Polyfill

namespace Polyfills

open Polyfill

/-- The routines of the runtime library, under their usual names. -/
def library : Polyfills :=
  .ofList <| libraryOperators.flatMap fun op => (signatures op).map fun types =>
    (operationName op.name types, routineName op.name types)

/-- The routine for an operation on values of the given types. The type of the result is part of
the operation only for conversions. -/
def forOperation? (ps : Polyfills) (op : Operator) (operands : List Flo.Ty) (result : Flo.Ty) :
    Option String := do
  let types ← operands.mapM typeName?
  let types ← if op.opClass = .conversion then (typeName? result).map (types ++ [·])
    else some types
  ps.ofLeft? (operationName op.name types)

/-- The operations with their routines, in the order of their names. -/
def sorted (ps : Polyfills) : List (String × String) :=
  ps.pairs.mergeSort fun a b => a.1 < b.1 ∨ (a.1 = b.1 ∧ a.2 ≤ b.2)

end Polyfills

end GimpleLowering

/-!
# Operators

The operation of an assignment or of a condition, by the name that the compiler gives it. A plain
copy is reported under the code of the operand that is copied, so all those codes name `copy`.
-/

namespace GimpleLowering.Gimple

/-- An operation on one or two operands. -/
inductive Operator where
  | copy
  | plus | minus | mult | truncDiv | realDiv | truncMod | negate | abs | min | max
  | bitAnd | bitOr | bitXor | bitNot | shiftLeft | shiftRight
  | eq | ne | lt | le | gt | ge
  | truthAnd | truthOr | truthNot
  | float | fixTrunc | convert
  | pointerPlus
  deriving DecidableEq, Repr, Inhabited

namespace Operator

/-- What an operator asks of the types of its operands and its result. -/
inductive Class where
  /-- A plain copy of one operand. -/
  | copy
  /-- Operands and result share a type. -/
  | arithmetic
  /-- Two operands of one type, and a truth value as the result. -/
  | comparison
  /-- Truth values throughout. -/
  | logical
  /-- From one numeric type to another. -/
  | conversion
  /-- Arithmetic on native addresses. -/
  | pointerArithmetic
  deriving DecidableEq, Repr

/-- The name that messages and documents use. -/
def name : Operator → String
  | copy => "nop_expr"
  | plus => "plus_expr"
  | minus => "minus_expr"
  | mult => "mult_expr"
  | truncDiv => "trunc_div_expr"
  | realDiv => "rdiv_expr"
  | truncMod => "trunc_mod_expr"
  | negate => "negate_expr"
  | abs => "abs_expr"
  | min => "min_expr"
  | max => "max_expr"
  | bitAnd => "bit_and_expr"
  | bitOr => "bit_ior_expr"
  | bitXor => "bit_xor_expr"
  | bitNot => "bit_not_expr"
  | shiftLeft => "lshift_expr"
  | shiftRight => "rshift_expr"
  | eq => "eq_expr"
  | ne => "ne_expr"
  | lt => "lt_expr"
  | le => "le_expr"
  | gt => "gt_expr"
  | ge => "ge_expr"
  | truthAnd => "truth_and_expr"
  | truthOr => "truth_or_expr"
  | truthNot => "truth_not_expr"
  | float => "float_expr"
  | fixTrunc => "fix_trunc_expr"
  | convert => "convert_expr"
  | pointerPlus => "pointer_plus_expr"

instance : ToString Operator := ⟨name⟩

/-- The operators in the order of their declaration. -/
def all : List Operator :=
  [copy, plus, minus, mult, truncDiv, realDiv, truncMod, negate, abs, min, max, bitAnd, bitOr,
   bitXor, bitNot, shiftLeft, shiftRight, eq, ne, lt, le, gt, ge, truthAnd, truthOr, truthNot,
   float, fixTrunc, convert, pointerPlus]

/-- The class of an operator. -/
def opClass : Operator → Class
  | copy => .copy
  | plus | minus | mult | truncDiv | realDiv | truncMod | negate | abs | min | max
  | bitAnd | bitOr | bitXor | bitNot | shiftLeft | shiftRight => .arithmetic
  | eq | ne | lt | le | gt | ge => .comparison
  | truthAnd | truthOr | truthNot => .logical
  | float | fixTrunc | convert => .conversion
  | pointerPlus => .pointerArithmetic

/-- The number of operands. -/
def arity : Operator → Nat
  | copy | negate | abs | bitNot | truthNot | float | fixTrunc | convert => 1
  | _ => 2

end Operator

end GimpleLowering.Gimple

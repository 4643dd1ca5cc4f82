import GimpleLowering.Error
import GimpleLowering.Flo.Entry

/-!
# Checks of statements

What a statement has to satisfy before anything is emitted for it. Types are compared by
`Ty.agrees`, which looks through forward references.

## Main definitions

* `Lowering.sameType` — two types agree
* `Lowering.checkOperation` — the types of an operation's operands and result
* `Lowering.integerConstant` — an integer as a constant of a runtime type
* `Lowering.validateCases` — the labels of a switch are in range, not empty and disjoint
-/

namespace GimpleLowering.Lowering

open Gimple

/-! ### Types -/

/-- Two types agree. The texts say what has the types. -/
def sameType (left : String) (leftType : Ty) (right : String) (rightType : Ty) :
    Except Error Unit :=
  if leftType.agrees rightType then .ok ()
  else .error (.typeMismatch left leftType.text right rightType.text)

/-- An operand is a truth value, as needed for some purpose. -/
def isTruth (e : Expr) (purpose : String) : Except Error Unit :=
  sameType e.text e.ty purpose .boolean

/-- Integers and truth values convert into each other. -/
def isConvertible (ty : Ty) : Bool := ty.isIntegral || ty = .boolean

/-- A conversion goes from one type to another. -/
def converts (op : Operator) (source target : Ty) : Bool :=
  match op with
  | .float => source.isIntegral && target.isReal
  | .fixTrunc => source.isReal && target.isIntegral
  | _ => isConvertible source && isConvertible target

/-- The operands of `lhs = op(operands…)` and its result have the types that the operator asks
for. The number of operands is checked elsewhere. -/
def checkOperation (op : Operator) (lhs : Expr) (operands : List Expr) : Except Error Unit :=
  match op.opClass with
  | .copy | .arithmetic => operands.forM fun e => sameType lhs.text lhs.ty e.text e.ty
  | .comparison => do
    match operands with
    | [left, right] => sameType left.text left.ty right.text right.ty
    | _ => .ok ()
    isTruth lhs "the result of a comparison"
  | .logical => do
    isTruth lhs "the result of a logical operation"
    operands.forM fun e => isTruth e "an operand of a logical operation"
  | .conversion => operands.forM fun e =>
    if converts op e.ty lhs.ty then .ok ()
    else .error (.typeMismatch lhs.text lhs.ty.text e.text e.ty.text)
  | .pointerArithmetic => .error (.unsupportedConstruct (.pointerArithmetic op lhs))

/-- The constant null must not be written where a reference is expected. -/
def rejectNull (target : Ty) (value : Expr) : Except Error Unit :=
  match target, value with
  | .reference base, .integer _ 0 => .error (.malformed (.nullStored (.reference base)))
  | _, _ => .ok ()

/-! ### Integers -/

/-- An integer is in the range of a runtime type. -/
def fits : Flo.Ty → Int → Bool
  | .signed32, i => -2147483648 ≤ i && i < 2147483648
  | .signed64, i => -9223372036854775808 ≤ i && i < 9223372036854775808
  | _, _ => false

/-- An integer as a constant of a runtime type. -/
def integerConstant (typ : Flo.Ty) (value : Int) : Except Error Flo.Constant :=
  if ! typ.isInteger then .error (.internal (.notAnInteger value typ))
  else if ! fits typ value then .error (.malformed (.doesNotFit value typ))
  else if typ = .signed32 then .ok (.signed32 value)
  else .ok (.signed64 value)

/-! ### Labels of a switch -/

/-- One label is in range, not empty, and disjoint from the earlier ones. -/
def validateCase (value : Expr) (typ : Flo.Ty) (earlier : List Case) (c : Case) :
    Except Error Unit := do
  if ! (fits typ c.low && fits typ c.upper) then .error (.malformedSwitch (.outOfRange c value))
  if c.upper < c.low then .error (.malformedSwitch (.emptyRange c))
  match earlier.find? fun e => e.overlaps c with
  | none => .ok ()
  | some e =>
    if e.high.isNone && c.high.isNone then .error (.malformedSwitch (.repeatedValue c.low))
    else .error (.malformedSwitch (.overlap c e))

/-- The labels of a switch are in range, not empty, and disjoint. -/
def validateCases (value : Expr) (typ : Flo.Ty) (earlier : List Case) :
    List Case → Except Error Unit
  | [] => .ok ()
  | c :: rest => do
    validateCase value typ earlier c
    validateCases value typ (earlier ++ [c]) rest

/-! ### Interface lemmas -/

theorem sameType_eq_ok_iff {left right : String} {a b : Ty} :
    sameType left a right b = .ok () ↔ a.agrees b = true := by
  unfold sameType
  split <;> simp_all

theorem fits_eq_true_iff {typ : Flo.Ty} {i : Int} :
    fits typ i = true ↔ (typ = .signed32 ∧ -2147483648 ≤ i ∧ i < 2147483648) ∨
      (typ = .signed64 ∧ -9223372036854775808 ≤ i ∧ i < 9223372036854775808) := by
  cases typ <;> simp [fits]

/-- An integer constant has the type that it was made for. -/
theorem typ_of_integerConstant {typ : Flo.Ty} {value : Int} {c : Flo.Constant}
    (h : integerConstant typ value = .ok c) : c.typ = typ := by
  unfold integerConstant at h
  split at h
  · cases h
  rename_i hint
  split at h
  · cases h
  split at h
  · rename_i htyp
    cases h
    exact htyp.symm
  · rename_i htyp
    cases h
    cases typ <;> simp [Flo.Ty.isInteger, Flo.Constant.signed64] at hint htyp ⊢

theorem isInteger_of_integerConstant {typ : Flo.Ty} {value : Int} {c : Flo.Constant}
    (h : integerConstant typ value = .ok c) : c.typ.isInteger := by
  unfold integerConstant at h
  split at h
  · cases h
  split at h
  · cases h
  split at h
  · cases h
    rfl
  · cases h
    rfl

end GimpleLowering.Lowering

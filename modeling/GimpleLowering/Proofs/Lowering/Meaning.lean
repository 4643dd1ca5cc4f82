import GimpleLowering.Lowering.Function
import GimpleLowering.Proofs.Build
import GimpleLowering.Proofs.UnitIndex

/-!
# Lowering depends on meanings

The index of a unit is only asked what names mean. Layouts are computed from the definitions of
records, and the rest of the lowering asks for globals and signatures by their names, so indices
with the same meaning make no difference to any function.

## Main results

* `Layout.slotsOf_congr`, `represent_congr`, `finalize_congr` — computations on types
* `Lowering.read_congr`, `lowerStatement_congr` and the lemmas around them — parts of functions
* `Lowering.lowerFunction_congr` — functions
-/

namespace GimpleLowering

open Gimple

variable {x x' : UnitIndex} (h : x.SameMeaning x')

include h

/-! ### Types -/

namespace UnitIndex.SameMeaning

theorem complete_eq : x.complete = x'.complete := by
  unfold complete record?
  rw [h.records]

theorem recordBound_eq : x.recordBound = x'.recordBound := by
  unfold recordBound
  rw [h.records]

theorem checkContained_eq : x.checkContained = x'.checkContained := by
  have hfrom : ∀ fuel, x.checkContainedFrom fuel = x'.checkContainedFrom fuel := fun fuel => by
    induction fuel with
    | zero => rfl
    | succ fuel ih =>
      funext path ty
      simp only [checkContainedFrom, ih, h.complete_eq]
  funext ty
  simp only [checkContained, hfrom, h.recordBound_eq]

end UnitIndex.SameMeaning

namespace Layout

theorem resolve_congr : resolve x = resolve x' := by
  funext ty
  simp only [resolve, completeRecord, h.complete_eq, h.checkContained_eq]

theorem resolveHandle_congr : resolveHandle x = resolveHandle x' := by
  funext ty
  simp only [resolveHandle, completeRecord, h.complete_eq]

theorem representWith_congr (slots : Nat → LayoutM (List Slot)) :
    representWith x slots = representWith x' slots := by
  funext ty
  induction ty using representWith.induct with
  | _ => simp only [representWith, indirection, resolve_congr h, resolveHandle_congr h, *]

theorem layOut_congr (fuel : Nat) : layOut x fuel = layOut x' fuel := by
  induction fuel with
  | zero => rfl
  | succ fuel ih =>
    funext active id
    simp only [layOut, layOutWith, checkDefined, ih, representWith_congr h, h.checkContained_eq]

theorem fuelBound_congr : fuelBound x = fuelBound x' := by
  funext r
  simp only [fuelBound, h.recordBound_eq]

theorem slotsOf_congr : slotsOf x = slotsOf x' := by
  funext id
  simp only [slotsOf, layOut_congr h, fuelBound_congr h]

theorem slotOf_congr : slotOf x = slotOf x' := by
  funext id name
  simp only [slotOf, slotsOf_congr h]

theorem represent_congr : represent x = represent x' := by
  funext ty
  simp only [represent, representWith_congr h, slotsOf_congr h]

theorem finalize_congr : finalize x = finalize x' := by
  have hfrom : ∀ fuel id, finalizeFrom x fuel id = finalizeFrom x' fuel id := fun fuel => by
    induction fuel with
    | zero => exact fun _ => rfl
    | succ fuel ih =>
      intro id
      simp only [finalizeFrom, ih, slotsOf_congr h]
  simp only [finalize, hfrom, fuelBound_congr h]

end Layout

namespace Lowering

open Layout

/-! ### Operands -/

/-- The surroundings with another index. -/
def Context.withIndex (cx : Context) (x : UnitIndex) : Context := { cx with index := x }

omit h in
@[simp] theorem Context.index_withIndex (cx : Context) : (cx.withIndex x).index = x := rfl

theorem create_congr : create x = create x' := by
  funext line name ty usage
  simp only [create, represent_congr h]

theorem declare_congr : declare x = declare x' := by
  funext function line name ty usage
  simp only [declare, create_congr h]

variable (cx : Context)

theorem valueType_congr : valueType (cx.withIndex x) = valueType (cx.withIndex x') := by
  funext ty
  simp only [valueType, Layout.valueType, Context.index_withIndex, represent_congr h]

theorem declareGlobal_congr :
    declareGlobal (cx.withIndex x) = declareGlobal (cx.withIndex x') := by
  funext name
  simp only [declareGlobal, Context.index_withIndex, declare_congr h, UnitIndex.global?, h.globals]
  rfl

theorem lookup_congr : lookup (cx.withIndex x) = lookup (cx.withIndex x') := by
  funext name e
  simp only [lookup, declareGlobal_congr h]

theorem slotFor_congr : slotFor (cx.withIndex x) = slotFor (cx.withIndex x') := by
  funext struct member e
  simp only [slotFor, Context.index_withIndex, slotOf_congr h]

theorem fieldThrough_congr : fieldThrough (cx.withIndex x) = fieldThrough (cx.withIndex x') := by
  funext pointer readPointer member e
  simp only [fieldThrough, Context.index_withIndex, slotFor_congr h, resolveHandle_congr h]

theorem destructure_congr : destructure (cx.withIndex x) = destructure (cx.withIndex x') := by
  funext base readBase member e
  simp only [destructure, Context.index_withIndex, slotFor_congr h, resolve_congr h,
    slotsOf_congr h]
  rfl

theorem construct_congr : construct (cx.withIndex x) = construct (cx.withIndex x') := by
  funext base parts
  simp only [construct, Context.index_withIndex, resolve_congr h]
  rfl

theorem read_congr : read (cx.withIndex x) = read (cx.withIndex x') := by
  funext e
  induction e using read.induct with
  | case1 ty value => cases ty <;> simp only [read, readInteger, valueType_congr h] <;> rfl
  | _ =>
    simp only [read, readReal, fieldThrough_congr h, destructure_congr h, valueType_congr h,
      lookup_congr h, *]
    <;> rfl

theorem write_congr : write (cx.withIndex x) = write (cx.withIndex x') := by
  funext e value
  induction e, value using write.induct with
  | _ =>
    simp only [write, read_congr h, construct_congr h, fieldThrough_congr h, destructure_congr h,
      lookup_congr h, *]
    <;> rfl

theorem destination_congr : destination (cx.withIndex x) = destination (cx.withIndex x') := by
  funext e
  cases e <;> simp only [destination, lookup_congr h]

/-! ### Statements -/

theorem lowerAssign_congr : lowerAssign (cx.withIndex x) = lowerAssign (cx.withIndex x') := by
  funext op lhs operands
  simp only [lowerAssign, lowerOperation, valueType_congr h, read_congr h, write_congr h,
    destination_congr h]
  rfl

/-- A callee is looked up by its name. -/
theorem lowerCall_congr : lowerCall (cx.withIndex x) = lowerCall (cx.withIndex x') := by
  funext function arguments lhs
  simp only [lowerCall, Context.index_withIndex, h.function?, valueType_congr h, read_congr h,
    write_congr h, destination_congr h]
  rfl

theorem lowerStatement_congr :
    lowerStatement (cx.withIndex x) = lowerStatement (cx.withIndex x') := by
  have harms : caseArms (cx.withIndex x) = caseArms (cx.withIndex x') := by
    funext selector typ arms
    induction arms with
    | nil => rfl
    | cons arm rest ih =>
      simp only [caseArms, ih]
      rfl
  funext s
  cases s with
  | assign => simp only [lowerStatement, lowerAssign_congr h]
  | call => simp only [lowerStatement, lowerCall_congr h]
  | conditional =>
    simp only [lowerStatement, lowerConditional, valueType_congr h, read_congr h]
    rfl
  | ret =>
    simp only [lowerStatement, lowerReturn, read_congr h]
    rfl
  | goto => rfl
  | switch =>
    simp only [lowerStatement, lowerSwitch, valueType_congr h, read_congr h, harms]
    rfl

/-! ### Functions -/

theorem lowerStatements_congr (block : Nat) :
    lowerStatements (cx.withIndex x) block = lowerStatements (cx.withIndex x') block := by
  funext position ss
  induction ss generalizing position with
  | nil => rfl
  | cons s rest ih =>
    have hline := congrFun (lowerStatement_congr h { cx with line := s.line }) s
    simp only [Context.withIndex] at hline ih ⊢
    simp only [lowerStatements, ih, hline]
    rfl

theorem lowerBlock_congr : lowerBlock (cx.withIndex x) = lowerBlock (cx.withIndex x') := by
  funext index
  simp only [lowerBlock, lowerStatements_congr h]
  rfl

theorem lowerPending_congr (fuel : Nat) :
    lowerPending (cx.withIndex x) fuel = lowerPending (cx.withIndex x') fuel := by
  induction fuel with
  | zero => rfl
  | succ fuel ih => simp only [lowerPending, lowerBlock_congr h, ih]

theorem lowerAll_congr (ps : Polyfills) (f : Function) : lowerAll x ps f = lowerAll x' ps f := by
  have hpending : ∀ slot fuel, lowerPending ⟨x, ps, f, slot, none⟩ fuel =
      lowerPending ⟨x', ps, f, slot, none⟩ fuel := fun slot =>
    lowerPending_congr h ⟨x, ps, f, slot, none⟩
  -- The surroundings are a result of the preparation, so its steps have to be seen in one sequence.
  simp only [lowerAll, prepare, declareVariables, declare_congr h, create_congr h,
    Build.mapError_bind, Build.mapError_pure, bind_assoc, pure_bind, hpending]
  rfl

/-- A function is lowered in the same way with indices of the same meaning. -/
theorem lowerFunction_congr (ps : Polyfills) (source : String) (f : Function) :
    lowerFunction x ps source f = lowerFunction x' ps source f := by
  simp only [lowerFunction, lowerAll_congr h]

end Lowering

end GimpleLowering

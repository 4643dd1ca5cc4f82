import GimpleLowering.Proofs.Flo.Text.Object
import GimpleLowering.Proofs.Lowering.ControlFlow

/-!
# Constants in emitted code

An object assigns a constant for each constant operand, for the labels of a switch, and for the
last condition of a branch. So whether an object assigns any can be read off the statements that
control can get to.

## Main definitions

* `Gimple.Expr.hasConstant`, `Gimple.Statement.takesConstant` — constants in the source
* `Gimple.Function.TakesConstant` — a constant where control can get to

## Main results

* `Lowering.Reads.any_assignsConstant` and others — constants in the code are those of the source
* `Lowering.IsFunction.assignsConstant_iff` — so are those in an object
-/

namespace GimpleLowering

open Gimple Layout

/-! ### The source -/

/-- A part of the operand is a constant. -/
def Gimple.Expr.hasConstant : Expr → Bool
  | .integer _ _ | .real _ _ => true
  | .named _ _ => false
  | .component _ value _ => value.hasConstant
  | .deref _ pointer => pointer.hasConstant
  | .element _ array index => array.hasConstant || index.hasConstant
  | .address _ value => value.hasConstant

/-- The statement has a constant operand, or it chooses between blocks: one of the conditions
for that is always true. -/
def Gimple.Statement.takesConstant : Statement → Bool
  | .assign _ lhs operands _ => operands.any Expr.hasConstant || lhs.hasConstant
  | .call _ arguments lhs _ => arguments.any Expr.hasConstant || lhs.any Expr.hasConstant
  | .ret value _ => value.any Expr.hasConstant
  | .conditional .. | .switch .. => true
  | .goto .. => false

/-- Control can get to a statement that takes a constant. -/
def Gimple.Function.TakesConstant (f : Function) : Prop :=
  ∃ label b, f.Reaches label ∧ f.block? label = some b ∧ b.statements.any Statement.takesConstant

namespace Lowering

open Flo.Statement (assignsConstant)

variable {P : Setting} {ps : Polyfills} {x : UnitIndex} {w : State}

/-! ### The code of operands -/

theorem Reads.any_assignsConstant {e : Expr} {n v m : Nat} {code : List Flo.Statement}
    (h : Reads x w e n v code m) : code.any assignsConstant = e.hasConstant := by
  induction h with
  | @constant e c n note isConstant temp noted =>
    have he : e.hasConstant := by cases isConstant <;> rfl
    simp [he, assignsConstant]
  | named le mem agrees => rfl
  | through base isSlot agrees readPointer temp noted ih =>
    simp [ih, assignsConstant, Expr.hasConstant]
  | part direct isSlot agrees readWhole temps noted ih =>
    simp [ih, assignsConstant, Expr.hasConstant]
  | deref base agrees represents readPointer temp noted ih =>
    simp [ih, assignsConstant, Expr.hasConstant]
  | element isArray agrees integral represents readArray readIndex temp noted iha ihi =>
    simp [iha, ihi, assignsConstant, Expr.hasConstant]

theorem Writes.any_assignsConstant {e : Expr} {n v m : Nat} {code : List Flo.Statement}
    (h : Writes x w e n v code m) : code.any assignsConstant = e.hasConstant := by
  induction h with
  | named le mem agrees noted => rfl
  | through base isSlot agrees readPointer noted =>
    simp [readPointer.any_assignsConstant, assignsConstant, Expr.hasConstant]
  | part direct isSlot agrees readWhole temps temp writeBase noted noted' ih =>
    simp [readWhole.any_assignsConstant, ih, assignsConstant, Expr.hasConstant]
  | deref base agrees readPointer noted =>
    simp [readPointer.any_assignsConstant, assignsConstant, Expr.hasConstant]
  | element isArray agrees integral readArray readIndex noted =>
    simp [readArray.any_assignsConstant, readIndex.any_assignsConstant, assignsConstant,
      Expr.hasConstant]

theorem ReadsAll.any_assignsConstant {es : List Expr} {n m : Nat} {vs : List Nat}
    {code : List Flo.Statement} (h : ReadsAll x w es n vs code m) :
    code.any assignsConstant = es.any Expr.hasConstant := by
  induction h with
  | nil n => rfl
  | cons read rest ih => simp [read.any_assignsConstant, ih]

/-! ### The code of statements -/

theorem Performs.any_assignsConstant {stmt : Statement} {n m : Nat} {code : List Flo.Statement}
    (h : Performs P ps w stmt n code m) : code.any assignsConstant = stmt.takesConstant := by
  cases h with
  | copy isCopy noNull agrees read write =>
    simp [read.any_assignsConstant, write.any_assignsConstant, Statement.takesConstant]
  | operateTo noCopy arity noNull checked operandTypes resultType isRoutine reads le mem agrees
      noted =>
    simp [reads.any_assignsConstant, assignsConstant, Statement.takesConstant, Expr.hasConstant]
  | operate noCopy arity unnamed noNull checked operandTypes resultType isRoutine reads temp write
      noted =>
    simp [reads.any_assignsConstant, write.any_assignsConstant, assignsConstant,
      Statement.takesConstant]
  | callTo isCallee passed returns stored reads le mem agrees noted =>
    simp [reads.any_assignsConstant, assignsConstant, Statement.takesConstant, Expr.hasConstant]
  | callStore isCallee passed returns stored unnamed reads resultType temp write noted =>
    simp [reads.any_assignsConstant, write.any_assignsConstant, assignsConstant,
      Statement.takesConstant]
  | callDiscard isCallee passed returns reads resultType temp noted =>
    simp [reads.any_assignsConstant, assignsConstant, Statement.takesConstant]
  | callVoid isCallee passed returns reads noted =>
    simp [reads.any_assignsConstant, assignsConstant, Statement.takesConstant]

theorem Leaves.any_assignsConstant {stmt : Statement} {n m : Nat} {code : List Flo.Statement}
    {exit : Flo.BlockExit} (h : Leaves P ps w stmt n code exit m) :
    code.any assignsConstant = stmt.takesConstant := by
  cases h with
  | goto | retVoid => rfl
  | conditional | switch => simp [assignsConstant, Statement.takesConstant]
  | ret isResult isSlot noNull agrees read noted =>
    simp [read.any_assignsConstant, assignsConstant, Statement.takesConstant]

theorem LowersAll.any_assignsConstant {stmts : List Statement} {n m : Nat}
    {codes : List (List Flo.Statement)} {exit : Option Flo.BlockExit}
    (h : LowersAll P ps w stmts n codes exit m) :
    codes.flatten.any assignsConstant = stmts.any Statement.takesConstant := by
  induction h with
  | nil n => rfl
  | leave leaves => simp [← leaves.any_assignsConstant]
  | perform performs others ih =>
    rw [List.flatten_cons, List.any_append, ih, performs.any_assignsConstant, List.any_cons]

/-! ### Objects -/

/-- An object assigns a constant exactly if its function takes one. -/
theorem IsFunction.assignsConstant_iff {parameters locals : List Var} {entry : Nat}
    {signature : Flo.Signature} (h : IsFunction P ps w parameters locals entry signature) :
    w.statements.any assignsConstant ↔ P.function.TakesConstant := by
  constructor
  · intro hany
    obtain ⟨s, hs, hconstant⟩ := List.any_eq_true.1 hany
    obtain ⟨id, hid, rfl⟩ := List.getElem_of_mem hs
    have hpos : 0 < id := by
      obtain ⟨rest, hnull, -⟩ := h.inv.kept.statements
      refine Nat.pos_of_ne_zero ?_
      rintro rfl
      simp [State.statements, hnull, Flo.Entry.poisoned, assignsConstant] at hconstant
    obtain ⟨p, hp, row, block, codes, hblock, s, hcode, hrow⟩ := h.mem_codes hpos hid
    rw [List.getElem?_eq_getElem hid] at hrow
    obtain ⟨n, exit, m, hlowers, -⟩ := hblock.lowers
    refine ⟨p.1, block, h.reached p hp, hblock.isBlock, ?_⟩
    rw [← hlowers.any_assignsConstant]
    exact List.any_eq_true.2 ⟨s, hcode, Option.some.inj hrow ▸ hconstant⟩
  · rintro ⟨label, block, hreaches, hb, hany⟩
    have hne : label ≠ exitIndex := by
      rintro rfl
      rw [h.block?_exit] at hb
      cases hb
    obtain ⟨id, hid⟩ := h.reaches_iff.1 hreaches
    obtain ⟨row, block', codes, hblock, -⟩ := h.block _ (State.mem_of_target? hid hne)
    obtain rfl := Option.some.inj (hb.symm.trans hblock.isBlock)
    obtain ⟨n, exit, m, hlowers, -⟩ := hblock.lowers
    rw [← hlowers.any_assignsConstant] at hany
    obtain ⟨s, hs, hconstant⟩ := List.any_eq_true.1 hany
    obtain ⟨i, -, hi⟩ := hblock.exists_id hs
    exact List.any_eq_true.2 ⟨s, List.mem_of_getElem? hi, hconstant⟩

end Lowering

end GimpleLowering

import GimpleLowering.Proofs.Flo.Panics
import GimpleLowering.Proofs.Lowering.ControlFlow
import GimpleLowering.Proofs.Lowering.Typing

/-!
# Accesses in emitted code

An object loads and stores through the variables that operands were read into. What an operand is
declared as decides the type of that variable, and so whether it is a handle that can be null:
there is no type of the source that agrees with both a pointer and a reference. Where no operand
can panic, all accesses go through references, and none of them has an index.

The source has no constant that a reference could be null by. So no constant in the code is one
either.

## Main definitions

* `Gimple.Function.MayPanic` — control can get to a block that can panic

## Main results

* `Lowering.Reads.hasHandle` — a pointer or reference is read into a handle
* `Lowering.IsFunction.canPanic_iff` — the flag in the signature of a function is about its own code
* `Lowering.IsFunction.heeds` — without the flag, the object does not panic by itself
-/

namespace GimpleLowering

open Gimple Layout

/-! ### The source -/

/-- Control can get to a block of the function that can panic. -/
def Gimple.Function.MayPanic (f : Function) : Prop := ∃ label, f.Reaches label ∧ f.mayPanicAt label

/-! ### Handles -/

/-- Types that agree are both pointers, or both references, or neither of the two. -/
theorem Gimple.Ty.indirectBase_of_agrees {a b base : Ty} (h : a.agrees b)
    (hb : a.indirectBase = some base) :
    (∃ base', b.indirectBase = some base') ∧ b.isNullable = a.isNullable := by
  cases a <;> cases b <;> simp_all [Ty.agrees, Ty.indirectBase, Ty.isNullable]

/-- The runtime has handles for pointers and references, and only pointers can be null. -/
theorem Layout.Represents.valueType_of_indirectBase {x : UnitIndex} {r : Registry} {ty base : Ty}
    {rep : Representation} (h : Represents x r ty rep) (hb : ty.indirectBase = some base) :
    ∃ typ, rep.valueType = .handle typ ty.isNullable := by
  cases h with
  | recordHandle => exact ⟨_, rfl⟩
  | cell => exact ⟨_, rfl⟩
  | record isRecord => cases ty <;> simp [Ty.isRecord, Ty.indirectBase] at isRecord hb
  | _ => simp [Ty.indirectBase] at hb

/-- So are those for types that agree with them. -/
theorem Layout.Represents.valueType_of_agrees {x : UnitIndex} {r : Registry} {a b base : Ty}
    {rep : Representation} (h : Represents x r b rep) (hab : a.agrees b)
    (hb : a.indirectBase = some base) : ∃ typ, rep.valueType = .handle typ a.isNullable := by
  obtain ⟨⟨base', hb'⟩, hnull⟩ := Ty.indirectBase_of_agrees hab hb
  exact hnull ▸ h.valueType_of_indirectBase hb'

namespace Lowering

variable {P : Setting} {ps : Polyfills} {x : UnitIndex} {w : State} {r : Registry} {o : Flo.Object}

/-- A number is no handle. -/
theorem typ_ne_of_integerConstant {typ : Flo.Ty} {i : Int} {c : Flo.Constant}
    (h : integerConstant typ i = .ok c) (typ' : Flo.Ty) : c.typ ≠ .handle typ' false := by
  intro heq
  have hint := isInteger_of_integerConstant h
  rw [heq] at hint
  cases hint

/-- No constant is a null reference. -/
theorem IsConstant.typ_ne {e : Expr} {c : Flo.Constant} (h : IsConstant x w e c) (typ : Flo.Ty) :
    c.typ ≠ .handle typ false := by
  cases h with
  | integer represents constant => exact typ_ne_of_integerConstant constant typ
  | truth | rounded | real => exact nofun
  | null represents =>
    obtain ⟨typ', htyp⟩ := represents.valueType_of_indirectBase rfl
    intro heq
    cases htyp.symm.trans heq

variable (h : Finishes P w r o)

include h

/-- A pointer or reference is read into a handle, which can be null only if it is a pointer. -/
theorem Reads.hasHandle {e : Expr} {n v m : Nat} {code : List Flo.Statement}
    (hr : Reads P.index w e n v code m) {base : Ty} (hb : e.ty.indirectBase = some base) :
    ∃ typ, o.HasType v (.handle typ e.ty.isNullable) := by
  cases hr with
  | constant isConstant temp noted =>
    cases isConstant with
    | integer | truth | rounded => cases hb
    | null represents =>
      obtain ⟨typ, htyp⟩ := represents.valueType_of_indirectBase hb
      exact ⟨typ, htyp ▸ h.hasType_of_temp temp⟩
    | real represents isDouble =>
      obtain ⟨typ, htyp⟩ := represents.valueType_of_indirectBase hb
      cases isDouble.symm.trans htyp
  | named le mem agrees =>
    have hholds := h.inv.holds _ mem
    obtain ⟨row, hrow, hrowtyp, -⟩ := hholds.row
    obtain ⟨typ, htyp⟩ := hholds.represents.valueType_of_agrees agrees hb
    exact ⟨typ, row, (h.vars_get _).trans hrow, hrowtyp.trans htyp⟩
  | through base isSlot agrees readPointer temp noted =>
    obtain ⟨-, -, rep, hrep, hslot⟩ := isSlot.laidOut.of_mem isSlot.mem
    obtain ⟨typ, htyp⟩ := hrep.valueType_of_agrees agrees hb
    exact ⟨typ, hslot.trans htyp ▸ h.hasType_of_temp temp⟩
  | part direct isSlot agrees readWhole temps noted =>
    obtain ⟨hat, -, rep, hrep, hslot⟩ := isSlot.laidOut.of_mem isSlot.mem
    obtain ⟨typ, htyp⟩ := hrep.valueType_of_agrees agrees hb
    exact ⟨typ, hslot.trans htyp ▸ h.hasType_of_temp (temps hat)⟩
  | deref base agrees represents readPointer temp noted =>
    obtain ⟨typ, htyp⟩ := represents.valueType_of_indirectBase hb
    exact ⟨typ, htyp ▸ h.hasType_of_temp temp⟩
  | element isArray agrees integral represents readArray readIndex temp noted =>
    obtain ⟨typ, htyp⟩ := represents.valueType_of_indirectBase hb
    exact ⟨typ, htyp ▸ h.hasType_of_temp temp⟩

/-! ### The code of operands -/

/-- A load or a store through a pointer or a reference, which may be null in the first case. -/
theorem Reads.guarded_access {pointer : Expr} {n v m : Nat} {code : List Flo.Statement}
    (hr : Reads P.index w pointer n v code m) {base : Ty}
    (hb : pointer.ty.indirectBase = some base) {s : Flo.Statement} {member : Flo.Member}
    (hs : s.constant? = none) (ha : s.accessed? = some (v, member))
    (hm : ∀ index, member ≠ .element index) : o.Guarded pointer.ty.isNullable s := by
  obtain ⟨typ, hv⟩ := hr.hasHandle h hb
  exact .of_handle hs ha hv hm

/-- Reading an operand is guarded if the operand cannot panic. -/
theorem Reads.guarded {e : Expr} {n v m : Nat} {code : List Flo.Statement}
    (hr : Reads P.index w e n v code m) : ∀ s ∈ code, o.Guarded e.mayPanic s := by
  induction hr with
  | constant isConstant temp noted =>
    exact List.forall_mem_singleton.2 (.assignConst isConstant.typ_ne _)
  | named le mem agrees => simp
  | through base isSlot agrees readPointer temp noted ih =>
    refine List.forall_mem_append.2 ⟨fun s hs => (ih s hs).mono fun hp => ?_,
      List.forall_mem_singleton.2 ?_⟩
    · simp [Expr.mayPanic, hp]
    · refine .mono (readPointer.guarded_access h base rfl rfl fun _ => nofun) fun hn => ?_
      simp [Expr.mayPanic, hn]
  | part direct isSlot agrees readWhole temps noted ih =>
    exact List.forall_mem_append.2 ⟨ih, List.forall_mem_singleton.2 (.of_none rfl rfl)⟩
  | deref base agrees represents readPointer temp noted ih =>
    refine List.forall_mem_append.2 ⟨fun s hs => (ih s hs).mono fun hp => ?_,
      List.forall_mem_singleton.2 ?_⟩
    · simp [Expr.mayPanic, hp]
    · refine .mono (readPointer.guarded_access h base rfl rfl fun _ => nofun) fun hn => ?_
      simp [Expr.mayPanic, hn]
  | element isArray agrees integral represents readArray readIndex temp noted iha ihi =>
    exact List.forall_mem_append.2 ⟨List.forall_mem_append.2
      ⟨fun s hs => (iha s hs).mono fun _ => rfl, fun s hs => (ihi s hs).mono fun _ => rfl⟩,
      List.forall_mem_singleton.2 (.of_true rfl)⟩

/-- Writing to an operand is guarded if the operand cannot panic. -/
theorem Writes.guarded {e : Expr} {n v m : Nat} {code : List Flo.Statement}
    (hw : Writes P.index w e n v code m) : ∀ s ∈ code, o.Guarded e.mayPanic s := by
  induction hw with
  | named le mem agrees noted => exact List.forall_mem_singleton.2 (.of_none rfl rfl)
  | through base isSlot agrees readPointer noted =>
    refine List.forall_mem_append.2 ⟨fun s hs => (readPointer.guarded h s hs).mono fun hp => ?_,
      List.forall_mem_singleton.2 ?_⟩
    · simp [Expr.mayPanic, hp]
    · refine .mono (readPointer.guarded_access h base rfl rfl fun _ => nofun) fun hn => ?_
      simp [Expr.mayPanic, hn]
  | part direct isSlot agrees readWhole temps temp writeBase noted noted' ih =>
    refine List.forall_mem_append.2 ⟨List.forall_mem_append.2 ⟨readWhole.guarded h, ?_⟩, ih⟩
    exact List.forall_mem_cons.2 ⟨.of_none rfl rfl, List.forall_mem_singleton.2 (.of_none rfl rfl)⟩
  | deref base agrees readPointer noted =>
    refine List.forall_mem_append.2 ⟨fun s hs => (readPointer.guarded h s hs).mono fun hp => ?_,
      List.forall_mem_singleton.2 ?_⟩
    · simp [Expr.mayPanic, hp]
    · refine .mono (readPointer.guarded_access h base rfl rfl fun _ => nofun) fun hn => ?_
      simp [Expr.mayPanic, hn]
  | element isArray agrees integral readArray readIndex noted =>
    exact List.forall_mem_append.2 ⟨List.forall_mem_append.2
      ⟨fun s hs => (readArray.guarded h s hs).mono fun _ => rfl,
        fun s hs => (readIndex.guarded h s hs).mono fun _ => rfl⟩,
      List.forall_mem_singleton.2 (.of_true rfl)⟩

theorem ReadsAll.guarded {es : List Expr} {n m : Nat} {vs : List Nat} {code : List Flo.Statement}
    (hr : ReadsAll P.index w es n vs code m) :
    ∀ s ∈ code, o.Guarded (es.any Expr.mayPanic) s := by
  induction hr with
  | nil n => simp
  | cons read rest ih =>
    refine List.forall_mem_append.2 ⟨fun s hs => (read.guarded h s hs).mono fun hp => ?_,
      fun s hs => (ih s hs).mono fun hp => ?_⟩
    · simp [hp]
    · rw [List.any_cons, hp, Bool.or_true]

/-! ### The code of statements -/

theorem Performs.guarded {stmt : Statement} {n m : Nat} {code : List Flo.Statement}
    (hp : Performs P ps w stmt n code m) : ∀ s ∈ code, o.Guarded stmt.mayPanic s := by
  have hcall : ∀ {block : Flo.BlockRef} {input outputs : List Nat} {note : Flo.Note},
      ∀ s ∈ [Flo.Statement.call block input outputs note], o.Guarded stmt.mayPanic s :=
    List.forall_mem_singleton.2 (.of_none rfl rfl)
  cases hp with
  | copy isCopy noNull agrees read write =>
    refine List.forall_mem_append.2 ⟨fun s hs => (read.guarded h s hs).mono fun hp => ?_,
      fun s hs => (write.guarded h s hs).mono fun hp => ?_⟩ <;> simp [Statement.mayPanic, hp]
  | operateTo noCopy arity noNull checked operandTypes resultType isRoutine reads le mem agrees
      noted =>
    refine List.forall_mem_append.2 ⟨fun s hs => (reads.guarded h s hs).mono fun hp => ?_, hcall⟩
    simp only [Statement.mayPanic, hp, Bool.true_or]
  | operate noCopy arity unnamed noNull checked operandTypes resultType isRoutine reads temp write
      noted =>
    refine List.forall_mem_append.2 ⟨List.forall_mem_append.2
      ⟨fun s hs => (reads.guarded h s hs).mono fun hp => ?_, hcall⟩,
      fun s hs => (write.guarded h s hs).mono fun hp => ?_⟩
    · simp only [Statement.mayPanic, hp, Bool.true_or]
    · simp only [Statement.mayPanic, hp, Bool.or_true]
  | callTo isCallee passed returns stored reads le mem agrees noted =>
    refine List.forall_mem_append.2 ⟨fun s hs => (reads.guarded h s hs).mono fun hp => ?_, hcall⟩
    simp only [Statement.mayPanic, hp, Bool.true_or]
  | callStore isCallee passed returns stored unnamed reads resultType temp write noted =>
    refine List.forall_mem_append.2 ⟨List.forall_mem_append.2
      ⟨fun s hs => (reads.guarded h s hs).mono fun hp => ?_, hcall⟩,
      fun s hs => (write.guarded h s hs).mono fun hp => ?_⟩
    · simp only [Statement.mayPanic, hp, Bool.true_or]
    · simp only [Statement.mayPanic, Option.any_some, hp, Bool.or_true]
  | callDiscard isCallee passed returns reads resultType temp noted =>
    refine List.forall_mem_append.2 ⟨fun s hs => (reads.guarded h s hs).mono fun hp => ?_, hcall⟩
    simp only [Statement.mayPanic, hp, Bool.true_or]
  | callVoid isCallee passed returns reads noted =>
    refine List.forall_mem_append.2 ⟨fun s hs => (reads.guarded h s hs).mono fun hp => ?_, hcall⟩
    simp only [Statement.mayPanic, hp, Bool.true_or]

omit h in
/-- Labels are numbers, and they are compared by routines. -/
theorem Compares.guarded {selector : Nat} {typ : Flo.Ty} {c : Case} {n v m : Nat}
    {code : List Flo.Statement} {b : Bool} (hc : Compares ps w selector typ c n v code m) :
    ∀ s ∈ code, o.Guarded b s := by
  cases hc with
  | single isSingle isLow isEq temp result noted noted' =>
    simp only [List.mem_cons, List.not_mem_nil, or_false, forall_eq_or_imp, forall_eq]
    exact ⟨.assignConst (typ_ne_of_integerConstant isLow) _, .of_none rfl rfl⟩
  | range isRange isLow isHigh isGe isLe isAnd lowTemp highTemp above below both noted =>
    simp only [List.mem_cons, List.not_mem_nil, or_false, forall_eq_or_imp, forall_eq]
    exact ⟨.assignConst (typ_ne_of_integerConstant isLow) _,
      .assignConst (typ_ne_of_integerConstant isHigh) _, .of_none rfl rfl, .of_none rfl rfl,
      .of_none rfl rfl⟩

omit h in
theorem Arms.guarded {selector : Nat} {typ : Flo.Ty} {cases : List (Case × Nat)} {n m : Nat}
    {code : List Flo.Statement} {arms : List Nat} {b : Bool}
    (ha : Arms ps w selector typ cases n code arms m) : ∀ s ∈ code, o.Guarded b s := by
  induction ha with
  | nil n => simp
  | cons compare isArm rest ih => exact List.forall_mem_append.2 ⟨compare.guarded, ih⟩

theorem Leaves.guarded {stmt : Statement} {n m : Nat} {code : List Flo.Statement}
    {exit : Flo.BlockExit} (hl : Leaves P ps w stmt n code exit m) :
    ∀ s ∈ code, o.Guarded stmt.mayPanic s := by
  have htruth : ∀ {target : Nat} {note : Flo.Note},
      o.Guarded stmt.mayPanic (.assignConst target (.ofBool true) note) :=
    .assignConst (fun _ => Flo.Ty.noConfusion) _
  cases hl with
  | goto | retVoid => simp
  | conditional isComparison agrees operandType isTrue isFalse isRoutine readLeft readRight
      condition otherwise isFirst isSecond =>
    refine List.forall_mem_append.2 ⟨List.forall_mem_append.2
      ⟨fun s hs => (readLeft.guarded h s hs).mono fun hp => ?_,
        fun s hs => (readRight.guarded h s hs).mono fun hp => ?_⟩,
      List.forall_mem_cons.2 ⟨.of_none rfl rfl, List.forall_mem_singleton.2 htruth⟩⟩ <;>
      simp [Statement.mayPanic, hp]
  | switch integral selectorType valid areTargets isDefault read areArms otherwise isLast =>
    exact List.forall_mem_append.2 ⟨List.forall_mem_append.2 ⟨read.guarded h, areArms.guarded⟩,
      List.forall_mem_singleton.2 htruth⟩
  | ret isResult isSlot noNull agrees read noted =>
    exact List.forall_mem_append.2 ⟨fun s hs => (read.guarded h s hs).mono id,
      List.forall_mem_singleton.2 (.of_none rfl rfl)⟩

theorem LowersAll.guarded {stmts : List Statement} {n m : Nat}
    {codes : List (List Flo.Statement)} {exit : Option Flo.BlockExit}
    (hl : LowersAll P ps w stmts n codes exit m) :
    ∀ s ∈ codes.flatten, o.Guarded (stmts.any Statement.mayPanic) s := by
  induction hl with
  | nil n => simp
  | leave leaves =>
    simpa using leaves.guarded h
  | perform performs others ih =>
    rw [List.flatten_cons]
    refine List.forall_mem_append.2 ⟨fun s hs => (performs.guarded h s hs).mono fun hp => ?_,
      fun s hs => (ih s hs).mono fun hp => ?_⟩
    · simp [hp]
    · rw [List.any_cons, hp, Bool.or_true]

/-! ### Objects -/

omit h in
/-- A block that can panic has a statement that can, or control leaves the function there. -/
theorem IsBlock.mayPanicAt_eq {index : Nat} {block : Block} {codes : List (List Flo.Statement)}
    {row : Flo.Block} (hb : IsBlock P ps w index block codes row) :
    P.function.mayPanicAt index =
      (block.statements.any Statement.mayPanic || P.function.missesReturn index block) := by
  rw [Function.mayPanicAt, hb.isBlock, Option.any_some]

omit h in
/-- No terminator panics: it is the end of the last block that does. -/
theorem IsBlock.missesReturn {index : Nat} {block : Block} {codes : List (List Flo.Statement)}
    {row : Flo.Block} (hb : IsBlock P ps w index block codes row) {message : String}
    {values : List Nat} (he : row.exit = .panic message values) :
    P.function.missesReturn index block := by
  have hending := hb.ending
  rw [he] at hending
  obtain ⟨hexits, hlast⟩ | ⟨stmt, n, code, m, before, -, hleaves, -⟩ := hending
  · cases hexits with
    | missing after result =>
      have hterm : block.statements.getLast?.any Statement.isTerminator = false := by
        cases hget : block.statements.getLast? with
        | none => rfl
        | some stmt => exact hlast stmt hget
      simp [Function.missesReturn, hterm, after, Option.isSome_iff_ne_none, result]
  · cases hleaves

section

variable {parameters locals : List Var} {entry : Nat} {signature : Flo.Signature}
  (hf : IsFunction P ps w parameters locals entry signature)

include hf

omit h in
/-- The flag is set exactly if control can get to a block of the function that can panic. -/
theorem IsFunction.canPanic_iff : signature.canPanic = true ↔ P.function.MayPanic := by
  rw [hf.panics, List.any_eq_true]
  constructor
  · rintro ⟨p, hp, hpanic⟩
    exact ⟨p.1, hf.reached p hp, hpanic⟩
  · rintro ⟨label, hreaches, hpanic⟩
    have hne : label ≠ exitIndex := by
      rintro rfl
      simp [Function.mayPanicAt, hf.block?_exit] at hpanic
    obtain ⟨id, hid⟩ := hf.reaches_iff.1 hreaches
    exact ⟨(label, id), State.mem_of_target? hid hne, hpanic⟩

omit h in
/-- A block that can panic sets the flag. -/
theorem IsFunction.canPanic_of_mem {p : Nat × Nat} (hp : p ∈ w.blocks)
    (hpanic : P.function.mayPanicAt p.1 = true) : signature.canPanic = true := by
  rw [hf.panics]
  exact List.any_eq_true.2 ⟨p, hp, hpanic⟩

omit h in
/-- Only the null entry has an exit that goes nowhere. -/
theorem IsFunction.has_of_exit {id : Nat} {row : Flo.Block} (hrow : w.rows[id]? = some row)
    (he : row.exit ≠ .unspecified) : w.draft.object.blocks.Has id := by
  refine Flo.Table.has_of_ne hf.inv.planned.null hrow ?_
  rintro rfl
  exact he rfl

/-- Unless the flag is set, the object of a function does not panic by itself. -/
theorem IsFunction.heeds : o.Heeds signature.canPanic := by
  constructor
  · intro id s hs
    rw [h.object, Flo.Table.get?_eq_rows] at hs
    rcases Nat.eq_zero_or_pos id with rfl | hpos
    · obtain ⟨rest, hnull, -⟩ := hf.inv.kept.statements
      rw [hnull] at hs
      exact Option.some.inj hs ▸ .of_none rfl rfl
    · obtain ⟨p, hp, row, block, codes, hb, s', hmem, hs'⟩ :=
        hf.mem_codes hpos (List.getElem?_eq_some_iff.1 hs).1
      obtain rfl := Option.some.inj (hs.symm.trans hs')
      obtain ⟨n, exit, m, hlowers, -⟩ := hb.lowers
      refine (hlowers.guarded h s hmem).mono fun hany => hf.canPanic_of_mem hp ?_
      rw [hb.mayPanicAt_eq, hany, Bool.true_or]
  · intro id row message values hrow he
    rw [h.object, Flo.Table.get?_eq_rows] at hrow
    obtain ⟨label, hlabel⟩ :=
      hf.inv.planned.has_iff.1 (hf.has_of_exit hrow (by rw [he]; exact nofun))
    by_cases hl : label = exitIndex
    · rw [State.target?, if_pos hl] at hlabel
      obtain rfl := Option.some.inj (hrow.symm.trans (hf.inv.planned.exitRow id hlabel))
      cases he
    · have hp := State.mem_of_target? hlabel hl
      obtain ⟨row', block, codes, hb, hrow'⟩ := hf.block _ hp
      obtain rfl := Option.some.inj (hrow.symm.trans hrow')
      refine hf.canPanic_of_mem hp ?_
      rw [hb.mayPanicAt_eq, hb.missesReturn he, Bool.or_true]

end

end Lowering

end GimpleLowering

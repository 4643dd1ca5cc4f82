import GimpleLowering.Proofs.Flo.Paths
import GimpleLowering.Proofs.Lowering.ControlFlow
import GimpleLowering.Proofs.Lowering.Simulation

/-!
# Results

The result of a function is in a variable of its own, which no operand can name. A return of the
source writes that variable at the end of its block, and all other code writes temporaries and
variables in scope. So on a path through the blocks of an object, the result is set by the last
block or not at all.

It is not set if the last block is the one for the label of the exit, which returns the variable as
well. Control that leaves a function at the end of its last block panics instead, and a return
without a value is refused; a branch to the label of the exit is the one way in which a function
returns a result that nothing has set.

## Main definitions

* `Lowering.WritesOrdinary` — code that does not write the result
* `Lowering.EndsWithResult` — code that writes it at its end
* `Lowering.Results` — where the result of a function comes from

## Main results

* `Lowering.IsFunction.writes_iff` — the blocks that write the result
* `Lowering.lowerFunction_results` — where the results of all functions come from
-/

namespace GimpleLowering.Lowering

open Gimple Layout

variable {P : Setting} {ps : Polyfills} {x : UnitIndex} {w : State}

/-! ### Written variables -/

/-- The variable is a temporary, or it is in scope. -/
def Ordinary (w : State) (v : Nat) : Prop := IsTemp w v ∨ ∃ u ∈ w.scope, u.id = v

/-- The code writes only temporaries and variables in scope. -/
def WritesOrdinary (w : State) (code : List Flo.Statement) : Prop :=
  ∀ s ∈ code, ∀ v ∈ s.outputs, Ordinary w v

theorem Temp.ordinary {v : Nat} {typ : Flo.Ty} (h : Temp w v typ) : Ordinary w v := .inl h.isTemp

theorem AreTemps.ordinary {first : Nat} {slots : List Slot} (h : AreTemps w first slots) :
    ∀ v ∈ List.range' first slots.length, Ordinary w v := by
  intro v hv
  obtain ⟨i, hi, rfl⟩ := List.mem_range'.1 hv
  rw [Nat.one_mul]
  exact (h (List.getElem?_eq_getElem hi)).ordinary

namespace WritesOrdinary

variable {code code' : List Flo.Statement}

theorem nil : WritesOrdinary w [] := nofun

theorem append (h : WritesOrdinary w code) (h' : WritesOrdinary w code') :
    WritesOrdinary w (code ++ code') :=
  List.forall_mem_append.2 ⟨h, h'⟩

theorem cons {s : Flo.Statement} (h : WritesOrdinary w code)
    (hs : ∀ v ∈ s.outputs, Ordinary w v) : WritesOrdinary w (s :: code) :=
  List.forall_mem_cons.2 ⟨hs, h⟩

/-- A statement that writes one variable. -/
theorem cons_one {s : Flo.Statement} {v : Nat} (h : WritesOrdinary w code)
    (hs : s.outputs = [v]) (hv : Ordinary w v) : WritesOrdinary w (s :: code) :=
  h.cons (by simpa [hs] using hv)

theorem single {s : Flo.Statement} {v : Nat} (hs : s.outputs = [v]) (hv : Ordinary w v) :
    WritesOrdinary w [s] :=
  nil.cons_one hs hv

end WritesOrdinary

theorem Reads.writesOrdinary {e : Expr} {n v m : Nat} {code : List Flo.Statement}
    (h : Reads x w e n v code m) : WritesOrdinary w code := by
  induction h with
  | constant isConstant temp noted => exact .single rfl temp.ordinary
  | named le mem agrees => exact .nil
  | through base isSlot agrees readPointer temp noted ih =>
    exact ih.append (.single rfl temp.ordinary)
  | part direct isSlot agrees readWhole temps noted ih =>
    exact ih.append (WritesOrdinary.nil.cons temps.ordinary)
  | deref base agrees represents readPointer temp noted ih =>
    exact ih.append (.single rfl temp.ordinary)
  | element isArray agrees integral represents readArray readIndex temp noted iha ihi =>
    exact (iha.append ihi).append (.single rfl temp.ordinary)

theorem Writes.writesOrdinary {e : Expr} {n v m : Nat} {code : List Flo.Statement}
    (h : Writes x w e n v code m) : WritesOrdinary w code := by
  induction h with
  | named le mem agrees noted => exact .single rfl (.inr ⟨_, mem, rfl⟩)
  | through base isSlot agrees readPointer noted =>
    exact readPointer.writesOrdinary.append (WritesOrdinary.nil.cons nofun)
  | part direct isSlot agrees readWhole temps temp writeBase noted noted' ih =>
    refine (readWhole.writesOrdinary.append ?_).append ih
    exact (WritesOrdinary.single rfl temp.ordinary).cons temps.ordinary
  | deref base agrees readPointer noted =>
    exact readPointer.writesOrdinary.append (WritesOrdinary.nil.cons nofun)
  | element isArray agrees integral readArray readIndex noted =>
    have hreads := readArray.writesOrdinary.append readIndex.writesOrdinary
    exact hreads.append (WritesOrdinary.nil.cons nofun)

theorem ReadsAll.writesOrdinary {es : List Expr} {n m : Nat} {vs : List Nat}
    {code : List Flo.Statement} (h : ReadsAll x w es n vs code m) : WritesOrdinary w code := by
  induction h with
  | nil n => exact .nil
  | cons read rest ih => exact read.writesOrdinary.append ih

theorem Performs.writesOrdinary {stmt : Statement} {n m : Nat} {code : List Flo.Statement}
    (h : Performs P ps w stmt n code m) : WritesOrdinary w code := by
  cases h with
  | copy isCopy noNull agrees read write => exact read.writesOrdinary.append write.writesOrdinary
  | operateTo noCopy arity noNull checked operandTypes resultType isRoutine reads le mem agrees
      noted =>
    exact reads.writesOrdinary.append (.single rfl (.inr ⟨_, mem, rfl⟩))
  | operate noCopy arity unnamed noNull checked operandTypes resultType isRoutine reads temp write
      noted =>
    exact (reads.writesOrdinary.append (.single rfl temp.ordinary)).append write.writesOrdinary
  | callTo isCallee passed returns stored reads le mem agrees noted =>
    exact reads.writesOrdinary.append (.single rfl (.inr ⟨_, mem, rfl⟩))
  | callStore isCallee passed returns stored unnamed reads resultType temp write noted =>
    exact (reads.writesOrdinary.append (.single rfl temp.ordinary)).append write.writesOrdinary
  | callDiscard isCallee passed returns reads resultType temp noted =>
    exact reads.writesOrdinary.append (.single rfl temp.ordinary)
  | callVoid isCallee passed returns reads noted =>
    exact reads.writesOrdinary.append (WritesOrdinary.nil.cons nofun)

theorem Compares.writesOrdinary {selector : Nat} {typ : Flo.Ty} {c : Case} {n v m : Nat}
    {code : List Flo.Statement} (h : Compares ps w selector typ c n v code m) :
    WritesOrdinary w code := by
  cases h with
  | single isSingle isLow isEq temp result noted noted' =>
    exact (WritesOrdinary.single rfl result.ordinary).cons_one rfl temp.ordinary
  | range isRange isLow isHigh isGe isLe isAnd lowTemp highTemp above below both noted =>
    refine .cons_one (.cons_one ?_ rfl highTemp.ordinary) rfl lowTemp.ordinary
    refine .cons_one (.cons_one ?_ rfl below.ordinary) rfl above.ordinary
    exact .single rfl both.ordinary

theorem Arms.writesOrdinary {selector : Nat} {typ : Flo.Ty} {cases : List (Case × Nat)} {n m : Nat}
    {code : List Flo.Statement} {arms : List Nat}
    (h : Arms ps w selector typ cases n code arms m) : WritesOrdinary w code := by
  induction h with
  | nil n => exact .nil
  | cons compare isArm rest ih => exact compare.writesOrdinary.append ih

/-- The code writes the result, at its end, and the exit returns it. -/
def EndsWithResult (P : Setting) (w : State) (code : List Flo.Statement) (exit : Flo.BlockExit) :
    Prop :=
  ∃ before slot source note, P.returns = [slot] ∧ exit = .ret [slot] ∧
    code = before ++ [.assign slot source note] ∧ WritesOrdinary w before

/-- A terminator writes the result at the end of its code, or not at all. -/
theorem Leaves.writes {stmt : Statement} {n m : Nat} {code : List Flo.Statement}
    {exit : Flo.BlockExit} (h : Leaves P ps w stmt n code exit m) :
    WritesOrdinary w code ∨ EndsWithResult P w code exit := by
  cases h with
  | goto | retVoid => exact .inl .nil
  | conditional isComparison agrees operandType isTrue isFalse isRoutine readLeft readRight
      condition otherwise isFirst isSecond noted noted' =>
    have hreads := readLeft.writesOrdinary.append readRight.writesOrdinary
    refine .inl (hreads.append (.cons_one ?_ rfl condition.ordinary))
    exact .single rfl otherwise.ordinary
  | switch integral selectorType valid areTargets isDefault read areArms otherwise isLast noted =>
    have harms := read.writesOrdinary.append areArms.writesOrdinary
    exact .inl (harms.append (.single rfl otherwise.ordinary))
  | ret isResult isSlot noNull agrees read noted =>
    exact .inr ⟨_, _, _, _, isSlot, rfl, rfl, read.writesOrdinary⟩

theorem LowersAll.writes {stmts : List Statement} {n m : Nat} {codes : List (List Flo.Statement)}
    {exit : Option Flo.BlockExit} (h : LowersAll P ps w stmts n codes exit m) :
    WritesOrdinary w codes.flatten ∨
      ∃ e, exit = some e ∧ EndsWithResult P w codes.flatten e := by
  induction h with
  | nil n => exact .inl .nil
  | leave leaves =>
    rw [List.flatten_singleton]
    exact leaves.writes.imp_right fun hends => ⟨_, rfl, hends⟩
  | @perform stmt rest n k m code codes exit performs others ih =>
    rw [List.flatten_cons]
    refine ih.imp performs.writesOrdinary.append ?_
    rintro ⟨e, he, before, slot, source, note, isSlot, hexit, hcode, hbefore⟩
    refine ⟨e, he, code ++ before, slot, source, note, isSlot, hexit, ?_,
      performs.writesOrdinary.append hbefore⟩
    rw [hcode, List.append_assoc]

/-- So does a block. -/
theorem IsBlock.writes {index : Nat} {block : Block} {codes : List (List Flo.Statement)}
    {row : Flo.Block} (h : IsBlock P ps w index block codes row) :
    WritesOrdinary w codes.flatten ∨ EndsWithResult P w codes.flatten row.exit := by
  obtain ⟨n, exit, m, hlowers, hexits⟩ := h.lowers
  refine hlowers.writes.imp_right ?_
  rintro ⟨e, rfl, hends⟩
  generalize row.exit = exit at hexits ⊢
  cases hexits
  exact hends

/-! ### Blocks -/

section

variable {parameters locals : List Var} {entry : Nat} {signature : Flo.Signature}
  {index id slot : Nat} {ids : List Nat} {block : Block} {codes : List (List Flo.Statement)}
  {row : Flo.Block}

/-- The variable for the result is no temporary, and it cannot be named. -/
theorem IsFunction.not_ordinary (h : IsFunction P ps w parameters locals entry signature)
    (hslot : slot ∈ P.returns) : ¬ Ordinary w slot := by
  rintro (htemp | ⟨v, hv, rfl⟩)
  · exact h.not_isTemp_result hslot htemp
  · exact List.disjoint_of_nodup_append h.inv.ids hslot (List.mem_map_of_mem hv)

/-- A block writes the result exactly if it returns it. -/
theorem IsFunction.writes_result_iff (h : IsFunction P ps w parameters locals entry signature)
    (hb : IsBlock P ps w index block codes row) (hslot : slot ∈ P.returns) :
    (∃ s ∈ codes.flatten, slot ∈ s.outputs) ↔ row.exit = .ret P.returns := by
  constructor
  · rintro ⟨s, hs, hmem⟩
    -- What other code writes has a name or is a temporary, and the result is neither.
    obtain hordinary | ⟨-, slot', -, -, isSlot, hexit, -⟩ := hb.writes
    · exact absurd (hordinary s hs slot hmem) (h.not_ordinary hslot)
    · rw [hexit, isSlot]
  · intro hexit
    have hne : P.returns ≠ [] := List.ne_nil_of_mem hslot
    have hending := hb.ending
    rw [hexit] at hending
    generalize hvalues : P.returns = values at hending
    obtain ⟨hexits, -⟩ | ⟨stmt, n, code, m, before, -, hleaves, hcode⟩ := hending
    · cases hexits
      exact absurd hvalues hne
    · cases hleaves with
      | retVoid isVoid => exact absurd hvalues hne
      | @ret value ty line slot' n v m code note isResult isSlot noNull agrees read noted =>
        rw [isSlot, List.mem_singleton] at hslot
        refine ⟨.assign slot' v note, ?_, ?_⟩
        · simp [hcode]
        · simp [hslot, Flo.Statement.outputs]

/-- A block of the object that has an exit is the one for the label of the exit, or that of another
label. -/
theorem IsFunction.label_of_row (h : IsFunction P ps w parameters locals entry signature)
    (hrow : w.draft.object.blocks.get? id = some row) (hexit : row.exit ≠ .unspecified) :
    (P.function.Reaches exitIndex ∧ id = w.image exitIndex ∧
        row = ⟨none, .usable, [], .ret P.returns, []⟩) ∨
      ¬ (P.function.Reaches exitIndex ∧ id = w.image exitIndex) ∧
        ∃ label block codes row', IsBlock P ps w label block codes row' ∧
          row.statements = row'.statements ∧ row.exit = row'.exit := by
  rw [Flo.Table.get?_eq_rows] at hrow
  have hhas : w.draft.object.blocks.Has id := Flo.Table.has_of_ne h.inv.planned.null hrow <| by
    rintro rfl
    exact hexit rfl
  obtain ⟨label, hlabel⟩ := h.inv.planned.has_iff.1 hhas
  obtain ⟨_, hrow', hcases⟩ := h.row_of_target? hlabel
  obtain rfl := Option.some.inj (hrow.symm.trans hrow')
  rcases hcases with ⟨rfl, rfl⟩ | ⟨hl, block, codes, row', hb, rfl⟩
  · exact .inl ⟨h.reaches_iff.2 ⟨id, hlabel⟩, (State.image_eq hlabel).symm, rfl⟩
  · refine .inr ⟨fun ⟨hreaches, himage⟩ => ?_, label, block, codes, row', hb, rfl, rfl⟩
    obtain ⟨id', hid'⟩ := h.reaches_iff.1 hreaches
    rw [State.image_eq hid'] at himage
    exact hl (h.inv.planned.target?_inj hlabel (himage ▸ hid'))

/-- Every block that returns returns the result. -/
theorem IsFunction.values_of_row (h : IsFunction P ps w parameters locals entry signature)
    (hrow : w.draft.object.blocks.get? id = some row) {values : List Nat}
    (hexit : row.exit = .ret values) : values = P.returns := by
  obtain ⟨-, -, rfl⟩ | ⟨-, label, block, codes, row', hb, -, hexit'⟩ :=
    h.label_of_row hrow (by simp [hexit])
  · exact (Flo.BlockExit.ret.inj hexit).symm
  · exact h.values_eq hb (hexit' ▸ hexit)

/-- The blocks that write the result are those that return it, but for the one that leaves the
function. -/
theorem IsFunction.writes_iff (h : IsFunction P ps w parameters locals entry signature)
    (hrow : w.draft.object.blocks.get? id = some row) (hexit : row.exit ≠ .unspecified)
    (hslot : slot ∈ P.returns) : w.draft.object.Writes id slot ↔
      row.exit = .ret P.returns ∧ ¬ (P.function.Reaches exitIndex ∧ id = w.image exitIndex) := by
  have hwrites : w.draft.object.Writes id slot ↔
      ∃ i ∈ row.statements, ∃ s, w.statements[i]? = some s ∧ slot ∈ s.outputs := by
    simp only [Flo.Object.Writes, hrow, Flo.Table.get?_eq_rows, Option.some.injEq]
    constructor
    · rintro ⟨_, i, s, rfl, hi, hs, hmem⟩
      exact ⟨i, hi, s, hs, hmem⟩
    · rintro ⟨i, hi, s, hs, hmem⟩
      exact ⟨row, i, s, rfl, hi, hs, hmem⟩
  rw [hwrites]
  obtain ⟨hreaches, himage, rfl⟩ | ⟨hne, label, block, codes, row', hb, hstatements, hexit'⟩ :=
    h.label_of_row hrow hexit
  · simp [hreaches, himage]
  · rw [hexit', ← h.writes_result_iff hb hslot, hstatements, and_iff_left hne]
    constructor
    · rintro ⟨i, hi, s, hs, hmem⟩
      obtain ⟨s', hs', hrow'⟩ := hb.exists_code hi
      obtain rfl := Option.some.inj (hs.symm.trans hrow')
      exact ⟨s, hs', hmem⟩
    · rintro ⟨s, hs, hmem⟩
      obtain ⟨i, hi, hs⟩ := hb.exists_id hs
      exact ⟨i, hi, s, hs, hmem⟩

/-- The blocks that control goes on from do not write the result. -/
theorem IsFunction.not_writes (h : IsFunction P ps w parameters locals entry signature)
    (hslot : slot ∈ P.returns) {next : Nat} (hrow : w.draft.object.blocks.get? id = some row)
    (hcontinues : w.draft.object.Continues row.exit next) : ¬ w.draft.object.Writes id slot := by
  intro hwrites
  have hexit : row.exit ≠ .unspecified := by
    intro heq
    rw [heq] at hcontinues
    cases hcontinues
  have hret := ((h.writes_iff hrow hexit hslot).1 hwrites).1
  rw [hret] at hcontinues
  cases hcontinues

/-! ### Paths -/

/-- Control that falls through can go on with the next block. -/
theorem EndsLike.continues_after {f : Function} {o : Flo.Object} {image : Nat → Nat}
    {returns : List Nat} {after : Option Block} {next : Nat}
    (h : EndsLike f o image returns row after none) (hnext : next ∈ after.toList.map Block.index) :
    o.Continues row.exit (image next) := by
  cases after with
  | none => simp at hnext
  | some b =>
    obtain rfl : next = b.index := by simpa using hnext
    exact (show row.exit = .goto (image b.index) from h) ▸ .goto

/-- Control can go on from the image of a block with those of its successors. -/
theorem EndsLike.continues {f : Function} {o : Flo.Object} {image : Nat → Nat} {returns : List Nat}
    {label next : Nat} (hb : f.block? label = some block)
    (h : EndsLike f o image returns row (f.blockAfter? label) block.statements.getLast?)
    (hnext : next ∈ f.successors label) : o.Continues row.exit (image next) := by
  simp only [Function.successors, hb] at hnext
  cases hlast : block.statements.getLast? with
  | none =>
    rw [hlast] at h hnext
    exact h.continues_after hnext
  | some stmt =>
    rw [hlast] at h hnext
    cases stmt with
    | assign | call =>
      have hfalls : EndsLike f o image returns row (f.blockAfter? label) none := h
      exact hfalls.continues_after hnext
    | goto target line =>
      obtain rfl : next = target := by simpa [Statement.isTerminator, Statement.targets] using hnext
      exact (show row.exit = .goto (image next) from h) ▸ .goto
    | ret => simp [Statement.isTerminator, Statement.targets] at hnext
    | conditional op operands trueLabel falseLabel line =>
      obtain ⟨first, second, condition, otherwise, hexit, ⟨_, hfirst⟩, ⟨_, hsecond⟩, -⟩ := h
      rw [hexit]
      have hmem : next = trueLabel ∨ next = falseLabel := by
        simpa [Statement.isTerminator, Statement.targets] using hnext
      rcases hmem with rfl | rfl
      · exact .branch (by simp) hfirst rfl
      · exact .branch (by simp) hsecond rfl
    | switch value cases defaultLabel line =>
      obtain ⟨arms, last, otherwise, hexit, harms, ⟨_, hlast⟩, -⟩ := h
      rw [hexit]
      have hmem : next ∈ cases.map Case.block ∨ next = defaultLabel := by
        simpa [Statement.isTerminator, Statement.targets] using hnext
      rcases hmem with hmem | rfl
      · obtain ⟨c, hc, rfl⟩ := List.mem_map.1 hmem
        obtain ⟨i, hi, rfl⟩ := List.getElem_of_mem hc
        have hi' : i < arms.length := harms.length_eq ▸ hi
        obtain ⟨condition, _, harm⟩ := (List.forall₂_iff_get.1 harms).2 i hi hi'
        exact .branch (List.mem_append_left _ (List.getElem_mem hi')) harm rfl
      · exact .branch (by simp) hlast rfl

/-- There is a path to the image of every label that control can get to. -/
theorem IsFunction.exists_path (h : IsFunction P ps w parameters locals entry signature)
    {label : Nat} (hl : P.function.Reaches label) : ∃ ids,
      w.draft.object.Path (w.image P.function.entryBlock) ids (w.image label) := by
  induction hl with
  | entry => exact ⟨_, .start⟩
  | @step label next hl hnext ih =>
    obtain ⟨ids, hpath⟩ := ih
    -- Control does not go on from the exit, so the label has a block of the source.
    have hne : label ≠ exitIndex := by
      rintro rfl
      simp [h.successors_exit] at hnext
    obtain ⟨b, row, hb, hrow, -, -, hends⟩ := h.controlFlow.ending hne hl
    exact ⟨_, hpath.step hrow (hends.continues hb hnext)⟩

/-- The block for the label of the exit. -/
theorem IsFunction.exitRow (h : IsFunction P ps w parameters locals entry signature)
    (hreaches : P.function.Reaches exitIndex) :
    w.draft.object.blocks.get? (w.image exitIndex) =
      some ⟨none, .usable, [], .ret P.returns, []⟩ := by
  obtain ⟨id, hid⟩ := h.reaches_iff.1 hreaches
  rw [State.image_eq hid, Flo.Table.get?_eq_rows]
  rw [State.target?, if_pos rfl] at hid
  exact h.inv.planned.exitRow id hid

/-- The result is set on a path to a return, unless the path ends with the block for the label of
the exit. -/
theorem IsFunction.sets_iff (h : IsFunction P ps w parameters locals entry signature)
    (hpath : w.draft.object.Path (w.image P.function.entryBlock) ids id)
    (hrow : w.draft.object.blocks.get? id = some row) {values : List Nat}
    (hexit : row.exit = .ret values) (hslot : slot ∈ P.returns) :
    w.draft.object.Sets ids slot ↔
      ¬ (P.function.Reaches exitIndex ∧ id = w.image exitIndex) := by
  obtain rfl := h.values_of_row hrow hexit
  rw [hpath.sets_iff fun id row next hrow hcontinues => h.not_writes hslot hrow hcontinues,
    h.writes_iff hrow (by simp [hexit]) hslot, and_iff_right hexit]

theorem IsFunction.not_sets (h : IsFunction P ps w parameters locals entry signature)
    (hreaches : P.function.Reaches exitIndex)
    (hpath : w.draft.object.Path (w.image P.function.entryBlock) ids (w.image exitIndex))
    (hslot : slot ∈ P.returns) : ¬ w.draft.object.Sets ids slot :=
  fun hsets => (h.sets_iff hpath (h.exitRow hreaches) rfl hslot).1 hsets ⟨hreaches, rfl⟩

end

/-! ### Functions -/

/-- Where the result of a function comes from. Every return returns the variable for the result.
On a path that ends with a return of the source, it is set by that, and on one that ends with the
block for the label of the exit it is never set: that block returns what was in the variable when
the function was entered. -/
structure Results (f : Function) (o : Flo.Object) (image : Nat → Nat)
    (signature : Flo.Signature) : Prop where
  controlFlow : ControlFlow f o image signature
  path : ∀ {label : Nat}, f.Reaches label →
    ∃ ids, o.Path (image f.entryBlock) ids (image label)
  values : ∀ {id : Nat} {row : Flo.Block} {values : List Nat}, o.blocks.get? id = some row →
    row.exit = .ret values → values = signature.returns
  set_iff : ∀ {ids : List Nat} {last : Nat} {row : Flo.Block} {values : List Nat},
    o.Path (image f.entryBlock) ids last → o.blocks.get? last = some row →
    row.exit = .ret values → ∀ slot ∈ signature.returns,
      (o.Sets ids slot ↔ ¬ (f.Reaches exitIndex ∧ last = image exitIndex))
  kept : ∀ {ids : List Nat}, f.Reaches exitIndex →
    o.Path (image f.entryBlock) ids (image exitIndex) → ∀ id ∈ ids, ∀ {row : Flo.Block}
      {R : Runtime} {M M' : Flo.Machine}, o.blocks.get? id = some row →
      o.execBlock R M row = .ok M' → ∀ slot ∈ signature.returns, M'.frame slot = M.frame slot
  returnsSet_iff : o.ReturnsSet (image f.entryBlock) ↔
    f.returnType = none ∨ ¬ f.Reaches exitIndex

theorem IsFunction.results {parameters locals : List Var} {entry : Nat} {signature : Flo.Signature}
    (h : IsFunction P ps w parameters locals entry signature) :
    Results P.function w.draft.object w.image signature := by
  refine ⟨h.controlFlow, h.exists_path, ?_, ?_, ?_, ?_⟩
  · rw [h.returns]
    exact fun hrow hexit => h.values_of_row hrow hexit
  · rw [h.returns]
    exact fun hpath hrow hexit slot hslot => h.sets_iff hpath hrow hexit hslot
  · intro ids hreaches hpath id hid row R M M' hrow hexec slot hslot
    rw [h.returns] at hslot
    exact Flo.Object.execBlock_frame_eq hrow hexec fun hwrites =>
      h.not_sets hreaches hpath hslot ⟨id, hid, hwrites⟩
  · constructor
    · intro hset
      by_contra! hnot
      obtain ⟨hresult, hreaches⟩ := hnot
      obtain ⟨ty, hty⟩ := Option.ne_none_iff_exists'.1 hresult
      obtain ⟨slot, hslot⟩ := List.length_eq_one_iff.1 (h.result.trans (by simp [hty]))
      have hmem : slot ∈ P.returns := by simp [hslot]
      obtain ⟨ids, hpath⟩ := h.exists_path hreaches
      exact h.not_sets hreaches hpath hmem (hset hpath (h.exitRow hreaches) rfl slot hmem)
    · intro hor ids last row values hpath hrow hexit slot hslot
      obtain rfl := h.values_of_row hrow hexit
      rcases hor with isVoid | hnot
      · simp [h.returns_eq_nil isVoid] at hslot
      · exact (h.sets_iff hpath hrow hexit hslot).2 fun hreaches => hnot hreaches.1

/-- **The result is set on every path to a return of the source, and on no path to the exit.**
So a function returns only what was set before unless it has a result and control can get to a
branch to the label of the exit. -/
theorem lowerFunction_results {source : String} {f : Function} {types types' : Registry}
    {o : Flo.Object} (reached : Reached x types)
    (run : (lowerFunction x ps source f).Ran types o types') :
    ∃ image signature, Results f o image signature := by
  obtain ⟨returns, w, parameters, locals, entry, signature, h, rfl, rfl⟩ :=
    lowerFunction_ran (.univ x) (by simp) reached.sound run
  exact ⟨w.image, signature, h.results⟩

/-- A function with a result that branches to the label of the exit unless its argument is
positive. -/
def leavingUnset : Function :=
  ⟨"leave", [⟨"n", .integer 32⟩], some (.integer 32), 2, [],
    [⟨2, [.conditional .gt [.named (.integer 32) "n", .integer (.integer 32) 0] 3 1 none]⟩,
      ⟨3, [.ret (some (.named (.integer 32) "n")) none]⟩]⟩

/-- The one routine that it needs. -/
def greaterThan : Polyfills := .ofList [("gt_expr(i32, i32)", "gt")]

theorem leavingUnset_results :
    ∃ o types, (lowerFunction .empty greaterThan "" leavingUnset).Ran .empty o types ∧
      ∃ image signature, Results leavingUnset o image signature ∧
        ¬ o.ReturnsSet (image leavingUnset.entryBlock) := by
  obtain ⟨o, types, run⟩ : ∃ o types,
      (lowerFunction .empty greaterThan "" leavingUnset).Ran .empty o types :=
    Build.exists_ran_of_endsWell (by decide +kernel)
  obtain ⟨image, signature, h⟩ := lowerFunction_results .empty run
  have hreaches : leavingUnset.Reaches exitIndex := .step .entry (by decide)
  refine ⟨o, types, run, image, signature, h, fun hset => ?_⟩
  rcases h.returnsSet_iff.1 hset with isVoid | hnot
  · cases isVoid
  · exact hnot hreaches

end GimpleLowering.Lowering

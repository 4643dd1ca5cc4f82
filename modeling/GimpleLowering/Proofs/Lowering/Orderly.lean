import GimpleLowering.Proofs.Flo.StraightLine
import GimpleLowering.Proofs.Lowering.Simulation

/-!
# The order of code

The temporaries of a piece of code are numbered from a first one on, and it writes them in the order
of their numbers. It reads only temporaries that it has written itself; a write of an assignment is
the one piece that is given a temporary, which is the value. So the code of a whole block is orderly
by itself, and no temporary of one block occurs in another.

A variable that is read in place has a name, so it makes no difference that the code of other
operands may come between the read and the use.

## Main definitions

* `Lowering.InOrder` — code that makes temporaries and shares the variables in scope
* `Lowering.WritesConditions` — code that writes the conditions of arms

## Main results

* `Lowering.Reads.orderly`, `Writes.orderly` — the code of operands is orderly
* `Lowering.Performs.orderly`, `Leaves.orderly` — so is that of statements, and a branch writes its
  conditions
* `Lowering.LowersAll.orderly`, `IsBlock.orderly` — so is that of blocks
-/

namespace GimpleLowering.Lowering

open Gimple Layout

variable {P : Setting} {ps : Polyfills} {x : UnitIndex} {w : State}

/-- A variable in scope, which has a name. -/
def InScope (w : State) (v : Nat) : Prop := ∃ u ∈ w.scope, u.id = v

/-- The variable can be read when the variables `vs` have been written. -/
def Available (w : State) (vs : List Nat) (v : Nat) : Prop := InScope w v ∨ v ∈ vs

theorem Available.left {vs : List Nat} {v : Nat} (h : Available w vs v) (us : List Nat) :
    Available w (vs ++ us) v :=
  h.imp_right (List.mem_append_left us)

theorem Available.right {vs : List Nat} {v : Nat} (h : Available w vs v) (us : List Nat) :
    Available w (us ++ vs) v :=
  h.imp_right (List.mem_append_right us)

theorem Available.of_mem {vs : List Nat} {v : Nat} (h : v ∈ vs) : Available w vs v := .inr h

/-- Code that makes temporaries and shares the variables in scope. -/
abbrev InOrder (w : State) : (known : List Nat) → Nat → List Flo.Statement → Nat → Prop :=
  Flo.Orderly (IsTemp w) (InScope w)

/-! ### Operands -/

/-- A read is orderly, and its result is available after it. -/
theorem Reads.orderly {e : Expr} {n v m : Nat} {code : List Flo.Statement}
    (h : Reads x w e n v code m) :
    InOrder w [] n code m ∧ Available w (Flo.written code) v := by
  induction h with
  | @constant e c n note isConstant temp noted =>
    exact ⟨.fresh (k := 1) (List.forall_mem_nil _) rfl rfl, .of_mem (List.mem_singleton_self n)⟩
  | named le mem agrees => exact ⟨.nil le, .inl ⟨_, mem, rfl⟩⟩
  | @through ty rty record pointer member struct slots slot n handle m code note base isSlot agrees
      readPointer temp noted ih =>
    exact ⟨ih.1.append (.fresh (k := 1) (List.forall_mem_singleton.2 ih.2) rfl rfl),
      .of_mem (Flo.mem_written_concat (List.mem_singleton_self m))⟩
  | @part ty base member struct slots slot n whole m code note direct isSlot agrees readWhole temps
      noted ih =>
    have hpart : m + slot.index ∈ List.range' m slots.length :=
      List.mem_range'_1.2 ⟨Nat.le_add_right _ _, Nat.add_lt_add_left isSlot.index_lt m⟩
    exact ⟨ih.1.append (.fresh (List.forall_mem_singleton.2 ih.2) rfl rfl),
      .of_mem (Flo.mem_written_concat hpart)⟩
  | @deref ty pointee pointer rep n handle m code note base agrees represents readPointer temp noted
      ih =>
    exact ⟨ih.1.append (.fresh (k := 1) (List.forall_mem_singleton.2 ih.2) rfl rfl),
      .of_mem (Flo.mem_written_concat (List.mem_singleton_self m))⟩
  | @element ty base length array index rep n a k i m code code' note isArray agrees integral
      represents readArray readIndex temp noted iha ihi =>
    have hin : ∀ v ∈ [a, i], Available w ([] ++ Flo.written (code ++ code')) v := by
      rw [Flo.written_append]
      exact List.forall_mem_cons.2 ⟨iha.2.left _, List.forall_mem_singleton.2 (ihi.2.right _)⟩
    exact ⟨(iha.1.append ihi.1.closed).append (.fresh (k := 1) hin rfl rfl),
      .of_mem (Flo.mem_written_concat (List.mem_singleton_self m))⟩

/-- A write is orderly if its value is available before it. -/
theorem Writes.orderly {e : Expr} {n value m : Nat} {code : List Flo.Statement} {known : List Nat}
    (h : Writes x w e n value code m) (hw : w.Inv P) (hvalue : Available w known value) :
    InOrder w known n code m := by
  induction h generalizing known with
  | named le mem agrees noted =>
    exact .other le (List.forall_mem_singleton.2 hvalue)
      (List.forall_mem_singleton.2 (hw.not_isTemp mem))
  | through base isSlot agrees readPointer noted =>
    obtain ⟨hread, hhandle⟩ := readPointer.orderly
    exact hread.closed.append (.other (Nat.le_refl _) (List.forall_mem_cons.2
      ⟨hhandle.right _, List.forall_mem_singleton.2 (hvalue.left _)⟩) (List.forall_mem_nil _))
  | @part ty base member struct slots slot value n whole k m code code' note note' direct isSlot
      agrees readWhole temps temp writeBase noted noted' ih =>
    obtain ⟨hread, hwhole⟩ := readWhole.orderly
    set parts : List Nat := List.range' k slots.length
    -- A part is one of those that were taken apart, but for the one that is replaced.
    have hparts : ∀ v ∈ parts.set slot.index value, Available w
        (known ++ Flo.written code ++ Flo.written [.destructure whole parts note]) v := by
      intro v hv
      rcases List.mem_or_eq_of_mem_set hv with hpart | rfl
      · exact .of_mem (List.mem_append_right _ (by simpa [Flo.Statement.outputs] using hpart))
      · exact (hvalue.left _).left _
    have htake : InOrder w (known ++ Flo.written code) k [.destructure whole parts note]
        (k + slots.length) := .fresh (List.forall_mem_singleton.2 (hwhole.right _)) rfl rfl
    have hbuild : InOrder w
        (known ++ Flo.written code ++ Flo.written [.destructure whole parts note])
        (k + slots.length) [.construct (k + slots.length) (parts.set slot.index value) note']
        (k + slots.length + 1) := .fresh hparts rfl rfl
    refine (hread.closed.append (htake.append hbuild)).append (ih (.of_mem ?_))
    exact List.mem_append_right _ (by simp [Flo.Statement.outputs])
  | deref base agrees readPointer noted =>
    obtain ⟨hread, hhandle⟩ := readPointer.orderly
    exact hread.closed.append (.other (Nat.le_refl _) (List.forall_mem_cons.2
      ⟨hhandle.right _, List.forall_mem_singleton.2 (hvalue.left _)⟩) (List.forall_mem_nil _))
  | @element ty base length array index value n a k i m code code' note isArray agrees integral
      readArray readIndex noted =>
    obtain ⟨hreadArray, harray⟩ := readArray.orderly
    obtain ⟨hreadIndex, hindex⟩ := readIndex.orderly
    have hin : ∀ v ∈ [a, i, value], Available w (known ++ Flo.written (code ++ code')) v := by
      rw [Flo.written_append]
      exact List.forall_mem_cons.2 ⟨(harray.left _).right _, List.forall_mem_cons.2
        ⟨(hindex.right _).right _, List.forall_mem_singleton.2 (hvalue.left _)⟩⟩
    exact (hreadArray.closed.append hreadIndex.closed).append (.other (Nat.le_refl _) hin (List.forall_mem_nil _))

/-- All operands are available after they were read. -/
theorem ReadsAll.orderly {es : List Expr} {n m : Nat} {vs : List Nat} {code : List Flo.Statement}
    (h : ReadsAll x w es n vs code m) :
    InOrder w [] n code m ∧ ∀ v ∈ vs, Available w (Flo.written code) v := by
  induction h with
  | nil n => exact ⟨.nil (Nat.le_refl n), List.forall_mem_nil _⟩
  | cons read rest ih =>
    obtain ⟨hread, hv⟩ := read.orderly
    refine ⟨hread.append ih.1.closed, ?_⟩
    rw [Flo.written_append]
    exact List.forall_mem_cons.2 ⟨hv.left _, fun v hmem => (ih.2 v hmem).right _⟩

/-! ### Statements -/

/-- A call whose result goes to a target through a temporary. -/
theorem ReadsAll.orderly_write {es : List Expr} {lhs : Expr} {n k m : Nat} {vs : List Nat}
    {code code' : List Flo.Statement} {block : Flo.BlockRef} {note : Flo.Note}
    (reads : ReadsAll x w es n vs code k) (hw : w.Inv P)
    (write : Writes x w lhs (k + 1) k code' m) :
    InOrder w [] n (code ++ [.call block vs [k] note] ++ code') m := by
  obtain ⟨hreads, hvs⟩ := reads.orderly
  have hcall : InOrder w ([] ++ Flo.written code) k [.call block vs [k] note] (k + 1) :=
    .fresh hvs rfl rfl
  refine (hreads.append hcall).append (write.orderly hw (.of_mem ?_))
  exact Flo.mem_written_concat (List.mem_singleton_self k)

/-- A statement that is followed by the next one is orderly. -/
theorem Performs.orderly {stmt : Statement} {n m : Nat} {code : List Flo.Statement}
    (h : Performs P ps w stmt n code m) (hw : w.Inv P) : InOrder w [] n code m := by
  cases h with
  | copy isCopy noNull agrees read write =>
    obtain ⟨hread, hv⟩ := read.orderly
    exact hread.append (write.orderly hw hv)
  | operateTo noCopy arity noNull checked operandTypes resultType isRoutine reads le mem agrees
      noted =>
    obtain ⟨hreads, hvs⟩ := reads.orderly
    exact hreads.append (.other le hvs (List.forall_mem_singleton.2 (hw.not_isTemp mem)))
  | operate noCopy arity unnamed noNull checked operandTypes resultType isRoutine reads temp write
      noted => exact reads.orderly_write hw write
  | callTo isCallee passed returns stored reads le mem agrees noted =>
    obtain ⟨hreads, hvs⟩ := reads.orderly
    exact hreads.append (.other le hvs (List.forall_mem_singleton.2 (hw.not_isTemp mem)))
  | callStore isCallee passed returns stored unnamed reads resultType temp write noted =>
    exact reads.orderly_write hw write
  | callDiscard isCallee passed returns reads resultType temp noted =>
    obtain ⟨hreads, hvs⟩ := reads.orderly
    exact hreads.append (.fresh (k := 1) hvs rfl rfl)
  | callVoid isCallee passed returns reads noted =>
    obtain ⟨hreads, hvs⟩ := reads.orderly
    exact hreads.append (.other (Nat.le_refl _) hvs (List.forall_mem_nil _))

/-- The code of a comparison is orderly if the selector is available, and it writes the result. -/
theorem Compares.orderly {selector : Nat} {typ : Flo.Ty} {c : Case} {n v m : Nat}
    {code : List Flo.Statement} {known : List Nat}
    (h : Compares ps w selector typ c n v code m) (hs : Available w known selector) :
    InOrder w known n code m ∧ v ∈ Flo.written code := by
  cases h with
  | single isSingle isLow isEq temp result noted noted' =>
    refine ⟨⟨.range' n 2, ?_, by simp [Flo.Statement.copied]⟩, by simp [Flo.Statement.outputs]⟩
    refine ⟨List.forall_mem_nil _, List.forall_mem_cons.2 ⟨hs.left _, ?_⟩, trivial⟩
    exact List.forall_mem_singleton.2 (.inr (by simp [Flo.Statement.outputs]))
  | range isRange isLow isHigh isGe isLe isAnd lowTemp highTemp above below both noted =>
    refine ⟨⟨.range' n 5, ?_, by simp [Flo.Statement.copied]⟩, by simp [Flo.Statement.outputs]⟩
    -- Each comparison reads the selector and a limit, and the last call reads their results.
    refine ⟨List.forall_mem_nil _, List.forall_mem_nil _,
      List.forall_mem_cons.2 ⟨(hs.left _).left _, ?_⟩,
      List.forall_mem_cons.2 ⟨((hs.left _).left _).left _, ?_⟩,
      List.forall_mem_cons.2 ⟨.inr ?_, ?_⟩, trivial⟩
    · exact List.forall_mem_singleton.2 (.inr (by simp [Flo.Statement.outputs]))
    · exact List.forall_mem_singleton.2 (.inr (by simp [Flo.Statement.outputs]))
    · simp [Flo.Statement.outputs]
    · exact List.forall_mem_singleton.2 (.inr (by simp [Flo.Statement.outputs]))

/-- The code writes the conditions of the arms. -/
def WritesConditions (w : State) (arms : List Nat) (code : List Flo.Statement) : Prop :=
  ∀ arm ∈ arms, ∃ v target, IsArm w arm v target ∧ v ∈ Flo.written code

theorem WritesConditions.nil {code : List Flo.Statement} : WritesConditions w [] code :=
  List.forall_mem_nil _

theorem WritesConditions.mono {arms : List Nat} {code code' : List Flo.Statement}
    (h : WritesConditions w arms code) (hsub : Flo.written code ⊆ Flo.written code') :
    WritesConditions w arms code' := by
  intro arm harm
  obtain ⟨v, target, hrow, hmem⟩ := h arm harm
  exact ⟨v, target, hrow, hsub hmem⟩

/-- So is the code of a switch, whose comparisons all read the selector. It writes the conditions of
its arms. -/
theorem Arms.orderly {selector : Nat} {typ : Flo.Ty} {cases : List (Case × Nat)} {n m : Nat}
    {arms known : List Nat} {code : List Flo.Statement}
    (h : Arms ps w selector typ cases n code arms m) (hs : Available w known selector) :
    InOrder w known n code m ∧ WritesConditions w arms code := by
  induction h generalizing known with
  | nil n => exact ⟨.nil (Nat.le_refl n), .nil⟩
  | cons compare isArm rest ih =>
    obtain ⟨hcompare, hv⟩ := compare.orderly hs
    obtain ⟨hrest, harms⟩ := ih (hs.left _)
    refine ⟨hcompare.append hrest, List.forall_mem_cons.2 ⟨⟨_, _, isArm, ?_⟩, harms.mono ?_⟩⟩ <;>
      simp [hv]

/-- A statement that ends a block is orderly, and it writes the conditions of the arms of its
exit. -/
theorem Leaves.orderly {stmt : Statement} {n m : Nat} {code : List Flo.Statement}
    {exit : Flo.BlockExit} (h : Leaves P ps w stmt n code exit m) (hw : w.Inv P) :
    InOrder w [] n code m ∧ WritesConditions w exit.arms code := by
  cases h with
  | goto isTarget => exact ⟨.nil (Nat.le_refl _), .nil⟩
  | @conditional op left right trueLabel falseLabel line typ routine trueTarget falseTarget first
      second n a k b m code code' note note' isComparison agrees operandType isTrue isFalse
      isRoutine readLeft readRight condition otherwise isFirst isSecond noted noted' =>
    obtain ⟨hleft, ha⟩ := readLeft.orderly
    obtain ⟨hright, hb⟩ := readRight.orderly
    have hin : ∀ v ∈ [a, b], Available w ([] ++ Flo.written (code ++ code')) v := by
      rw [Flo.written_append]
      exact List.forall_mem_cons.2 ⟨ha.left _, List.forall_mem_singleton.2 (hb.right _)⟩
    have hcall : InOrder w ([] ++ Flo.written (code ++ code')) m
        [.call (.builtin routine) [a, b] [m] note] (m + 1) := .fresh hin rfl rfl
    have htrue : InOrder w [] (m + 1) [.assignConst (m + 1) (.ofBool true) note'] (m + 2) :=
      .fresh (k := 1) (List.forall_mem_nil _) rfl rfl
    refine ⟨(hleft.append hright.closed).append (hcall.append htrue.closed), ?_⟩
    refine List.forall_mem_cons.2 ⟨⟨_, _, isFirst, ?_⟩, List.forall_mem_singleton.2
      ⟨_, _, isSecond, ?_⟩⟩ <;> simp [Flo.Statement.outputs]
  | @switch value cases defaultLabel line typ targets arms default last n v k m code code' note
      integral selectorType valid areTargets isDefault read areArms otherwise isLast noted =>
    obtain ⟨hread, hv⟩ := read.orderly
    obtain ⟨harms, hconditions⟩ := areArms.orderly hv
    have htrue : InOrder w [] m [.assignConst m (.ofBool true) note] (m + 1) :=
      .fresh (k := 1) (List.forall_mem_nil _) rfl rfl
    refine ⟨(hread.append harms).append htrue.closed, List.forall_mem_append.2
      ⟨hconditions.mono ?_, List.forall_mem_singleton.2 ⟨_, _, isLast, ?_⟩⟩⟩
    · simp
    · exact Flo.mem_written_concat (List.mem_singleton_self m)
  | retVoid isVoid => exact ⟨.nil (Nat.le_refl _), .nil⟩
  | @ret value ty line slot n v m code note isResult isSlot noNull agrees read noted =>
    obtain ⟨hread, hv⟩ := read.orderly
    have hslot : slot ∈ P.returns := by simp [isSlot]
    exact ⟨hread.append (.other (Nat.le_refl _) (List.forall_mem_singleton.2 hv)
      (List.forall_mem_singleton.2 (hw.not_isTemp_returns hslot))), .nil⟩

/-! ### Blocks -/

/-- The statements of a block are orderly, and they write the conditions of the arms of its
exit. -/
theorem LowersAll.orderly {stmts : List Statement} {n m : Nat} {codes : List (List Flo.Statement)}
    {exit : Option Flo.BlockExit} (h : LowersAll P ps w stmts n codes exit m) (hw : w.Inv P) :
    InOrder w [] n codes.flatten m ∧
      ∀ e, exit = some e → WritesConditions w e.arms codes.flatten := by
  induction h with
  | nil n => exact ⟨.nil (Nat.le_refl n), by simp⟩
  | @leave stmt n m code exit leaves =>
    obtain ⟨hleaves, harms⟩ := leaves.orderly hw
    rw [List.flatten_singleton]
    refine ⟨hleaves, ?_⟩
    rintro e ⟨⟩
    exact harms
  | @perform stmt rest n k m code codes exit performs others ih =>
    rw [List.flatten_cons]
    exact ⟨(performs.orderly hw).append ih.1.closed, fun e he => (ih.2 e he).mono (by simp)⟩

/-- So the code of every block of the object is orderly. -/
theorem IsBlock.orderly {index : Nat} {block : Block} {codes : List (List Flo.Statement)}
    {row : Flo.Block} (h : IsBlock P ps w index block codes row) (hw : w.Inv P) :
    ∃ n m, InOrder w [] n codes.flatten m ∧ WritesConditions w row.arms codes.flatten := by
  obtain ⟨n, exit, m, hlowers, hexits⟩ := h.lowers
  obtain ⟨horderly, hconditions⟩ := hlowers.orderly hw
  refine ⟨n, m, horderly, ?_⟩
  unfold Flo.Block.arms
  generalize row.exit = exit' at hexits ⊢
  cases hexits with
  | leave => exact hconditions _ rfl
  | next | finish | missing => exact .nil

end GimpleLowering.Lowering

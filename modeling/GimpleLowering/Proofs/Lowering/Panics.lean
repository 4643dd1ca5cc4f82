import GimpleLowering.Proofs.Lowering.Blocks

/-!
# Panics in the source

The flag in the state is set where an operand goes through a pointer that may be null, where an
array is indexed, and where control leaves the last block of a function without the value that it
should have. It is never reset, so in the end it says whether any of that is in the blocks that
were lowered. `Marks` says of a computation what it adds to the flag. A call adds what its operands
add: what the function that is called does has no part in it.

## Main definitions

* `Gimple.Expr.mayPanic`, `Gimple.Statement.mayPanic`, `Gimple.Function.mayPanicAt` — code that can
  panic
* `Lowering.Marks` — what a computation adds to the flag

## Main results

* `Lowering.read_marks`, `write_marks`, `lowerStatement_marks` — operands and statements set the
  flag if they can panic
* `Lowering.lowerBlock_marks` — so do blocks
-/

namespace GimpleLowering

open Gimple Layout

/-! ### The source -/

namespace Gimple

/-- Reading the operand, or writing it, can panic. -/
def Expr.mayPanic : Expr → Bool
  | .integer _ _ | .real _ _ | .named _ _ => false
  | .component _ value _ => value.mayPanic
  | .deref _ pointer => pointer.mayPanic || pointer.ty.isNullable
  | .element _ _ _ => true
  | .address _ value => value.mayPanic

/-- One of the operands of the statement can panic. -/
def Statement.mayPanic : Statement → Bool
  | .assign _ lhs operands _ => operands.any Expr.mayPanic || lhs.mayPanic
  | .call _ arguments lhs _ => arguments.any Expr.mayPanic || lhs.any Expr.mayPanic
  | .conditional _ operands _ _ _ => operands.any Expr.mayPanic
  | .ret value _ => value.any Expr.mayPanic
  | .goto _ _ => false
  | .switch value _ _ _ => value.mayPanic

/-- At the end of the block, control leaves the function without the value that it should have. -/
def Function.missesReturn (f : Function) (label : Nat) (b : Block) : Bool :=
  ! b.statements.getLast?.any Statement.isTerminator && (f.blockAfter? label).isNone &&
    f.returnType.isSome

/-- One of the statements of the block can panic, or its end does. -/
def Function.mayPanicAt (f : Function) (label : Nat) : Bool :=
  (f.block? label).any fun b => b.statements.any Statement.mayPanic || f.missesReturn label b

end Gimple

namespace Lowering

/-! ### Marks -/

section

variable {ε α β : Type}

/-- The computation adds `b` to the flag: the flag is set after it if it was set before, or if `b`
holds. -/
def Marks (b : Bool) (m : Build State ε α) : Prop :=
  ∀ s a s', m.Ran s a s' → s'.canPanic = (s.canPanic || b)

namespace Marks

variable {b c : Bool} {m : Build State ε α} {f : α → Build State ε β}

theorem pure (a : α) : Marks false (Pure.pure a : Build State ε α) := fun _ _ _ h => by
  rw [(Build.ran_pure.1 h).2, Bool.or_false]

/-- A computation that does not end well adds whatever we like. -/
theorem throw (e : ε) : Marks b (MonadExcept.throw e : Build State ε α) := fun _ _ _ h =>
  (Build.ran_throw.1 h).elim

theorem step {g : State → α × State} (h : ∀ s, (g s).2.canPanic = s.canPanic) :
    Marks false (Build.step g : Build State ε α) := fun _ _ _ hr => by
  rw [(Build.ran_step.1 hr).2, h, Bool.or_false]

theorem get : Marks false (MonadState.get : Build State ε State) := fun _ _ _ h => by
  rw [(Build.ran_get.1 h).2, Bool.or_false]

theorem present (index : Nat) (a : Option α) :
    Marks false (Build.present index a : Build State ε α) := fun _ _ _ h => by
  rw [(Build.ran_present.1 h).2, Bool.or_false]

/-- What follows only has to add to the flag after the runs that end well. -/
theorem bind_of_ran (h : Marks b m) (hf : ∀ {s a s'}, m.Ran s a s' → Marks c (f a)) :
    Marks (b || c) (m >>= f) := fun _ _ _ hr => by
  obtain ⟨a, s', hm, hr⟩ := Build.ran_bind.1 hr
  rw [hf hm _ _ _ hr, h _ _ _ hm, Bool.or_assoc]

theorem bind (h : Marks b m) (hf : ∀ a, Marks c (f a)) : Marks (b || c) (m >>= f) :=
  h.bind_of_ran fun _ => hf _

/-- What comes first adds nothing. -/
theorem quiet_bind (h : Marks false m) (hf : ∀ a, Marks b (f a)) : Marks b (m >>= f) := by
  simpa using h.bind hf

/-- What follows adds nothing. -/
theorem bind_quiet (h : Marks b m) (hf : ∀ a, Marks false (f a)) : Marks b (m >>= f) := by
  simpa using h.bind hf

theorem mapError {δ : Type} {g : ε → δ} (h : Marks b m) : Marks b (m.mapError g) :=
  fun _ _ _ hr => h _ _ _ (Build.ran_mapError.1 hr)

theorem of_eq (h : Marks b m) (hb : b = c) : Marks c m := hb ▸ h

end Marks

end

/-! ### Steps -/

section

variable {α : Type}

theorem onTypes_marks (m : LayoutM α) : Marks false (onTypes m) := fun _ _ _ hr => by
  obtain ⟨t, -, rfl⟩ := Build.ran_zoom.1 hr
  exact (Bool.or_false _).symm

theorem onDraft_marks (f : Flo.Draft → α × Flo.Draft) : Marks false (onDraft f) :=
  .step fun _ => rfl

theorem check_marks (r : Except Error α) : Marks false (check r) := fun _ _ _ hr => by
  rw [(Build.ran_ofExcept.1 hr).2, Bool.or_false]

end

theorem markPanic_marks : Marks true markPanic := fun _ _ _ hr => by
  rw [(Build.ran_step.1 hr).2, Bool.or_true]

variable (cx : Context)

theorem note_marks : Marks false (note cx) := (onDraft_marks _).quiet_bind fun _ => .pure _

theorem emit_marks (stmt : Flo.Statement) : Marks false (emit stmt) :=
  (onDraft_marks _).quiet_bind fun _ => .step fun _ => rfl

theorem temporary_marks (typ : Flo.Ty) : Marks false (temporary cx typ) :=
  (onDraft_marks _).quiet_bind fun _ => onDraft_marks _

theorem constant_marks (c : Flo.Constant) : Marks false (constant cx c) :=
  (temporary_marks cx c.typ).quiet_bind fun _ => (note_marks cx).quiet_bind fun _ =>
    (emit_marks _).quiet_bind fun _ => .pure _

theorem assign_marks (target source : Nat) : Marks false (assign cx target source) :=
  (note_marks cx).quiet_bind fun _ => emit_marks _

theorem call_marks (block : Flo.BlockRef) (input outputs : List Nat) :
    Marks false (call cx block input outputs) :=
  (note_marks cx).quiet_bind fun _ => emit_marks _

theorem load_marks (handle : Nat) (member : Flo.Member) (typ : Flo.Ty) :
    Marks false (load cx handle member typ) :=
  (temporary_marks cx typ).quiet_bind fun _ => (note_marks cx).quiet_bind fun _ =>
    (emit_marks _).quiet_bind fun _ => .pure _

theorem store_marks (handle : Nat) (member : Flo.Member) (value : Nat) :
    Marks false (store cx handle member value) :=
  (note_marks cx).quiet_bind fun _ => emit_marks _

theorem callRoutine_marks (op : Operator) (input : List Nat) (types : List Flo.Ty)
    (result : Flo.Ty) (output : Option Nat) :
    Marks false (callRoutine cx op input types result output) := by
  unfold callRoutine
  cases cx.polyfills.forOperation? op types result with
  | none => exact .throw _
  | some routine =>
    cases output with
    | some v =>
      exact Marks.quiet_bind (.pure v) fun _ => (call_marks cx _ _ _).quiet_bind fun _ => .pure _
    | none =>
      exact (temporary_marks cx result).quiet_bind fun _ =>
        (call_marks cx _ _ _).quiet_bind fun _ => .pure _

/-! ### Variables and labels -/

theorem create_marks (x : UnitIndex) (line : Option Nat) (name : String) (ty : Ty)
    (usage : Usage) : Marks false (create x line name ty usage) :=
  (onTypes_marks _).quiet_bind fun _ => (onDraft_marks _).quiet_bind fun _ => onDraft_marks _

theorem declare_marks (x : UnitIndex) (function : String) (line : Option Nat) (name : String)
    (ty : Ty) (usage : Usage) : Marks false (declare x function line name ty usage) := by
  refine Marks.get.quiet_bind fun s => ?_
  split
  · exact .throw _
  · exact (create_marks x line name ty usage).quiet_bind fun _ =>
      Marks.quiet_bind (.step fun _ => rfl) fun _ => .pure _

theorem lookup_marks (name : String) (e : Expr) : Marks false (lookup cx name e) := by
  rw [lookup_eq]
  refine Marks.get.quiet_bind fun s => ?_
  cases s.scope.find? fun v => v.name = name with
  | some v => exact Marks.quiet_bind (.pure v) fun _ => (check_marks _).quiet_bind fun _ => .pure _
  | none =>
    cases cx.index.global? name with
    | none =>
      exact Marks.quiet_bind (b := false) (.throw _) fun _ =>
        (check_marks _).quiet_bind fun _ => .pure _
    | some ty =>
      exact (declare_marks _ _ _ _ _ _).quiet_bind fun _ =>
        (check_marks _).quiet_bind fun _ => .pure _

theorem exitBlock_marks : Marks false (exitBlock cx) := by
  refine Marks.get.quiet_bind fun s => ?_
  split
  · exact .pure _
  · exact (onDraft_marks _).quiet_bind fun _ =>
      Marks.quiet_bind (.step fun _ => rfl) fun _ => .pure _

theorem blockFor_marks (label : Nat) : Marks false (blockFor cx label) := by
  unfold blockFor
  split
  · exact exitBlock_marks cx
  refine Marks.get.quiet_bind fun s => ?_
  split
  · exact .pure _
  · split
    · exact .throw _
    · exact (onDraft_marks _).quiet_bind fun _ =>
        Marks.quiet_bind (.step fun _ => rfl) fun _ => .pure _

/-- Each element of a list adds its part. -/
theorem mapM_marks {ε α β : Type} {g : α → Bool} {f : α → Build State ε β}
    (hf : ∀ a, Marks (g a) (f a)) (as : List α) : Marks (as.any g) (as.mapM f) := by
  induction as with
  | nil => exact .pure _
  | cons a as ih =>
    rw [List.mapM_cons]
    exact (hf a).bind fun _ => ih.bind_quiet fun _ => .pure _

theorem mapM_quiet {ε α β : Type} {f : α → Build State ε β} (hf : ∀ a, Marks false (f a))
    (as : List α) : Marks false (as.mapM f) :=
  (mapM_marks hf as).of_eq (List.any_eq_false.2 fun _ _ => Bool.false_ne_true)

theorem forM_quiet {ε α : Type} {f : α → Build State ε Unit} (hf : ∀ a, Marks false (f a))
    (as : List α) : Marks false (as.forM f) := by
  induction as with
  | nil => exact .pure _
  | cons a as ih => exact (hf a).quiet_bind fun _ => ih

/-! ### Operands -/

theorem readInteger_marks (ty : Ty) (value : Int) : Marks false (readInteger cx ty value) := by
  cases ty with
  | integer width =>
    exact (onTypes_marks _).quiet_bind fun _ =>
      (check_marks _).quiet_bind fun _ => constant_marks cx _
  | boolean | real width => exact constant_marks cx _
  | pointer base =>
    simp only [readInteger]
    split
    · exact (onTypes_marks _).quiet_bind fun _ => constant_marks cx _
    · exact .throw _
  | reference base =>
    simp only [readInteger]
    split <;> exact .throw _
  | array base length | record name fields => exact .throw _

theorem readReal_marks (ty : Ty) (value : Double) : Marks false (readReal cx ty value) := by
  refine (onTypes_marks _).quiet_bind fun typ => ?_
  split
  · exact .throw _
  · exact constant_marks cx _

theorem slotFor_marks (struct : Nat) (member : String) (e : Expr) :
    Marks false (slotFor cx struct member e) :=
  (onTypes_marks _).quiet_bind fun _ => (onTypes_marks _).quiet_bind fun _ =>
    (check_marks _).quiet_bind fun _ => .pure _

/-- Following a pointer sets the flag if the pointer may be null. -/
theorem follow_marks {α : Type} (nullable : Bool) (a : α) :
    Marks nullable (if nullable = true then (do markPanic; pure a) else pure a : LowerM α) := by
  cases nullable with
  | false => exact .pure a
  | true => exact markPanic_marks.bind_quiet fun _ => .pure a

variable {cx} {b c : Bool} {m m' : LowerM Nat}

theorem fieldThrough_marks (hm : Marks b m) (pointer : Expr) (member : String) (e : Expr) :
    Marks (b || pointer.ty.isNullable) (fieldThrough cx pointer m member e) := by
  unfold fieldThrough
  split
  · exact .throw _
  · exact (onTypes_marks _).quiet_bind fun _ => (slotFor_marks cx _ _ _).quiet_bind fun _ =>
      hm.bind fun _ => follow_marks _ _

theorem readPointer_marks (hm : Marks b m) (pointer e : Expr) :
    Marks (b || pointer.ty.isNullable) (readPointer pointer m e) := by
  unfold readPointer
  split
  · exact .throw _
  · exact (check_marks _).quiet_bind fun _ => hm.bind fun _ => follow_marks _ _

theorem destructure_marks (hm : Marks b m) (base : Expr) (member : String) (e : Expr) :
    Marks b (destructure cx base m member e) := by
  unfold destructure
  split
  · exact .throw _
  · refine (onTypes_marks _).quiet_bind fun _ => (slotFor_marks cx _ _ _).quiet_bind fun _ =>
      (onTypes_marks _).quiet_bind fun slots => hm.bind_quiet fun _ => ?_
    exact (mapM_quiet (fun s : Slot => temporary_marks cx s.typ) slots).quiet_bind fun _ =>
      (note_marks cx).quiet_bind fun _ => (emit_marks _).quiet_bind fun _ => .pure _

theorem construct_marks (base : Expr) (parts : List Nat) : Marks false (construct cx base parts) :=
  (onTypes_marks _).quiet_bind fun _ => (temporary_marks cx _).quiet_bind fun _ =>
    (note_marks cx).quiet_bind fun _ => (emit_marks _).quiet_bind fun _ => .pure _

theorem readElement_marks (hm : Marks b m) (hm' : Marks c m') (array index e : Expr) :
    Marks true (readElement array index m m' e) := by
  unfold readElement
  split
  · refine (check_marks _).quiet_bind fun _ => ?_
    split
    · exact .throw _
    · have hmark : ∀ p : Nat × Nat, Marks true (do markPanic; return p : LowerM (Nat × Nat)) :=
        fun p => markPanic_marks.bind_quiet fun _ => .pure p
      exact (hm.bind fun _ => hm'.bind fun _ => hmark _).of_eq (by simp)
  · exact .throw _

/-- Reading an operand sets the flag if the operand can panic. -/
theorem read_marks (e : Expr) : Marks e.mayPanic (read cx e) := by
  induction e using read.induct with
  | case1 ty value => exact readInteger_marks cx ty value
  | case2 ty value => exact readReal_marks cx ty value
  | case3 ty name => exact (lookup_marks cx name _).quiet_bind fun _ => .pure _
  | case4 ty rty pointer member ih =>
    exact (fieldThrough_marks ih pointer member _).bind_quiet fun _ => load_marks cx _ _ _
  | case5 ty base member hdirect ih =>
    rw [read_component hdirect]
    exact (destructure_marks ih base member _).bind_quiet fun _ => .present _ _
  | case6 ty pointer ih =>
    exact (readPointer_marks ih pointer _).bind_quiet fun _ =>
      (onTypes_marks _).quiet_bind fun _ => load_marks cx _ _ _
  | case7 ty array index ih ih' =>
    exact (readElement_marks ih ih' array index _).bind_quiet fun _ =>
      (onTypes_marks _).quiet_bind fun _ => load_marks cx _ _ _
  | case8 ty value => exact .throw _

/-- Writing to an operand sets the flag if the operand can panic. -/
theorem write_marks (e : Expr) (value : Nat) : Marks e.mayPanic (write cx e value) := by
  induction e, value using write.induct with
  | case1 ty name value => exact (lookup_marks cx name _).quiet_bind fun _ => assign_marks cx _ _
  | case2 ty rty pointer member value =>
    exact (fieldThrough_marks (read_marks pointer) pointer member _).bind_quiet fun _ =>
      store_marks cx _ _ _
  | case3 ty base member value hdirect ih =>
    rw [write_component hdirect]
    refine ((destructure_marks (read_marks base) base member _).bind fun _ =>
      (Marks.present _ _).quiet_bind fun _ =>
        (construct_marks base _).quiet_bind fun _ => ih _).of_eq ?_
    exact Bool.or_self _
  | case4 ty pointer value =>
    exact (readPointer_marks (read_marks pointer) pointer _).bind_quiet fun _ =>
      store_marks cx _ _ _
  | case5 ty array index value =>
    exact (readElement_marks (read_marks array) (read_marks index) array index _).bind_quiet
      fun _ => store_marks cx _ _ _
  | case6 value ty i | case7 value ty d | case8 value ty e => exact .throw _

theorem destination_marks (e : Expr) : Marks false (destination cx e) := by
  cases e with
  | named ty name => exact (lookup_marks cx name _).quiet_bind fun _ => .pure _
  | _ => exact .pure _

theorem readAll_marks (es : List Expr) : Marks (es.any Expr.mayPanic) (es.mapM (read cx)) :=
  mapM_marks read_marks es

/-! ### Statements -/

theorem lowerOperation_marks (op : Operator) (lhs : Expr) (operands : List Expr) :
    Marks (operands.any Expr.mayPanic || lhs.mayPanic) (lowerOperation cx op lhs operands) := by
  have htypes : Marks false (operands.mapM fun e => valueType cx e.ty) :=
    mapM_quiet (fun _ => onTypes_marks _) operands
  refine htypes.quiet_bind fun types => (onTypes_marks _).quiet_bind fun result => ?_
  split
  · exact .throw _
  refine (readAll_marks operands).bind fun inputs => ?_
  rcases named_or_unnamed lhs with ⟨ty, name, rfl⟩ | hunnamed
  · refine (destination_marks _).quiet_bind fun target => ?_
    cases target with
    | some target => exact (callRoutine_marks cx _ _ _ _ _).quiet_bind fun _ => .pure _
    | none => exact (callRoutine_marks cx _ _ _ _ _).quiet_bind fun v => write_marks _ v
  · rw [destination_unnamed hunnamed, pure_bind]
    exact (callRoutine_marks cx _ _ _ _ _).quiet_bind fun v => write_marks lhs v

theorem lowerAssign_marks (op : Operator) (lhs : Expr) (operands : List Expr) :
    Marks (operands.any Expr.mayPanic || lhs.mayPanic) (lowerAssign cx op lhs operands) := by
  unfold lowerAssign
  dsimp only
  by_cases hclass : op.opClass = .pointerArithmetic
  · rw [if_pos hclass]
    exact .throw _
  rw [if_neg hclass]
  by_cases harity : operands.length = op.arity
  swap
  · rw [if_pos harity]
    exact .throw _
  rw [if_neg (not_not.2 harity)]
  refine (check_marks _).quiet_bind fun _ => (check_marks _).quiet_bind fun _ => ?_
  split
  · rename_i hcopy
    obtain rfl : op = .copy := by cases op <;> first | rfl | simp [Operator.opClass] at hcopy
    obtain ⟨source, rfl⟩ := List.length_eq_one_iff.1 harity
    refine ((read_marks source).bind fun v => write_marks lhs v).of_eq ?_
    simp
  · exact lowerOperation_marks op lhs operands

/-- The function that is called has no part in the flag. -/
theorem lowerCall_marks (function : String) (arguments : List Expr) (lhs : Option Expr) :
    Marks (arguments.any Expr.mayPanic || lhs.any Expr.mayPanic)
      (lowerCall cx function arguments lhs) := by
  unfold lowerCall
  cases cx.index.function? function with
  | none => exact .throw _
  | some callee =>
    simp only
    split
    · exact .throw _
    refine (check_marks _).quiet_bind fun _ => Marks.bind_of_ran (b := false) (check_marks _) ?_
    intro s _ s' hresult
    refine (readAll_marks arguments).bind fun inputs => ?_
    cases hret : callee.returnType with
    | none =>
      cases lhs with
      | none => exact call_marks cx _ _ _
      | some lhs => simp [check, checkResult, hret] at hresult
    | some result =>
      cases lhs with
      | none =>
        exact (onTypes_marks _).quiet_bind fun _ => (temporary_marks cx _).quiet_bind fun v =>
          call_marks cx _ _ _
      | some lhs =>
        have hwrite : Marks lhs.mayPanic (do
            let output ← temporary cx (← valueType cx lhs.ty)
            call cx (.external callee.name) inputs [output]
            write cx lhs output) :=
          (onTypes_marks _).quiet_bind fun _ => (temporary_marks cx _).quiet_bind fun v =>
            (call_marks cx _ _ _).quiet_bind fun _ => write_marks lhs v
        rcases named_or_unnamed lhs with ⟨ty, name, rfl⟩ | hunnamed
        · refine (destination_marks _).quiet_bind fun target => ?_
          cases target with
          | some target => exact call_marks cx _ _ _
          | none => exact hwrite
        · simp only [destination_unnamed hunnamed, pure_bind]
          exact hwrite

theorem addArm_marks (condition target : Nat) : Marks false (addArm cx condition target) :=
  (onDraft_marks _).quiet_bind fun _ => onDraft_marks _

theorem lowerConditional_marks (op : Operator) (operands : List Expr) (t f : Nat) :
    Marks (operands.any Expr.mayPanic) (lowerConditional cx op operands t f) := by
  unfold lowerConditional
  dsimp only
  by_cases hclass : op.opClass = .comparison
  swap
  · rw [if_pos hclass]
    exact .throw _
  rw [if_neg (not_not.2 hclass)]
  split
  · rename_i left right
    refine (check_marks _).quiet_bind fun _ => (onTypes_marks _).quiet_bind fun _ =>
      (blockFor_marks cx t).quiet_bind fun _ => (blockFor_marks cx f).quiet_bind fun _ => ?_
    refine ((read_marks left).bind fun a => (read_marks right).bind_quiet fun b => ?_).of_eq
      (by simp)
    refine (callRoutine_marks cx _ _ _ _ _).quiet_bind fun c => ?_
    refine (constant_marks cx _).quiet_bind fun o => ?_
    exact (addArm_marks _ _).quiet_bind fun _ => (addArm_marks _ _).quiet_bind fun _ => .pure _
  · exact .throw _

theorem caseCondition_marks (selector : Nat) (typ : Flo.Ty) (c : Case) :
    Marks false (caseCondition cx selector typ c) := by
  refine (check_marks _).quiet_bind fun low => (constant_marks cx _).quiet_bind fun l => ?_
  split
  · exact callRoutine_marks cx _ _ _ _ _
  · refine (check_marks _).quiet_bind fun high => (constant_marks cx _).quiet_bind fun g => ?_
    exact (callRoutine_marks cx _ _ _ _ _).quiet_bind fun a =>
      (callRoutine_marks cx _ _ _ _ _).quiet_bind fun b => callRoutine_marks cx _ _ _ _ _

theorem caseArms_marks (selector : Nat) (typ : Flo.Ty) (cases : List (Case × Nat)) :
    Marks false (caseArms cx selector typ cases) := by
  induction cases with
  | nil => exact .pure _
  | cons p cases ih =>
    obtain ⟨c, target⟩ := p
    exact (caseCondition_marks _ _ _).quiet_bind fun _ => (addArm_marks _ _).quiet_bind fun _ =>
      ih.quiet_bind fun _ => .pure _

theorem lowerSwitch_marks (value : Expr) (cases : List Case) (default : Nat) :
    Marks value.mayPanic (lowerSwitch cx value cases default) := by
  unfold lowerSwitch
  split
  · exact .throw _
  refine (onTypes_marks _).quiet_bind fun typ => (check_marks _).quiet_bind fun _ =>
    (mapM_quiet (fun c : Case => blockFor_marks cx c.block) cases).quiet_bind fun targets =>
      (blockFor_marks cx default).quiet_bind fun d => (read_marks value).bind_quiet fun v => ?_
  refine (caseArms_marks _ _ _).quiet_bind fun arms => ?_
  refine Marks.quiet_bind (b := false) ?_ fun _ => .pure _
  exact (constant_marks cx _).quiet_bind fun o => addArm_marks _ _

theorem lowerReturn_marks (value : Option Expr) :
    Marks (value.any Expr.mayPanic) (lowerReturn cx value) := by
  unfold lowerReturn
  split
  · exact .pure _
  · exact .throw _
  · exact .throw _
  · rename_i value _
    refine (check_marks _).quiet_bind fun _ => (check_marks _).quiet_bind fun _ =>
      (read_marks value).bind_quiet fun v => ?_
    cases cx.returnSlot with
    | none => exact .throw _
    | some slot => exact (assign_marks cx _ _).quiet_bind fun _ => .pure _

/-- A statement sets the flag if one of its operands can panic. -/
theorem lowerStatement_marks (stmt : Statement) :
    Marks stmt.mayPanic (lowerStatement cx stmt) := by
  cases stmt with
  | assign op lhs operands line =>
    exact (lowerAssign_marks op lhs operands).bind_quiet fun _ => .pure _
  | call function arguments lhs line =>
    exact (lowerCall_marks function arguments lhs).bind_quiet fun _ => .pure _
  | conditional op operands t f line =>
    exact (lowerConditional_marks op operands t f).bind_quiet fun _ => .pure _
  | ret value line => exact (lowerReturn_marks value).bind_quiet fun _ => .pure _
  | goto target line => exact (blockFor_marks cx target).quiet_bind fun _ => .pure _
  | switch value cases default line =>
    exact (lowerSwitch_marks value cases default).bind_quiet fun _ => .pure _

/-! ### Blocks -/

theorem lowerStatements_marks (block position : Nat) (stmts : List Statement) :
    Marks (stmts.any Statement.mayPanic) (lowerStatements cx block position stmts) := by
  induction stmts generalizing position with
  | nil => exact .pure _
  | cons stmt rest ih =>
    refine Marks.bind (.mapError ?_) fun exit => ?_
    · split
      · exact .throw _
      · exact lowerStatement_marks stmt
    · split
      · rename_i hrest
        rw [List.isEmpty_iff.1 hrest]
        exact .pure _
      · exact ih (position + 1)

theorem fallThrough_marks (block : Nat) :
    Marks ((cx.function.blockAfter? block).isNone && cx.function.returnType.isSome)
      (fallThrough cx block) := by
  unfold fallThrough
  cases cx.function.blockAfter? block with
  | some next => exact (blockFor_marks cx _).quiet_bind fun _ => .pure _
  | none =>
    cases cx.function.returnType with
    | none => exact .pure _
    | some ty => exact markPanic_marks.bind_quiet fun _ => .pure _

/-- A block sets the flag if it can panic. -/
theorem lowerBlock_marks {S : Ty → Prop} {s s' : State} (hx : cx.index.Closed S)
    (hstmts : ∀ b ∈ cx.function.blocks, ∀ stmt ∈ b.statements, Belongs cx S stmt)
    (h : s.Inv (cx.setting S)) {index : Nat} {row : Flo.Block}
    (hr : (lowerBlock cx index).Ran s row s') :
    s'.canPanic = (s.canPanic || cx.function.mayPanicAt index) := by
  unfold lowerBlock at hr
  cases hblock : cx.function.block? index with
  | none => simp [hblock, Lowering.locate] at hr
  | some block =>
    simp only [hblock, Build.ran_bind, Build.ran_step] at hr
    obtain ⟨_, s₀, ⟨-, rfl⟩, exit, s₁, hr₁, hr⟩ := hr
    obtain ⟨-, h₀⟩ : s.Grows { s with body := [] } ∧ State.Inv (cx.setting S)
        { s with body := [] } := h.of_eq rfl rfl rfl rfl rfl
    obtain ⟨hexit, -⟩ := lowerStatements_ran hx
      (hstmts block (List.mem_of_find?_eq_some hblock)) h₀ hr₁
    have hmarks := lowerStatements_marks _ _ _ _ _ _ hr₁
    have hat : cx.function.mayPanicAt index =
        (block.statements.any Statement.mayPanic || cx.function.missesReturn index block) := by
      rw [Function.mayPanicAt, hblock]
      rfl
    rw [hat, Function.missesReturn, ← hexit, ← Bool.or_assoc, ← hmarks]
    cases exit with
    | some exit =>
      simp only [Build.ran_bind, Build.ran_pure, Build.ran_get] at hr
      obtain ⟨_, _, ⟨rfl, rfl⟩, _, _, ⟨rfl, rfl⟩, rfl, rfl⟩ := hr
      simp
    | none =>
      simp only [Build.ran_bind, Build.ran_pure, Build.ran_get, Lowering.locate,
        Build.ran_mapError] at hr
      obtain ⟨exit', s₂, hfall, _, _, ⟨rfl, rfl⟩, rfl, rfl⟩ := hr
      rw [fallThrough_marks index _ _ _ hfall]
      simp

/-! ### Functions -/

/-- Nothing can panic before the blocks are lowered. -/
theorem prepare_marks (x : UnitIndex) (ps : Polyfills) (f : Function) :
    Marks false (prepare x ps f) := by
  refine (check_marks _).quiet_bind fun _ => ?_
  have hvariables : Marks false (declareVariables x f) := by
    refine (mapM_quiet (fun p : Declaration => (declare_marks x f.name none p.name p.ty
      .parameter).quiet_bind fun _ => .pure _) f.parameters).quiet_bind fun _ => ?_
    have hresult : Marks false (f.returnType.mapM fun ty => do
        return (← create x none returnSlotName ty .returnSlot).id : LowerM (Option Nat)) := by
      cases f.returnType with
      | none => exact .pure _
      | some ty =>
        exact ((create_marks _ _ _ _ _).quiet_bind fun _ => .pure _).quiet_bind fun _ => .pure _
    refine hresult.quiet_bind fun _ => Marks.quiet_bind ?_ fun _ => .pure _
    refine forM_quiet (fun v : Declaration => ?_) f.locals
    exact (declare_marks _ _ _ _ _ _).quiet_bind fun _ => .pure _
  exact hvariables.quiet_bind fun _ => (blockFor_marks _ _).quiet_bind fun _ => .pure _

end Lowering

end GimpleLowering

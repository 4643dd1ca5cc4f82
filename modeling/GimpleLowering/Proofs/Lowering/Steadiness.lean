import GimpleLowering.Proofs.Lowering.Survival
import GimpleLowering.Proofs.Lowering.Twins

/-!
# Lowering functions from different types

Every part of a function is lowered in the same way from twins. No decision on the way depends on
what was registered: an operation looks for a routine by what its operands are and not by their
ids, and a layout that another function has left behind is the layout that would have been computed.

## Main definitions

* `Lowering.Matching` — failures of one kind at one statement
* `Lowering.Parallel` — outcomes with types that are alike, or failures that match

## Main results

* `Lowering.read_steady`, `write_steady` — operands
* `Lowering.lowerStatement_steady`, `lowerBlock_steady` — statements and blocks
* `Lowering.lowerAll_steady` — whole functions
* `Lowering.lowerFunction_parallel` — a function has the same outcome from any types
-/

namespace GimpleLowering.Lowering

open Gimple Layout
open Build (Comparison)
open Build.Comparison (Same)

variable {x : UnitIndex} {q q' : State} {cx : Context} {typ typ' : Flo.Ty}

/-! ### Constants -/

theorem fits_eq (h : q.Alike q' typ typ') : fits typ = fits typ' := by
  cases h <;> rfl

/-- An integer becomes the same constant, or it is refused. -/
theorem integerConstant_inStep (h : q.Alike q' typ typ') (value : Int) :
    (lowering x).InStep q q'
      (fun s s' c c' => c.value = c'.value ∧ s.Alike s' c.typ c'.typ)
      (check (integerConstant typ value)) (check (integerConstant typ' value)) := by
  by_cases hint : typ.isInteger
  · obtain rfl : typ = typ' := by cases h <;> first | rfl | cases hint
    cases hc : integerConstant typ value with
    | error e => exact .throw rfl
    | ok c =>
      rw [← typ_of_integerConstant hc] at h
      exact .pure fun s s' hs hs' _ => ⟨rfl, h.mono hs hs'⟩
  · have hint' : ¬ typ'.isInteger := Layout.Alike.isInteger_eq h ▸ hint
    rw [integerConstant, integerConstant, if_pos (by simpa using hint), if_pos (by simpa using hint')]
    exact .throw rfl

theorem constantOf_inStep {c c' : Flo.Constant} (hv : c.value = c'.value)
    (h : q.Alike q' c.typ c'.typ) :
    (lowering x).InStep q q' Same (constant cx c) (constant cx c') := by
  obtain ⟨value, typ⟩ := c
  obtain ⟨value', typ'⟩ := c'
  obtain rfl : value = value' := hv
  exact constant_inStep cx h value

theorem readInteger_steady (ty : Ty) (value : Int) :
    (lowering cx.index).Steady (readInteger cx ty value) := by
  intro q q'
  cases ty with
  | integer width =>
    refine (valueType_inStep _).bind fun s s' typ typ' _ _ h => ?_
    exact (integerConstant_inStep h value).bind fun t t' c c' _ _ hc => constantOf_inStep hc.1 hc.2
  | boolean => exact constant_ofBool_steady cx _ q q'
  | real width => exact constant_ofDouble_steady cx _ q q'
  | pointer base =>
    simp only [readInteger]
    split
    · exact (valueType_inStep _).bind fun s s' typ typ' _ _ h => constant_inStep cx h 0
    · exact .throw rfl
  | reference base =>
    simp only [readInteger]
    split
    · exact .throw rfl
    · exact .throw rfl
  | array base length => exact .throw rfl
  | record name fields => exact .throw rfl

theorem readReal_steady (ty : Ty) (value : Double) :
    (lowering cx.index).Steady (readReal cx ty value) := by
  intro q q'
  refine (valueType_inStep ty).bind fun s s' typ typ' _ _ h => ?_
  have hdouble : typ = .double ↔ typ' = .double := Layout.Alike.eq_double_iff h
  simp only [ne_eq, hdouble]
  split
  · exact .throw rfl
  · exact constant_ofDouble_steady cx value s s'

/-! ### Parts -/

section

variable {struct struct' : Nat}

theorem slotFor_inStep (h : SameStruct q.types q'.types struct struct') (member : String)
    (e : Expr) :
    (lowering cx.index).InStep q q' (fun s s' => Slot.Alike s.types s'.types)
      (slotFor cx struct member e) (slotFor cx struct' member e) := by
  refine (onTypes_inStep (slotOf_inStep h member)).bind fun s s' slot slot' hs hs' hslot => ?_
  refine (onTypes_inStep (recordOf_inStep (h.mono hs hs'))).bind_same fun record => ?_
  rw [hslot.name, hslot.ty]
  exact (check_steady _ s s').bind_same fun _ => .pure fun t t' ht ht' _ => hslot.mono ht ht'

/-- A number that does not depend on the types, and a field. -/
def SlotWith {α : Type} (s s' : State) (p p' : α × Slot) : Prop :=
  p.1 = p'.1 ∧ p.2.Alike s.types s'.types p'.2

theorem fieldThrough_inStep (pointer : Expr) {readPointer : LowerM Nat}
    (hp : (lowering cx.index).Steady readPointer) (member : String) (e : Expr) :
    (lowering cx.index).InStep q q' SlotWith (fieldThrough cx pointer readPointer member e)
      (fieldThrough cx pointer readPointer member e) := by
  unfold fieldThrough
  cases pointer.ty.indirectBase.filter Ty.isRecord with
  | none => exact .throw rfl
  | some record =>
    refine (onTypes_inStep (resolveHandle_inStep record)).bind fun s s' struct struct' _ _ hid => ?_
    refine (slotFor_inStep hid member e).bind fun t t' slot slot' _ _ hslot => ?_
    refine (hp t t').bind_same fun handle => ?_
    have hpair : (lowering cx.index).InStep t t' SlotWith (pure (handle, slot))
        (pure (handle, slot')) := .pure fun u u' hu hu' _ => ⟨rfl, hslot.mono hu hu'⟩
    split
    · exact (markPanic_steady t t').bind_same fun _ => hpair
    · exact hpair

theorem destructure_inStep (base : Expr) {readBase : LowerM Nat}
    (hb : (lowering cx.index).Steady readBase) (member : String) (e : Expr) :
    (lowering cx.index).InStep q q' SlotWith (destructure cx base readBase member e)
      (destructure cx base readBase member e) := by
  unfold destructure
  split
  · exact .throw rfl
  refine (onTypes_inStep (resolve_inStep base.ty)).bind fun s s' struct struct' _ _ hid => ?_
  refine (slotFor_inStep hid member e).bind fun t t' slot slot' ht ht' hslot => ?_
  refine (onTypes_inStep (slotsOf_inStep (hid.mono ht ht'))).bind
    fun u u' slots slots' hu hu' hslots => ?_
  refine (hb u u').bind_same fun whole => ?_
  have hparts : (lowering cx.index).InStep u u' Same (slots.mapM fun s => temporary cx s.typ)
      (slots'.mapM fun s => temporary cx s.typ) :=
    .mapM_same (hslots.imp fun _ _ h => temporary_inStep cx h.typ)
  refine hparts.bind_same fun parts => (note_steady cx u u').bind_same fun note => ?_
  refine (emit_steady ?_ u u').bind_same fun _ => .pure fun v v' hv hv' _ => ?_
  · nofun
  · exact ⟨rfl, hslot.mono (hu.trans hv) (hu'.trans hv')⟩

end

theorem construct_steady (base : Expr) (parts : List Nat) :
    (lowering cx.index).Steady (construct cx base parts) := by
  intro q q'
  refine (onTypes_inStep (resolve_inStep base.ty)).bind fun s s' struct struct' _ _ hid => ?_
  refine (temporary_inStep cx (.struct hid)).bind_same fun target => ?_
  refine (note_steady cx s s').bind_same fun note => ?_
  refine (emit_steady ?_ s s').bind_same fun _ => .pure fun _ _ _ _ _ => rfl
  nofun

theorem readPointer_steady {pointer : Expr} {read : LowerM Nat} (hp : (lowering x).Steady read)
    (e : Expr) : (lowering x).Steady (readPointer pointer read e) := by
  unfold readPointer
  cases pointer.ty.indirectBase with
  | none => exact .throw rfl
  | some pointee =>
    refine (check_steady _).bind fun _ => hp.bind fun handle => ?_
    split
    · exact markPanic_steady.bind fun _ => .pure _
    · exact .pure _

theorem readElement_steady {array index : Expr} {readArray readIndex : LowerM Nat}
    (ha : (lowering x).Steady readArray) (hi : (lowering x).Steady readIndex) (e : Expr) :
    (lowering x).Steady (readElement array index readArray readIndex e) := by
  unfold readElement
  split
  · refine (check_steady _).bind fun _ => ?_
    split
    · exact .throw rfl
    · exact ha.bind fun _ => hi.bind fun _ => markPanic_steady.bind fun _ => .pure _
  · exact .throw rfl

/-! ### Reading and writing -/

/-- What is found under a name is the same variable. -/
theorem lookup_bind_steady {α : Type} (name : String) (e : Expr) {f : Nat → LowerM α}
    (hf : ∀ id, (lowering cx.index).Steady (f id)) :
    (lowering cx.index).Steady (do f (← lookup cx name e).id) := by
  intro q q'
  refine (lookup_inStep name e).bind fun s s' v v' _ _ hv => ?_
  simp only [Var.known, Prod.mk.injEq] at hv
  rw [hv.2.2]
  exact hf _ s s'

/-- A load of a value of a type. -/
theorem load_valueType_steady (handle : Nat) (member : Flo.Member) (ty : Ty) :
    (lowering cx.index).Steady (do load cx handle member (← valueType cx ty)) :=
  fun _ _ => (valueType_inStep ty).bind fun _ _ _ _ _ _ h => load_inStep cx handle member h

/-- An operand is read in the same way. -/
theorem read_steady (e : Expr) : (lowering cx.index).Steady (read cx e) := by
  fun_induction read cx e with
  | case1 ty value => exact readInteger_steady ty value
  | case2 ty value => exact readReal_steady ty value
  | case3 ty name => exact lookup_bind_steady (f := pure) name _ fun _ => .pure _
  | case4 ty rty pointer member ih =>
    intro q q'
    refine (fieldThrough_inStep pointer ih member _).bind fun s s' p p' _ _ hp => ?_
    obtain ⟨handle, slot⟩ := p
    obtain ⟨handle', slot'⟩ := p'
    obtain ⟨rfl, hslot⟩ : handle = handle' ∧ slot.Alike s.types s'.types slot' := hp
    simp only [Slot.member, hslot.index]
    exact load_inStep cx handle _ hslot.typ
  | case5 ty base member hbase ih =>
    intro q q'
    refine (destructure_inStep base ih member _).bind fun s s' p p' _ _ hp => ?_
    obtain ⟨parts, slot⟩ := p
    obtain ⟨parts', slot'⟩ := p'
    obtain ⟨rfl, hslot⟩ : parts = parts' ∧ slot.Alike s.types s'.types slot' := hp
    simp only [hslot.index]
    exact Comparison.Steady.present _ _ s s'
  | case6 ty pointer ih =>
    exact (readPointer_steady ih _).bind fun _ => load_valueType_steady _ _ ty
  | case7 ty array index iha ihi =>
    exact (readElement_steady iha ihi _).bind fun _ => load_valueType_steady _ _ ty
  | case8 ty value => exact .throw rfl

/-- A target is written in the same way. -/
theorem write_steady (e : Expr) (value : Nat) : (lowering cx.index).Steady (write cx e value) := by
  fun_induction write cx e value with
  | case1 ty name value =>
    exact lookup_bind_steady (f := fun id => assign cx id value) name _ fun _ =>
      assign_steady cx _ _
  | case2 ty rty pointer member value =>
    intro q q'
    refine (fieldThrough_inStep pointer (read_steady pointer) member _).bind
      fun s s' p p' _ _ hp => ?_
    obtain ⟨handle, slot⟩ := p
    obtain ⟨handle', slot'⟩ := p'
    obtain ⟨rfl, hslot⟩ : handle = handle' ∧ slot.Alike s.types s'.types slot' := hp
    simp only [Slot.member, hslot.index]
    exact store_steady cx handle _ value s s'
  | case3 ty base member value hbase ih =>
    intro q q'
    refine (destructure_inStep base (read_steady base) member _).bind fun s s' p p' _ _ hp => ?_
    obtain ⟨parts, slot⟩ := p
    obtain ⟨parts', slot'⟩ := p'
    obtain ⟨rfl, hslot⟩ : parts = parts' ∧ slot.Alike s.types s'.types slot' := hp
    simp only [hslot.index]
    exact (Comparison.Steady.present _ _ s s').bind_same fun _ =>
      (construct_steady base _ s s').bind_same fun v => ih v s s'
  | case4 ty pointer value =>
    exact (readPointer_steady (read_steady pointer) _).bind fun _ => store_steady cx _ _ _
  | case5 ty array index value =>
    exact (readElement_steady (read_steady array) (read_steady index) _).bind fun _ =>
      store_steady cx _ _ _
  | case6 | case7 | case8 => exact .throw rfl

theorem destination_steady (e : Expr) : (lowering cx.index).Steady (destination cx e) := by
  unfold destination
  split
  · exact lookup_bind_steady (f := fun id => pure (some id)) _ _ fun _ => .pure _
  · exact .pure _

/-! ### Statements -/

theorem lowerOperation_steady (op : Operator) (lhs : Expr) (operands : List Expr) :
    (lowering cx.index).Steady (lowerOperation cx op lhs operands) := by
  intro q q'
  have htypes : (lowering cx.index).InStep q q' (fun s s' => List.Forall₂ (s.Alike s'))
      (operands.mapM fun e => valueType cx e.ty) (operands.mapM fun e => valueType cx e.ty) :=
    .mapM (fun _ _ _ _ _ _ hs hs' h => h.mono hs hs')
      (List.forall₂_same.2 fun e _ => valueType_inStep e.ty)
  refine htypes.bind fun s s' types types' _ _ htypes => ?_
  refine (valueType_inStep lhs.ty).bind fun t t' result result' ht ht' hresult => ?_
  have htypes := htypes.imp fun _ _ h => State.Alike.mono h ht ht'
  rw [forOperation?_eq cx.polyfills op htypes hresult]
  split
  · exact .throw rfl
  refine (Comparison.Steady.mapM _ (fun e _ => read_steady e) t t').bind_same
    fun inputs => (destination_steady lhs t t').bind_same fun target => ?_
  cases target with
  | some target =>
    exact (callRoutine_inStep op inputs htypes hresult _).bind_same fun _ =>
      .pure fun _ _ _ _ _ => rfl
  | none =>
    exact (callRoutine_inStep op inputs htypes hresult _).bind_same fun v =>
      write_steady lhs v t t'

theorem lowerAssign_steady (op : Operator) (lhs : Expr) (operands : List Expr) :
    (lowering cx.index).Steady (lowerAssign cx op lhs operands) := by
  unfold lowerAssign
  dsimp only
  split
  · exact .throw rfl
  split
  · exact .throw rfl
  refine (check_steady _).bind fun _ => (check_steady _).bind fun _ => ?_
  split
  · exact (Comparison.Steady.present 0 _).bind fun source =>
      (read_steady source).bind fun v => write_steady lhs v
  · exact lowerOperation_steady op lhs _

theorem temporary_valueType_bind_steady {α : Type} (ty : Ty) {f : Nat → LowerM α}
    (hf : ∀ id, (lowering cx.index).Steady (f id)) :
    (lowering cx.index).Steady (do f (← temporary cx (← valueType cx ty))) :=
  fun _ _ => (valueType_inStep ty).bind fun s s' _ _ _ _ h =>
    (temporary_inStep cx h).bind_same fun id => hf id s s'

theorem lowerCall_steady (function : String) (arguments : List Expr) (lhs : Option Expr) :
    (lowering cx.index).Steady (lowerCall cx function arguments lhs) := by
  unfold lowerCall
  cases cx.index.function? function with
  | none => exact .throw rfl
  | some callee =>
    simp only
    split
    · exact .throw rfl
    refine (check_steady _).bind fun _ => (check_steady _).bind fun _ => ?_
    refine (Comparison.Steady.mapM arguments fun e _ => read_steady e).bind fun inputs => ?_
    split
    · rename_i lhs _
      refine (destination_steady lhs).bind fun target => ?_
      cases target with
      | some target => exact call_steady cx _ _ _
      | none =>
        exact temporary_valueType_bind_steady lhs.ty fun v =>
          (call_steady cx _ _ _).bind fun _ => write_steady lhs v
    · exact temporary_valueType_bind_steady _ fun v => call_steady cx _ _ _
    · exact call_steady cx _ _ _

/-! ### Branches -/

theorem addArm_steady (condition target : Nat) :
    (lowering x).Steady (addArm cx condition target) :=
  (location_steady cx).bind fun _ => onDraft_steady fun hd => hd.addMatchArm ..

theorem addDefaultArm_steady (target : Nat) : (lowering x).Steady (addDefaultArm cx target) :=
  (constant_ofBool_steady cx true).bind fun _ => addArm_steady _ _

theorem lowerConditional_steady (op : Operator) (operands : List Expr) (t f : Nat) :
    (lowering cx.index).Steady (lowerConditional cx op operands t f) := by
  unfold lowerConditional
  dsimp only
  split
  · exact .throw rfl
  split
  · rename_i left right
    refine (check_steady _).bind fun _ => ?_
    intro q q'
    refine (valueType_inStep left.ty).bind fun s s' typ typ' _ _ h => ?_
    refine (blockFor_steady t s s').bind_same fun _ => (blockFor_steady f s s').bind_same
      fun _ => (read_steady left s s').bind_same fun _ => (read_steady right s s').bind_same
      fun _ => ?_
    refine (callRoutine_inStep op _ (.cons h (.cons h .nil)) .bool none).bind_same fun _ => ?_
    refine (constant_ofBool_steady cx true s s').bind_same fun _ => ?_
    exact ((addArm_steady _ _).bind fun _ => (addArm_steady _ _).bind fun _ => .pure _) s s'
  · exact .throw rfl

theorem caseCondition_inStep (selector : Nat) (c : Case) (h : q.Alike q' typ typ') :
    (lowering x).InStep q q' Same (caseCondition cx selector typ c)
      (caseCondition cx selector typ' c) := by
  refine (integerConstant_inStep h c.low).bind fun s s' low low' hs hs' hlow => ?_
  have h := h.mono hs hs'
  refine (constantOf_inStep hlow.1 hlow.2).bind_same fun low => ?_
  split
  · exact callRoutine_inStep _ _ (.cons h (.cons h .nil)) .bool none
  refine (integerConstant_inStep h c.upper).bind fun t t' high high' ht ht' hhigh => ?_
  have h := h.mono ht ht'
  refine (constantOf_inStep hhigh.1 hhigh.2).bind_same fun high => ?_
  refine (callRoutine_inStep _ _ (.cons h (.cons h .nil)) .bool none).bind_same fun above => ?_
  refine (callRoutine_inStep _ _ (.cons h (.cons h .nil)) .bool none).bind_same fun below => ?_
  exact callRoutine_inStep _ _ (.cons .bool (.cons .bool .nil)) .bool none

theorem caseArms_inStep (selector : Nat) (cases : List (Case × Nat)) (h : q.Alike q' typ typ') :
    (lowering x).InStep q q' Same (caseArms cx selector typ cases)
      (caseArms cx selector typ' cases) := by
  induction cases with
  | nil => exact .pure fun _ _ _ _ _ => rfl
  | cons p cases ih =>
    obtain ⟨c, target⟩ := p
    refine (caseCondition_inStep selector c h).bind_same fun condition => ?_
    exact (addArm_steady _ _ q q').bind_same fun arm => ih.bind_same fun arms =>
      .pure fun _ _ _ _ _ => rfl

/-- The labels of a switch are checked in the same way. -/
theorem validateCases_eq (value : Expr) (earlier cases : List Case) (h : q.Alike q' typ typ') :
    validateCases value typ earlier cases = validateCases value typ' earlier cases := by
  induction cases generalizing earlier with
  | nil => rfl
  | cons c rest ih =>
    rw [validateCases, validateCases, validateCase, validateCase, fits_eq h]
    simp only [ih]

theorem lowerSwitch_steady (value : Expr) (cases : List Case) (default : Nat) :
    (lowering cx.index).Steady (lowerSwitch cx value cases default) := by
  intro q q'
  unfold lowerSwitch
  split
  · exact .throw rfl
  refine (valueType_inStep value.ty).bind fun s s' typ typ' _ _ h => ?_
  rw [validateCases_eq value [] cases h]
  refine (check_steady _ s s').bind_same fun _ => ?_
  refine (Comparison.Steady.mapM cases (fun c _ => blockFor_steady c.block) s s').bind_same
    fun targets => (blockFor_steady default s s').bind_same fun d =>
    (read_steady value s s').bind_same fun selector => ?_
  refine (caseArms_inStep selector _ h).bind_same fun arms => ?_
  exact ((addDefaultArm_steady d).bind fun _ => .pure _) s s'

theorem lowerReturn_steady (value : Option Expr) :
    (lowering cx.index).Steady (lowerReturn cx value) := by
  unfold lowerReturn
  split
  · exact .pure _
  · exact .throw rfl
  · exact .throw rfl
  · refine (check_steady _).bind fun _ => (check_steady _).bind fun _ => ?_
    refine (read_steady _).bind fun v => ?_
    cases cx.returnSlot with
    | none => exact .throw rfl
    | some slot => exact (assign_steady cx _ _).bind fun _ => .pure _

/-- A statement is lowered in the same way. -/
theorem lowerStatement_steady (stmt : Statement) :
    (lowering cx.index).Steady (lowerStatement cx stmt) := by
  cases stmt with
  | assign op lhs operands line => exact (lowerAssign_steady op lhs operands).bind fun _ => .pure _
  | call function arguments lhs line =>
    exact (lowerCall_steady function arguments lhs).bind fun _ => .pure _
  | conditional op operands t f line =>
    exact (lowerConditional_steady op operands t f).bind fun _ => .pure _
  | ret value line => exact (lowerReturn_steady value).bind fun _ => .pure _
  | goto target line => exact (blockFor_steady target).bind fun _ => .pure _
  | switch value cases default line =>
    exact (lowerSwitch_steady value cases default).bind fun _ => .pure _

/-! ### Blocks and functions -/

/-- The failures are of one kind, at one statement of one function. -/
structure Matching (f f' : Failure) : Prop where
  function : f.function = f'.function
  location : f.location = f'.location
  kind : f.error.kind = f'.error.kind

/-- Twins, with failures that match. -/
abbrev translation (x : UnitIndex) : Comparison State Failure := (lowering x).withErrors Matching

theorem locate_steady {α : Type} {m : LowerM α} (h : (lowering x).Steady m)
    (block statement : Nat) (line : Option Nat) :
    (translation x).Steady (locate cx block statement line m) :=
  h.mapError fun _ _ he => ⟨rfl, rfl, he⟩

theorem lowerStatements_steady (block position : Nat) (stmts : List Statement) :
    (translation cx.index).Steady (lowerStatements cx block position stmts) := by
  induction stmts generalizing position with
  | nil => exact .pure _
  | cons stmt rest ih =>
    refine (locate_steady ?_ block position stmt.line).bind fun exit => ?_
    · split
      · exact .throw rfl
      · exact @lowerStatement_steady { cx with line := stmt.line } stmt
    · split
      · exact .pure _
      · exact ih (position + 1)

theorem fallThrough_steady (block : Nat) : (lowering x).Steady (fallThrough cx block) := by
  unfold fallThrough
  cases cx.function.blockAfter? block with
  | some next => exact (blockFor_steady _).bind fun _ => .pure _
  | none =>
    simp only
    split
    · exact .pure _
    · exact markPanic_steady.bind fun _ => .pure _

/-- A block is lowered in the same way. -/
theorem lowerBlock_steady (index : Nat) : (translation cx.index).Steady (lowerBlock cx index) := by
  have hget : ∀ exit : Flo.BlockExit, (translation cx.index).Steady
      (do return (⟨none, .usable, (← get).body, exit, []⟩ : Flo.Block)) := fun exit =>
    .get_bind fun s s' hs => .pure fun _ _ _ _ _ => by rw [Same, hs.body]
  unfold lowerBlock
  cases cx.function.block? index with
  | none => exact locate_steady (.throw rfl) _ _ _
  | some block =>
    refine Comparison.Steady.bind (.step fun s s' hs =>
      ⟨.refl _, .refl _, { hs with body := rfl }, rfl⟩) fun _ => ?_
    refine (lowerStatements_steady index 0 block.statements).bind fun exit => ?_
    cases exit with
    | some exit => exact Comparison.Steady.bind (.pure exit) hget
    | none =>
      exact (locate_steady (fallThrough_steady index) _ _ _).bind hget

theorem fill_steady {ε : Type} (E : ε → ε → Prop) (id : Nat) (block : Flo.Block) :
    ((lowering x).withErrors E).Steady (fill id block) := by
  intro q q' s s' _ _ hs p p' hp hp'
  rw [fill_eq_ok hp, fill_eq_ok hp']
  exact .ok (.refl _) (.refl _) { hs with draft := hs.draft.fillBlock id block } rfl

theorem lowerPending_steady (fuel : Nat) : (translation cx.index).Steady (lowerPending cx fuel) := by
  induction fuel with
  | zero => exact .pure _
  | succ fuel ih =>
    refine .get_bind fun s s' hs => ?_
    rw [hs.pending]
    split
    · exact .pure fun _ _ _ _ _ => rfl
    · rename_i index id pending _
      refine Comparison.InStep.bind_same (.step fun t t' _ _ ht =>
        ⟨.refl _, .refl _, { ht with pending := rfl }, rfl⟩) fun _ => ?_
      refine (lowerBlock_steady index s s').bind_same fun block => ?_
      exact (fill_steady _ id block s s').bind_same fun _ => ih s s'

/-- The id of a variable does not depend on the types. -/
theorem declare_id_steady (function : String) (line : Option Nat) (name : String) (ty : Ty)
    (usage : Usage) :
    (lowering x).Steady (do return (← declare x function line name ty usage).id) := fun _ _ =>
  (declare_inStep function line name ty usage).bind fun _ _ _ _ _ _ hv =>
    .pure fun _ _ _ _ _ => congrArg (fun k : String × Ty × Nat => k.2.2) hv

theorem create_id_steady (line : Option Nat) (name : String) (ty : Ty) (usage : Usage) :
    (lowering x).Steady (do return (← create x line name ty usage).id) := fun _ _ =>
  (create_inStep line name ty usage).bind fun _ _ _ _ _ _ hv =>
    .pure fun _ _ _ _ _ => congrArg (fun k : String × Ty × Nat => k.2.2) hv

theorem declareVariables_steady (f : Function) : (lowering x).Steady (declareVariables x f) := by
  refine (Comparison.Steady.mapM _ fun p _ => declare_id_steady _ _ _ _ _).bind
    fun parameters => Comparison.Steady.bind ?_ fun slot =>
    (Comparison.Steady.forM _ fun v _ => ?_).bind fun _ => .pure _
  · cases f.returnType with
    | none => exact .pure _
    | some ty =>
      exact Comparison.Steady.bind (create_id_steady none returnSlotName ty .returnSlot)
        fun id => .pure (some id)
  · exact fun _ _ => (declare_inStep _ _ _ _ _).bind fun _ _ _ _ _ _ _ =>
      .pure fun _ _ _ _ _ => rfl

/-- The surroundings of the statements are those of the unit. -/
theorem prepare_inStep (ps : Polyfills) (f : Function) :
    (lowering x).InStep q q' (fun _ _ p p' => p = p' ∧ p.1.index = x) (prepare x ps f)
      (prepare x ps f) :=
  (check_steady _ q q').bind_same fun _ => (declareVariables_steady f q q').bind_same fun _ =>
    (blockFor_steady _ q q').bind_same fun _ => .pure fun _ _ _ _ _ => ⟨rfl, rfl⟩

theorem finish_steady (parameters : List Nat) (entry : Nat) :
    (lowering x).Steady (finish cx parameters entry) := by
  refine (onDraft_steady fun hd => hd.locate (firstLine cx.function)).bind fun location => ?_
  refine .get_bind fun s s' hs => ?_
  rw [hs.draft.blocks_eq]
  refine (Comparison.Steady.present entry _ s s').bind_same fun block => ?_
  refine Comparison.InStep.get_bind fun t t' _ _ ht => ?_
  rw [ht.canPanic]
  refine (fill_steady (lowering x).errors entry _ t t').bind_same fun _ => ?_
  exact .step fun u u' _ _ hu =>
    ⟨.refl _, .refl _, { hu with draft := hu.draft.exportBlock cx.function.name entry }, rfl⟩

/-- A function is lowered in the same way from any types. -/
theorem lowerAll_steady (ps : Polyfills) (f : Function) :
    (translation x).Steady (lowerAll x ps f) := by
  intro q q'
  refine ((prepare_inStep ps f).mapError fun _ _ he => ⟨rfl, rfl, he⟩).bind
    fun s s' p p' _ _ hp => ?_
  obtain ⟨rfl, rfl⟩ := hp
  refine Comparison.InStep.bind_same (lowerPending_steady f.blocks.length s s') fun _ => ?_
  exact locate_steady (finish_steady p.2.1 p.2.2) f.entryBlock 0 none s s'

/-! ### Outcomes -/

/-- Two outcomes for a function: objects whose types are alike, or failures that match. -/
inductive Parallel (r r' : Registry) : Except Failure Flo.Object → Except Failure Flo.Object → Prop
    where
  | ok {d d' : Flo.Draft} (h : d.Twins (Layout.Alike r r') d') :
      Parallel r r' (.ok d.object) (.ok d'.object)
  | error {f f' : Failure} (h : Matching f f') : Parallel r r' (.error f) (.error f')

theorem Parallel.mono {r r' t t' : Registry} {res res' : Except Failure Flo.Object}
    (h : Parallel r r' res res') (hg : r.Grows t) (hg' : r'.Grows t') : Parallel t t' res res' := by
  cases h with
  | ok h => exact .ok (h.imp fun _ _ ha => ha.mono hg hg')
  | error h => exact .error h

theorem State.Twins.initial {r r' : Registry} (hr : r.Sound x fun _ => True)
    (hr' : r'.Sound x fun _ => True) (function source : String) :
    State.Twins x (.initial r function source) (.initial r' function source) :=
  ⟨hr, hr', Flo.Draft.Twins.empty .unspecified function source, rfl, rfl, rfl, rfl, rfl, rfl⟩

/-- A function has the same outcome from any types. -/
theorem lowerFunction_parallel {ps : Polyfills} {source : String} {f : Function}
    {r r' t t' : Registry} {res res' : Except Failure Flo.Object}
    (hr : r.Sound x fun _ => True) (hr' : r'.Sound x fun _ => True)
    (h : (lowerFunction x ps source f).runOn r = .ok (res, t))
    (h' : (lowerFunction x ps source f).runOn r' = .ok (res', t')) : Parallel t t' res res' := by
  obtain ⟨p, s, hrun, rfl, rfl⟩ := lowerFunction_eq_ok h
  obtain ⟨p', s', hrun', rfl, rfl⟩ := lowerFunction_eq_ok h'
  have htwins : (translation x).twins (.initial r f.name source) (.initial r' f.name source) :=
    State.Twins.initial hr hr' f.name source
  have hends := lowerAll_steady ps f _ _ _ _ ((translation x).refl _) ((translation x).refl _)
    htwins _ _ hrun hrun'
  cases hends with
  | ok _ _ twins _ => exact .ok twins.draft
  | error hmatching => exact .error hmatching

end GimpleLowering.Lowering

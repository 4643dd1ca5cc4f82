import GimpleLowering.Lowering.Statement
import GimpleLowering.Proofs.Lowering.Foresight
import GimpleLowering.Proofs.Lowering.Labels

/-!
# When a switch is malformed

A switch is refused for its labels before anything happens to the state: the type of an integer
selector registers nothing, and the labels are checked next. What comes after that, which is the
reading of the selector and the emission of conditions and arms, can fail in many ways, but never
for the labels of a switch. So from any state at all, whether a switch is malformed can be told
from its selector and its labels.

## Main definitions

* `Elsewhere` — a computation that is not refused for the labels of a switch
* `Gimple.Ty.integerTyp?` — the runtime type of an integer type

## Main results

* `Lowering.read_elsewhere`, `caseArms_elsewhere` — the steps after the check
* `Lowering.lowerSwitch_fails_iff` — the switches that are malformed
-/

namespace GimpleLowering

open Gimple Layout

/-- Whatever the computation is refused for, it is not the labels of a switch. -/
abbrev Elsewhere {σ α : Type} (m : Build σ Error α) : Prop :=
  m.Safe (fun _ => True) (fun _ => True) fun e => e.kind ≠ .malformedSwitch

namespace Elsewhere

variable {σ α : Type} {m : Build σ Error α}

theorem throw {e : Error} (h : (e.kind == .malformedSwitch) = false) :
    Elsewhere (MonadExcept.throw e : Build σ Error α) :=
  Build.Safe.throw (ne_of_beq_false h)

theorem step (f : σ → α × σ) : Elsewhere (Build.step f) := Build.Safe.step fun _ _ => trivial

theorem unending (record : Ty) : Elsewhere (Build.unending record : Build σ Error α) :=
  ⟨fun _ _ => .unending trivial, .unending record⟩

theorem present (index : Nat) (o : Option α) :
    Elsewhere (Build.present index o : Build σ Error α) := by
  cases o with
  | none => exact ⟨fun _ _ => ⟨fun _ => trivial, fun h => by simp at h⟩, .present index none⟩
  | some a => exact Build.Safe.pure a

theorem zoom {τ : Type} {get : τ → σ} {set : τ → σ → τ} (h : Elsewhere m) :
    Elsewhere (Build.zoom get set m) :=
  ⟨fun s _ => .zoom (h.ends (get s) trivial), fun _ _ _ _ _ => trivial⟩

end Elsewhere

/-- The runtime type of an integer type, if there is one. -/
def Gimple.Ty.integerTyp? : Ty → Option Flo.Ty
  | .integer 32 => some .signed32
  | .integer 64 => some .signed64
  | _ => none

namespace Layout

variable {x : UnitIndex}

/-! ### Types -/

theorem IsTypeError.elsewhere {e : Error} (h : IsTypeError e) : e.kind ≠ .malformedSwitch := by
  rcases h with h | h
  · rw [h]
    decide
  · rw [h]
    decide

theorem completeRecord_elsewhere (ty : Ty) : Elsewhere (completeRecord x ty) := by
  unfold completeRecord
  split
  · exact .pure _
  · exact Elsewhere.throw rfl

theorem resolveHandle_elsewhere (ty : Ty) : Elsewhere (resolveHandle x ty) :=
  (completeRecord_elsewhere ty).bind fun _ => Elsewhere.step _

theorem resolve_elsewhere (ty : Ty) : Elsewhere (resolve x ty) := by
  refine (completeRecord_elsewhere ty).bind fun record => ?_
  refine Build.Safe.bind (.ofExcept fun e he => ?_) fun _ => Elsewhere.step _
  exact (isTypeError_of_checkContained he).elsewhere

theorem indirection_elsewhere {pointee : LayoutM Representation} (h : Elsewhere pointee)
    (ty base : Ty) : Elsewhere (indirection x ty base pointee) := by
  unfold indirection
  split
  · exact (resolveHandle_elsewhere _).bind fun _ => .pure _
  · exact Elsewhere.throw rfl
  · exact Elsewhere.throw rfl
  · exact h.bind fun _ => .pure _

theorem representWith_elsewhere {slots : Nat → LayoutM (List Slot)}
    (h : ∀ id, Elsewhere (slots id)) (ty : Ty) : Elsewhere (representWith x slots ty) := by
  fun_induction representWith x slots ty with
  | case1 width =>
    unfold integerOfWidth
    split
    · exact .pure _
    split
    · exact .pure _
    · exact Elsewhere.throw rfl
  | case2 width =>
    unfold realOfWidth
    split
    · exact .pure _
    · exact Elsewhere.throw rfl
  | case3 => exact .pure _
  | case4 name fields =>
    exact (resolve_elsewhere _).bind fun id => (h id).bind fun _ => .pure _
  | case5 base length ih => exact ih.bind fun _ => (Elsewhere.step _).bind fun _ => .pure _
  | case6 base ih => exact indirection_elsewhere ih _ _
  | case7 base ih => exact indirection_elsewhere ih _ _

theorem placeFields_elsewhere {represent : Ty → LayoutM Representation}
    (h : ∀ ty, Elsewhere (represent ty)) (first : Nat) (fields : List Field) :
    Elsewhere (placeFields represent first fields) := by
  induction fields generalizing first with
  | nil => exact .pure _
  | cons f rest ih => exact (h f.ty).bind fun _ => (ih _).bind fun _ => .pure _

theorem knownSlots_elsewhere (id : Nat) {compute : Ty → LayoutM (List Slot)}
    (h : ∀ record, Elsewhere (compute record)) : Elsewhere (knownSlots id compute) := by
  refine Build.Safe.get.bind fun r => ?_
  cases r.struct? id with
  | none => exact .pure _
  | some s =>
    dsimp only
    cases s.slots with
    | none => exact h s.record
    | some slots => exact .pure _

theorem layOutWith_elsewhere {slots : Nat → LayoutM (List Slot)}
    (h : ∀ id, Elsewhere (slots id)) (id : Nat) (record : Ty) :
    Elsewhere (layOutWith x slots id record) := by
  refine Build.Safe.bind (.ofExcept fun e he => ?_) fun _ => ?_
  · exact (isTypeError_of_checkDefined he).elsewhere
  refine (placeFields_elsewhere (representWith_elsewhere h) _ _).bind fun slots => ?_
  refine Build.Safe.bind ?_ fun _ => .pure _
  exact Build.Safe.get.bind fun _ => (Elsewhere.present _ _).bind fun _ => Elsewhere.step _

theorem layOut_elsewhere (fuel : Nat) (active : List Nat) (id : Nat) :
    Elsewhere (layOut x fuel active id) := by
  induction fuel generalizing active id with
  | zero => exact knownSlots_elsewhere id fun record => Elsewhere.unending record
  | succ fuel ih =>
    refine knownSlots_elsewhere id fun record => ?_
    split
    · exact Elsewhere.unending record
    · exact layOutWith_elsewhere (ih _) id record

theorem slotsOf_elsewhere (id : Nat) : Elsewhere (slotsOf x id) :=
  Build.Safe.get.bind fun _ => layOut_elsewhere _ _ _

theorem recordOf_elsewhere (id : Nat) : Elsewhere (recordOf id) :=
  Build.Safe.get.bind fun _ => .pure _

theorem slotOf_elsewhere (id : Nat) (name : String) : Elsewhere (slotOf x id name) := by
  refine (slotsOf_elsewhere id).bind fun slots => ?_
  cases slots.find? fun s => s.name = name with
  | some slot => exact .pure _
  | none => exact (recordOf_elsewhere id).bind fun _ => Elsewhere.throw rfl

theorem represent_elsewhere (ty : Ty) : Elsewhere (represent x ty) :=
  representWith_elsewhere slotsOf_elsewhere ty

theorem valueType_elsewhere (ty : Ty) : Elsewhere (valueType x ty) :=
  (represent_elsewhere ty).bind fun _ => .pure _

end Layout

namespace Lowering

variable {cx : Context}

/-! ### Checks -/

theorem sameType_elsewhere (left right : String) (a b : Ty) :
    Elsewhere (check (sameType left a right b)) := by
  refine .ofExcept fun e he => ?_
  unfold sameType at he
  split at he <;> cases he
  exact ne_of_beq_false rfl

theorem integerConstant_elsewhere (typ : Flo.Ty) (value : Int) :
    Elsewhere (check (integerConstant typ value)) := by
  refine .ofExcept fun e he => ?_
  unfold integerConstant at he
  split at he
  · cases he
    exact ne_of_beq_false rfl
  split at he
  · cases he
    exact ne_of_beq_false rfl
  split at he <;> cases he

/-! ### Emission -/

theorem onTypes_elsewhere {α : Type} {m : LayoutM α} (h : Elsewhere m) : Elsewhere (onTypes m) :=
  Elsewhere.zoom h

theorem valueType_elsewhere (ty : Ty) : Elsewhere (valueType cx ty) :=
  onTypes_elsewhere (Layout.valueType_elsewhere ty)

theorem note_elsewhere : Elsewhere (note cx) := (Elsewhere.step _).bind fun _ => .pure _

theorem emit_elsewhere (stmt : Flo.Statement) : Elsewhere (emit stmt) :=
  (Elsewhere.step _).bind fun _ => Elsewhere.step _

theorem temporary_elsewhere (typ : Flo.Ty) : Elsewhere (temporary cx typ) :=
  (Elsewhere.step _).bind fun _ => Elsewhere.step _

theorem constant_elsewhere (c : Flo.Constant) : Elsewhere (constant cx c) :=
  (temporary_elsewhere _).bind fun _ => note_elsewhere.bind fun _ =>
    (emit_elsewhere _).bind fun _ => .pure _

theorem load_elsewhere (handle : Nat) (member : Flo.Member) (typ : Flo.Ty) :
    Elsewhere (load cx handle member typ) :=
  (temporary_elsewhere _).bind fun _ => note_elsewhere.bind fun _ =>
    (emit_elsewhere _).bind fun _ => .pure _

theorem call_elsewhere (block : Flo.BlockRef) (input outputs : List Nat) :
    Elsewhere (call cx block input outputs) :=
  note_elsewhere.bind fun _ => emit_elsewhere _

theorem callRoutine_elsewhere (op : Operator) (input : List Nat) (types : List Flo.Ty)
    (result : Flo.Ty) (output : Option Nat) :
    Elsewhere (callRoutine cx op input types result output) := by
  unfold callRoutine
  cases cx.polyfills.forOperation? op types result with
  | none => exact Elsewhere.throw rfl
  | some routine =>
    cases output with
    | some v => exact Build.Safe.bind (.pure v) fun _ => (call_elsewhere _ _ _).bind fun _ => .pure _
    | none =>
      exact (temporary_elsewhere _).bind fun _ => (call_elsewhere _ _ _).bind fun _ => .pure _

theorem addArm_elsewhere (condition target : Nat) : Elsewhere (addArm cx condition target) :=
  (Elsewhere.step _).bind fun _ => Elsewhere.step _

/-! ### Variables and labels -/

theorem declare_elsewhere (x : UnitIndex) (function : String) (line : Option Nat) (name : String)
    (ty : Ty) (usage : Usage) : Elsewhere (declare x function line name ty usage) := by
  refine Build.Safe.get.bind fun s => ?_
  split
  · exact Elsewhere.throw rfl
  · refine Build.Safe.bind ?_ fun v => (Elsewhere.step _).bind fun _ => .pure _
    exact (onTypes_elsewhere (represent_elsewhere ty)).bind fun _ => (Elsewhere.step _).bind
      fun _ => Elsewhere.step _

theorem lookup_elsewhere (name : String) (e : Expr) : Elsewhere (lookup cx name e) := by
  rw [lookup_eq]
  refine Build.Safe.get.bind fun s => ?_
  have hcheck : ∀ v : Var, Elsewhere (do
      check (sameType e.text e.ty v.name v.ty)
      return v : LowerM Var) := fun v => (sameType_elsewhere _ _ _ _).bind fun _ => .pure _
  cases s.scope.find? fun v => v.name = name with
  | some v => exact Build.Safe.bind (.pure v) hcheck
  | none =>
    cases cx.index.global? name with
    | none => exact Build.Safe.bind (Elsewhere.throw rfl) hcheck
    | some ty => exact (declare_elsewhere _ _ _ _ _ _).bind hcheck

theorem blockFor_elsewhere (label : Nat) : Elsewhere (blockFor cx label) := by
  unfold blockFor
  split
  · refine Build.Safe.get.bind fun s => ?_
    cases s.exitBlock with
    | some id => exact .pure id
    | none => exact (Elsewhere.step _).bind fun _ => (Elsewhere.step _).bind fun _ => .pure _
  refine Build.Safe.get.bind fun s => ?_
  cases s.blocks.lookup label with
  | some id => exact .pure id
  | none =>
    dsimp only
    split
    · exact Elsewhere.throw rfl
    · exact (Elsewhere.step _).bind fun _ => (Elsewhere.step _).bind fun _ => .pure _

/-! ### Operands -/

theorem readInteger_elsewhere (ty : Ty) (value : Int) : Elsewhere (readInteger cx ty value) := by
  cases ty with
  | integer width =>
    exact (valueType_elsewhere _).bind fun _ => (integerConstant_elsewhere _ _).bind fun _ =>
      constant_elsewhere _
  | boolean => exact constant_elsewhere _
  | real width => exact constant_elsewhere _
  | pointer base =>
    simp only [readInteger]
    split
    · exact (valueType_elsewhere _).bind fun _ => constant_elsewhere _
    · exact Elsewhere.throw rfl
  | reference base =>
    simp only [readInteger]
    split
    · exact Elsewhere.throw rfl
    · exact Elsewhere.throw rfl
  | array base length => exact Elsewhere.throw rfl
  | record name fields => exact Elsewhere.throw rfl

theorem readReal_elsewhere (ty : Ty) (value : Double) : Elsewhere (readReal cx ty value) := by
  refine (valueType_elsewhere _).bind fun typ => ?_
  split
  · exact Elsewhere.throw rfl
  · exact constant_elsewhere _

theorem slotFor_elsewhere (struct : Nat) (member : String) (e : Expr) :
    Elsewhere (slotFor cx struct member e) :=
  (onTypes_elsewhere (slotOf_elsewhere _ _)).bind fun _ =>
    (onTypes_elsewhere (recordOf_elsewhere _)).bind fun _ =>
      (sameType_elsewhere _ _ _ _).bind fun _ => .pure _

theorem fieldThrough_elsewhere {pointer : Expr} {readPointer : LowerM Nat}
    (h : Elsewhere readPointer) (member : String) (e : Expr) :
    Elsewhere (fieldThrough cx pointer readPointer member e) := by
  unfold fieldThrough
  cases pointer.ty.indirectBase.filter Ty.isRecord with
  | none => exact Elsewhere.throw rfl
  | some record =>
    refine (onTypes_elsewhere (resolveHandle_elsewhere record)).bind fun struct => ?_
    refine (slotFor_elsewhere struct member e).bind fun slot => h.bind fun handle => ?_
    split
    · exact (Elsewhere.step _).bind fun _ => .pure _
    · exact .pure _

theorem destructure_elsewhere {base : Expr} {readBase : LowerM Nat} (h : Elsewhere readBase)
    (member : String) (e : Expr) : Elsewhere (destructure cx base readBase member e) := by
  unfold destructure
  split
  · exact Elsewhere.throw rfl
  · refine (onTypes_elsewhere (resolve_elsewhere _)).bind fun struct => ?_
    refine (slotFor_elsewhere struct member e).bind fun slot => ?_
    refine (onTypes_elsewhere (slotsOf_elsewhere struct)).bind fun slots => h.bind fun whole => ?_
    refine (Build.Safe.mapM slots fun s _ => temporary_elsewhere s.typ).bind fun parts => ?_
    exact note_elsewhere.bind fun _ => (emit_elsewhere _).bind fun _ => .pure _

theorem readPointer_elsewhere {pointer : Expr} {read : LowerM Nat} (h : Elsewhere read)
    (e : Expr) : Elsewhere (readPointer pointer read e) := by
  unfold readPointer
  cases pointer.ty.indirectBase with
  | none => exact Elsewhere.throw rfl
  | some pointee =>
    refine (sameType_elsewhere _ _ _ _).bind fun _ => h.bind fun handle => ?_
    split
    · exact (Elsewhere.step _).bind fun _ => .pure _
    · exact .pure _

theorem readElement_elsewhere {array index : Expr} {readArray readIndex : LowerM Nat}
    (ha : Elsewhere readArray) (hi : Elsewhere readIndex) (e : Expr) :
    Elsewhere (readElement array index readArray readIndex e) := by
  unfold readElement
  split
  · refine (sameType_elsewhere _ _ _ _).bind fun _ => ?_
    split
    · exact Elsewhere.throw rfl
    · exact ha.bind fun _ => hi.bind fun _ => (Elsewhere.step _).bind fun _ => .pure _
  · exact Elsewhere.throw rfl

theorem read_elsewhere (e : Expr) : Elsewhere (read cx e) := by
  fun_induction read cx e with
  | case1 ty value => exact readInteger_elsewhere ty value
  | case2 ty value => exact readReal_elsewhere ty value
  | case3 ty name => exact (lookup_elsewhere _ _).bind fun _ => .pure _
  | case4 ty rty pointer member ih =>
    exact (fieldThrough_elsewhere ih _ _).bind fun _ => load_elsewhere _ _ _
  | case5 ty base member hbase ih =>
    exact (destructure_elsewhere ih _ _).bind fun _ => Elsewhere.present _ _
  | case6 ty pointer ih =>
    exact (readPointer_elsewhere ih _).bind fun _ => (valueType_elsewhere _).bind fun _ =>
      load_elsewhere _ _ _
  | case7 ty array index iha ihi =>
    exact (readElement_elsewhere iha ihi _).bind fun _ => (valueType_elsewhere _).bind fun _ =>
      load_elsewhere _ _ _
  | case8 ty value => exact Elsewhere.throw rfl

/-! ### Switches -/

theorem caseCondition_elsewhere (selector : Nat) (typ : Flo.Ty) (c : Case) :
    Elsewhere (caseCondition cx selector typ c) := by
  refine (integerConstant_elsewhere typ c.low).bind fun _ => (constant_elsewhere _).bind fun _ => ?_
  split
  · exact callRoutine_elsewhere _ _ _ _ _
  · refine (integerConstant_elsewhere typ c.upper).bind fun _ => ?_
    exact (constant_elsewhere _).bind fun _ => (callRoutine_elsewhere _ _ _ _ _).bind fun _ =>
      (callRoutine_elsewhere _ _ _ _ _).bind fun _ => callRoutine_elsewhere _ _ _ _ _

theorem caseArms_elsewhere (selector : Nat) (typ : Flo.Ty) (cases : List (Case × Nat)) :
    Elsewhere (caseArms cx selector typ cases) := by
  induction cases with
  | nil => exact .pure _
  | cons p rest ih =>
    obtain ⟨c, target⟩ := p
    exact (caseCondition_elsewhere selector typ c).bind fun _ => (addArm_elsewhere _ _).bind
      fun _ => ih.bind fun _ => .pure _

/-- The runtime type of an integer type registers nothing. -/
theorem valueType_runOn {ty : Ty} {typ : Flo.Ty} (h : ty.integerTyp? = some typ) (s : State) :
    (valueType cx ty).runOn s = .ok (.ok typ, s) := by
  unfold Ty.integerTyp? at h
  split at h <;> cases h <;> rfl

/-- A switch is malformed if its selector is no integer or its labels are refused. Nothing happens
to the state then. -/
theorem lowerSwitch_fails_iff {value : Expr} {cases : List Case} {default : Nat} {typ : Flo.Ty}
    (htyp : value.ty.isIntegral = true → value.ty.integerTyp? = some typ) {s s' : State}
    {fault : SwitchFault} :
    (lowerSwitch cx value cases default).Fails s (.malformedSwitch fault) s' ↔
      s' = s ∧ if value.ty.isIntegral then
        validateCases value typ [] cases = .error (.malformedSwitch fault)
      else fault = .selector value := by
  unfold lowerSwitch
  cases hint : value.ty.isIntegral with
  | false =>
    have hfails : ∀ {m : LowerM Flo.BlockExit},
        (do throw (.malformedSwitch (.selector value)); m : LowerM Flo.BlockExit).Fails s
          (.malformedSwitch fault) s' ↔ fault = .selector value ∧ s' = s := by
      intro m
      simp
    exact hfails.trans and_comm
  | true =>
    have hvalue : (valueType cx value.ty).runOn s = .ok (.ok typ, s) :=
      valueType_runOn (htyp hint) s
    have hafter : Elsewhere (do
        let targets ← cases.mapM fun c => blockFor cx c.block
        let default ← blockFor cx default
        let selector ← read cx value
        let arms ← caseArms cx selector typ (cases.zip targets)
        return .branch (arms ++ [← addDefaultArm cx default]) : LowerM Flo.BlockExit) := by
      refine (Build.Safe.mapM cases fun c _ => blockFor_elsewhere c.block).bind fun targets => ?_
      refine (blockFor_elsewhere default).bind fun _ => (read_elsewhere value).bind fun selector => ?_
      refine (caseArms_elsewhere selector typ _).bind fun arms => Build.Safe.bind ?_ fun _ => .pure _
      exact (constant_elsewhere _).bind fun _ => addArm_elsewhere _ _
    constructor
    · intro h
      rcases Build.fails_bind.1 h with h | ⟨typ', s₁, hran, h⟩
      · rw [Build.Fails, hvalue] at h
        cases h
      obtain ⟨rfl, rfl⟩ : typ = typ' ∧ s = s₁ := by
        rw [Build.Ran, hvalue] at hran
        cases hran
        exact ⟨rfl, rfl⟩
      rcases Build.fails_bind.1 h with h | ⟨_, s₂, -, h⟩
      · exact (Build.fails_ofExcept.1 h).symm
      · exact absurd rfl ((hafter.ends s₂ trivial).fails h)
    · rintro ⟨rfl, h⟩
      refine Build.fails_bind.2 (.inr ⟨typ, s', hvalue, Build.fails_bind.2 (.inl ?_)⟩)
      exact Build.fails_ofExcept.2 ⟨h, rfl⟩

end Lowering

end GimpleLowering

import GimpleLowering.Lowering.Function
import GimpleLowering.Proofs.Except
import GimpleLowering.Proofs.Layout.Termination
import GimpleLowering.Proofs.Lowering.Scope
import GimpleLowering.Proofs.Lowering.Survival

/-!
# Failures that are foreseen

Parts of the lowering can only fail if something is wrong that other parts have made sure of: a
struct is asked for something that is no record, a name that was just declared is not in scope, an
integer constant has a type that is not for integers, a field has no part in the record that was
taken apart. None of this ever happens. It takes no more than a sound registry to see it, so the
lowering of operands and statements is judged by `Careful`: from every state with a sound registry,
it is refused for a reason that lies in the unit, and it only breaks down where a layout waits for
itself.

## Main definitions

* `Lowering.Blames`, `Lowering.Foreseen`, `Lowering.ForeseenAt` — the errors that are possible
* `Lowering.Careful` — a part of the lowering with no other endings

## Main results

* `Lowering.read_careful`, `write_careful` — operands
* `Lowering.lowerAssign_careful`, `lowerStatement_careful` — statements
-/

namespace GimpleLowering.Lowering

open Gimple Layout

/-! ### Errors -/

/-- The error is about the unit and not about its compilation. -/
def Blames (e : Error) : Prop := e.kind ≠ .internal

/-- The error is about the unit, and not that a routine is missing that was looked for before. -/
def Foreseen (e : Error) : Prop :=
  Blames e ∧ ∀ op types, e ≠ .unsupportedConstruct (.noRoutine op types)

/-- Whether an error with a cause is foreseen can be seen from its form. -/
def isForeseen : Error → Bool
  | .internal _ | .unsupportedConstruct (.noRoutine _ _) | .reported _ _ => false
  | _ => true

theorem foreseen_of_form {e : Error} (h : isForeseen e = true) : Foreseen e := by
  refine ⟨fun hk => ?_, fun op types he => ?_⟩
  · have hform : isForeseen e = false := by cases e <;> first | rfl | cases hk
    rw [hform] at h
    cases h
  · subst he
    cases h

theorem foreseen_of_isTypeError {e : Error} (h : IsTypeError e) : Foreseen e := by
  refine ⟨fun hk => ?_, fun op types he => ?_⟩
  · rcases h with h | h <;> rw [hk] at h <;> cases h
  · subst he
    rcases h with h | h <;> cases h

theorem foreseen_of_sameType {left right : String} {a b : Ty} {e : Error}
    (h : sameType left a right b = .error e) : Foreseen e := by
  unfold sameType at h
  split at h
  · cases h
  · cases h
    exact foreseen_of_form rfl

theorem foreseen_of_rejectNull {target : Ty} {value : Expr} {e : Error}
    (h : rejectNull target value = .error e) : Foreseen e := by
  unfold rejectNull at h
  split at h
  · cases h
    exact foreseen_of_form rfl
  · cases h

theorem foreseen_of_integerConstant {typ : Flo.Ty} {value : Int} {e : Error}
    (htyp : typ.isInteger) (h : integerConstant typ value = .error e) : Foreseen e := by
  unfold integerConstant at h
  rw [htyp] at h
  simp only [Bool.not_true, Bool.false_eq_true, if_false] at h
  split at h
  · cases h
    exact foreseen_of_form rfl
  · split at h <;> cases h

/-- If each step of a check has foreseen errors only, so has the check. -/
theorem foreseen_of_bind {α β : Type} {r : Except Error α} {f : α → Except Error β} {e : Error}
    (hr : ∀ e, r = .error e → Foreseen e) (hf : ∀ a e, f a = .error e → Foreseen e)
    (h : r >>= f = .error e) : Foreseen e := by
  rcases Except.error_of_bind h with h | ⟨a, -, h⟩
  · exact hr e h
  · exact hf a e h

theorem foreseen_of_forM {α : Type} {check : α → Except Error Unit} {as : List α} {e : Error}
    (hc : ∀ a ∈ as, ∀ e, check a = .error e → Foreseen e) (h : as.forM check = .error e) :
    Foreseen e := by
  obtain ⟨a, ha, h⟩ := exists_of_forM_error h
  exact hc a ha e h

theorem foreseen_of_checkOperation {op : Operator} {lhs : Expr} {operands : List Expr} {e : Error}
    (h : checkOperation op lhs operands = .error e) : Foreseen e := by
  unfold checkOperation at h
  split at h
  · exact foreseen_of_forM (fun _ _ _ => foreseen_of_sameType) h
  · exact foreseen_of_forM (fun _ _ _ => foreseen_of_sameType) h
  · dsimp only at h
    split at h
    · exact foreseen_of_bind (fun _ => foreseen_of_sameType) (fun _ _ => foreseen_of_sameType) h
    · exact foreseen_of_sameType h
  · exact foreseen_of_bind (fun _ h => foreseen_of_sameType h)
      (fun _ _ h => foreseen_of_forM (fun _ _ _ => foreseen_of_sameType) h) h
  · refine foreseen_of_forM (fun a _ e h => ?_) h
    split at h
    · cases h
    · cases h
      exact foreseen_of_form rfl
  · cases h
    exact foreseen_of_form rfl

theorem foreseen_of_checkArguments {callee : String} {position : Nat} {arguments : List Expr}
    {parameters : List Ty} {e : Error}
    (h : checkArguments callee position arguments parameters = .error e) : Foreseen e := by
  fun_induction checkArguments callee position arguments parameters generalizing e with
  | case1 position argument arguments parameter parameters ih =>
    refine foreseen_of_bind (fun _ => foreseen_of_rejectNull) (fun _ e h => ?_) h
    exact foreseen_of_bind (fun _ => foreseen_of_sameType) (fun _ _ => ih) h
  | case2 => cases h

theorem foreseen_of_checkResult {callee : Signature} {lhs : Option Expr} {e : Error}
    (h : checkResult callee lhs = .error e) : Foreseen e := by
  unfold checkResult at h
  split at h
  · cases h
  · split at h
    · cases h
      exact foreseen_of_form rfl
    · exact foreseen_of_sameType h

theorem foreseen_of_validateCase {value : Expr} {typ : Flo.Ty} {earlier : List Case} {c : Case}
    {e : Error} (h : validateCase value typ earlier c = .error e) : Foreseen e := by
  unfold validateCase at h
  dsimp only at h
  split at h
  · cases h
    exact foreseen_of_form rfl
  split at h
  · cases h
    exact foreseen_of_form rfl
  split at h
  · cases h
  · split at h <;> cases h <;> exact foreseen_of_form rfl

theorem foreseen_of_validateCases {value : Expr} {typ : Flo.Ty} {earlier cases : List Case}
    {e : Error} (h : validateCases value typ earlier cases = .error e) : Foreseen e := by
  induction cases generalizing earlier e with
  | nil => cases h
  | cons c rest ih =>
    exact foreseen_of_bind (fun _ => foreseen_of_validateCase) (fun _ _ => ih) h

/-! ### Careful steps -/

/-- From every state with a sound registry, the computation is refused with an error as in `E` if
at all, and it only breaks down where a layout waits for itself. -/
abbrev Careful {ε α : Type} (x : UnitIndex) (E : ε → Prop) (m : Build State ε α) : Prop :=
  m.Safe (fun s => s.types.Sound x fun _ => True) (SomeAwaitsItself x) E

variable {x : UnitIndex} {cx : Context} {E : Error → Prop} {α : Type}

theorem onTypes_careful {m : LayoutM α} (hm : ∀ r, r.Sound x (fun _ => True) →
      m.EndsUnless r (SomeAwaitsItself x) E) (hk : m.Keeps (Evolves x (fun _ => True) [])) :
    Careful x E (onTypes m) :=
  ⟨fun s hs => .zoom (hm s.types hs), hk.zoom fun _ _ h hs => (h hs).sound⟩

/-- A step that leaves the types alone. -/
theorem step_careful {ε : Type} {E : ε → Prop} {f : State → α × State}
    (h : ∀ s, (f s).2.types = s.types) : Careful x E (Build.step f) :=
  .step fun s hs => (h s).symm ▸ hs

theorem onDraft_careful (f : Flo.Draft → α × Flo.Draft) : Careful x E (onDraft f) :=
  step_careful fun _ => rfl

theorem check_careful {r : Except Error α} (h : ∀ e, r = .error e → E e) :
    Careful x E (check r) :=
  .ofExcept h

theorem location_careful : Careful x E (location cx) := onDraft_careful _

theorem note_careful : Careful x E (note cx) := location_careful.bind fun _ => .pure _

theorem emit_careful (stmt : Flo.Statement) : Careful x E (emit stmt) :=
  (onDraft_careful _).bind fun _ => step_careful fun _ => rfl

theorem temporary_careful (typ : Flo.Ty) : Careful x E (temporary cx typ) :=
  location_careful.bind fun _ => onDraft_careful _

theorem constant_careful (c : Flo.Constant) : Careful x E (constant cx c) :=
  (temporary_careful _).bind fun _ => note_careful.bind fun _ =>
    (emit_careful _).bind fun _ => .pure _

theorem assign_careful (target source : Nat) : Careful x E (assign cx target source) :=
  note_careful.bind fun _ => emit_careful _

theorem call_careful (block : Flo.BlockRef) (input outputs : List Nat) :
    Careful x E (call cx block input outputs) :=
  note_careful.bind fun _ => emit_careful _

theorem load_careful (handle : Nat) (member : Flo.Member) (typ : Flo.Ty) :
    Careful x E (load cx handle member typ) :=
  (temporary_careful _).bind fun _ => note_careful.bind fun _ =>
    (emit_careful _).bind fun _ => .pure _

theorem store_careful (handle : Nat) (member : Flo.Member) (value : Nat) :
    Careful x E (store cx handle member value) :=
  note_careful.bind fun _ => emit_careful _

theorem markPanic_careful : Careful x E markPanic := step_careful fun _ => rfl

/-- A call to a routine is refused if there is none. -/
theorem callRoutine_careful {op : Operator} {input : List Nat} {types : List Flo.Ty}
    {result : Flo.Ty} {output : Option Nat}
    (h : cx.polyfills.forOperation? op types result = none →
      E (.unsupportedConstruct (.noRoutine op types))) :
    Careful x E (callRoutine cx op input types result output) := by
  unfold callRoutine
  cases hr : cx.polyfills.forOperation? op types result with
  | none => exact .throw (h hr)
  | some routine =>
    cases output with
    | some v =>
      exact Build.Safe.bind (.pure v) fun _ => (call_careful _ _ _).bind fun _ => .pure _
    | none => exact (temporary_careful _).bind fun _ => (call_careful _ _ _).bind fun _ => .pure _

/-! ### Types -/

theorem represent_careful {ty : Ty} : Careful x Foreseen (onTypes (represent x ty)) := by
  refine onTypes_careful (fun r hr => (represent_ends hr).mono (fun b ⟨_, _, hb⟩ => hb.some)
    fun _ => foreseen_of_isTypeError) (represent_keeps (.univ x) trivial)

theorem valueType_careful (ty : Ty) : Careful cx.index Foreseen (valueType cx ty) := by
  refine onTypes_careful (fun r hr => ?_) (Layout.valueType_keeps (.univ _) trivial)
  exact ((represent_ends hr).mono (fun b ⟨_, _, hb⟩ => hb.some)
    fun _ => foreseen_of_isTypeError).bind fun _ _ _ => .pure _

/-- The values of an integer type are integers of the runtime. -/
theorem isInteger_of_valueType {ty : Ty} {typ : Flo.Ty} {s s' : State} (hty : ty.isIntegral)
    (hs : s.types.Sound cx.index fun _ => True) (h : (valueType cx ty).Ran s typ s') :
    typ.isInteger := by
  simp only [valueType, onTypes, Build.ran_zoom] at h
  obtain ⟨types, h, -⟩ := h
  exact HasValueType.isInteger (Layout.valueType_ran (.univ _) trivial hs h) hty

theorem resolve_careful {ty : Ty} (h : ty.isRecord) :
    Careful x Foreseen (onTypes (resolve x ty)) :=
  onTypes_careful (fun _ _ => (resolve_ends h).mono (fun _ hb => hb)
    fun _ => foreseen_of_isTypeError) (resolve_keeps (.univ x) trivial)

theorem resolveHandle_careful {ty : Ty} (h : ty.isRecord) :
    Careful x Foreseen (onTypes (resolveHandle x ty)) :=
  onTypes_careful (fun _ _ => (resolveHandle_ends h).mono (fun _ hb => hb)
    fun _ => foreseen_of_isTypeError) (resolveHandle_keeps (.univ x) trivial)

theorem slotsOf_careful (id : Nat) : Careful x Foreseen (onTypes (slotsOf x id)) := by
  refine onTypes_careful (fun r hr => ?_) (slotsOf_keeps (.univ x) id)
  exact (slotsOf_endsUnless hr).mono (fun _ hb => hb) fun _ => foreseen_of_isTypeError

theorem slotOf_careful (id : Nat) (name : String) :
    Careful x Foreseen (onTypes (slotOf x id name)) := by
  refine onTypes_careful (fun r hr => ?_) (slotOf_keeps (.univ x) id name)
  refine .bind ((slotsOf_endsUnless hr).mono (fun _ hb => hb) fun _ => foreseen_of_isTypeError)
    fun slots r₁ _ => ?_
  cases slots.find? fun s => s.name = name with
  | some slot => exact .pure _
  | none =>
    exact .bind (.bind .get fun _ _ _ => .pure _) fun _ _ _ => .throw (foreseen_of_form rfl)

theorem recordOf_careful (id : Nat) : Careful x E (onTypes (recordOf id)) :=
  onTypes_careful (fun _ _ => .bind .get fun _ _ _ => .pure _) (recordOf_keeps id)

/-! ### Variables and labels -/

theorem create_careful (line : Option Nat) (name : String) (ty : Ty) (usage : Usage) :
    Careful x Foreseen (create x line name ty usage) :=
  represent_careful.bind fun _ => (onDraft_careful _).bind fun _ => onDraft_careful _

theorem declare_careful (function : String) (line : Option Nat) (name : String) (ty : Ty)
    (usage : Usage) : Careful x Foreseen (declare x function line name ty usage) := by
  refine Build.Safe.bind .get fun s => ?_
  split
  · exact .throw (foreseen_of_form rfl)
  · refine (create_careful line name ty usage).bind fun v => ?_
    exact Build.Safe.bind (step_careful fun _ => rfl) fun _ => .pure _

/-- A name does not vanish from scope once it is declared. -/
theorem lookup_careful (name : String) (e : Expr) :
    Careful cx.index Foreseen (lookup cx name e) := by
  rw [lookup_eq]
  refine Build.Safe.bind .get fun s => ?_
  have hcheck : ∀ v : Var, Careful cx.index Foreseen (do
      check (sameType e.text e.ty v.name v.ty)
      return v) := fun v =>
    (check_careful fun _ => foreseen_of_sameType).bind fun _ => .pure _
  cases s.scope.find? fun v => v.name = name with
  | some v => exact Build.Safe.bind (.pure v) hcheck
  | none =>
    cases cx.index.global? name with
    | none => exact Build.Safe.bind (.throw (foreseen_of_form rfl)) hcheck
    | some ty => exact (declare_careful _ _ _ _ _).bind hcheck

theorem exitBlock_careful : Careful x E (exitBlock cx) := by
  refine Build.Safe.bind .get fun s => ?_
  cases s.exitBlock with
  | some id => exact .pure id
  | none =>
    refine (onDraft_careful _).bind fun id => ?_
    exact Build.Safe.bind (step_careful fun _ => rfl) fun _ => .pure _

/-- A label is refused if there is no block for it. -/
theorem blockFor_careful {label : Nat}
    (h : label ≠ exitIndex → cx.function.block? label = none →
      E (.malformed (.noSuchBlock label cx.function.name))) :
    Careful x E (blockFor cx label) := by
  unfold blockFor
  split
  · exact exitBlock_careful
  rename_i hlabel
  refine Build.Safe.bind .get fun s => ?_
  cases s.blocks.lookup label with
  | some id => exact .pure id
  | none =>
    simp only
    split
    · rename_i hnone
      exact .throw (h hlabel (by simpa using hnone))
    · refine (onDraft_careful _).bind fun id => ?_
      exact Build.Safe.bind (step_careful fun _ => rfl) fun _ => .pure _

/-! ### Operands -/

theorem readInteger_careful (ty : Ty) (value : Int) :
    Careful cx.index Foreseen (readInteger cx ty value) := by
  cases ty with
  | integer width =>
    refine (valueType_careful _).bind_of_ran fun s typ s' hs hran => ?_
    have htyp : typ.isInteger := isInteger_of_valueType rfl hs hran
    exact (check_careful fun _ => foreseen_of_integerConstant htyp).bind fun _ => constant_careful _
  | boolean => exact constant_careful _
  | real width => exact constant_careful _
  | pointer base =>
    simp only [readInteger]
    split
    · exact (valueType_careful _).bind fun _ => constant_careful _
    · exact .throw (foreseen_of_form rfl)
  | reference base =>
    simp only [readInteger]
    split
    · exact .throw (foreseen_of_form rfl)
    · exact .throw (foreseen_of_form rfl)
  | array base length => exact .throw (foreseen_of_form rfl)
  | record name fields => exact .throw (foreseen_of_form rfl)

theorem readReal_careful (ty : Ty) (value : Double) :
    Careful cx.index Foreseen (readReal cx ty value) := by
  refine (valueType_careful _).bind fun typ => ?_
  split
  · exact .throw (foreseen_of_form rfl)
  · exact constant_careful _

theorem slotFor_careful (struct : Nat) (member : String) (e : Expr) :
    Careful cx.index Foreseen (slotFor cx struct member e) :=
  (slotOf_careful _ _).bind fun _ => (recordOf_careful _).bind fun _ =>
    (check_careful fun _ => foreseen_of_sameType).bind fun _ => .pure _

theorem fieldThrough_careful {pointer : Expr} {readPointer : LowerM Nat}
    (hp : Careful cx.index Foreseen readPointer) (member : String) (e : Expr) :
    Careful cx.index Foreseen (fieldThrough cx pointer readPointer member e) := by
  unfold fieldThrough
  cases hb : pointer.ty.indirectBase.filter Ty.isRecord with
  | none => exact .throw (foreseen_of_form rfl)
  | some record =>
    refine (resolveHandle_careful (Option.filter_eq_some_iff.1 hb).2).bind fun struct => ?_
    refine (slotFor_careful struct member e).bind fun slot => hp.bind fun handle => ?_
    split
    · exact markPanic_careful.bind fun _ => .pure _
    · exact .pure _

theorem destructure_careful {base : Expr} {readBase : LowerM Nat}
    (hp : Careful cx.index Foreseen readBase) (member : String) (e : Expr) :
    Careful cx.index Foreseen (destructure cx base readBase member e) := by
  unfold destructure
  split
  · exact .throw (foreseen_of_form rfl)
  · rename_i hr
    refine (resolve_careful (by simpa using hr)).bind fun struct => ?_
    refine (slotFor_careful struct member e).bind fun slot => ?_
    refine (slotsOf_careful struct).bind fun slots => hp.bind fun whole => ?_
    refine (Build.Safe.mapM slots fun s _ => temporary_careful s.typ).bind fun parts => ?_
    exact note_careful.bind fun _ => (emit_careful _).bind fun _ => .pure _

theorem ran_of_onTypes {m : LayoutM α} {s s' : State} {a : α} (h : (onTypes m).Ran s a s') :
    m.Ran s.types a s'.types := by
  obtain ⟨r, hr, rfl⟩ := Build.ran_zoom.1 h
  exact hr

/-- The field that an expression accesses is one of the struct, and the struct gets no others. -/
theorem mem_of_slotFor {record : Ty} {struct : Nat} {member : String} {e : Expr} {s s₁ s₂ : State}
    {slot : Slot} {slots : List Slot} (hs : s.types.Sound cx.index fun _ => True)
    (hstruct : s.types.structOf? record = some struct)
    (hslot : (slotFor cx struct member e).Ran s slot s₁)
    (hslots : (onTypes (slotsOf cx.index struct)).Ran s₁ slots s₂) :
    slots[slot.index]? = some slot := by
  simp only [slotFor, check, Build.ran_bind, Build.ran_ofExcept, Build.ran_pure] at hslot
  obtain ⟨slot', t, hslot, _, t', hrecord, _, _, ⟨-, rfl⟩, rfl, rfl⟩ := hslot
  have hslot := ran_of_onTypes hslot
  have hslots := ran_of_onTypes hslots
  have he := (slotOf_keeps (.univ _) struct member).ran hslot hs
  have hkeeps : (recordOf struct).Keeps (Evolves cx.index (fun _ => True) []) :=
    recordOf_keeps struct
  have he' := hkeeps.ran (ran_of_onTypes hrecord) he.sound
  obtain ⟨known, hknown, hlaid, hmem, -⟩ := slotOf_ran (.univ _) hs hstruct hslot
  have hstruct' := he'.grows.structOf? (he.grows.structOf? hstruct)
  obtain ⟨hknown', -⟩ := slotsOf_ran (.univ _) he'.sound hstruct' hslots
  have he'' := (slotsOf_keeps (.univ _) struct).ran hslots he'.sound
  obtain rfl : slots = known := hknown'.unique ((hknown.mono he'.grows).mono he''.grows)
  exact (hlaid.of_mem hmem).1

/-- The field that is accessed has a part in the record that was taken apart. -/
theorem destructure_present {base : Expr} {readBase : LowerM Nat} {member : String} {e : Expr}
    {s s' : State} {parts : List Nat} {slot : Slot}
    (hs : s.types.Sound cx.index fun _ => True)
    (h : (destructure cx base readBase member e).Ran s (parts, slot) s') :
    base.ty.isRecord ∧ parts[slot.index]?.isSome := by
  unfold destructure at h
  split at h
  · simp at h
  rename_i hrecord
  have hrecord : base.ty.isRecord := by simpa using hrecord
  simp only [Build.ran_bind, Build.ran_pure, Prod.mk.injEq] at h
  obtain ⟨struct, s₁, hstruct, slot', s₂, hslot, slots, s₃, hslots, _, s₄, -, parts', s₅, hparts, _,
    _, -, _, _, -, ⟨rfl, rfl⟩, -⟩ := h
  have hs₁ := (resolve_careful hrecord).keeps.ran hstruct hs
  have hmem := mem_of_slotFor hs₁ (resolve_ran (ran_of_onTypes hstruct)).2 hslot hslots
  have hlt : slot.index < parts.length := by
    rw [Build.length_of_mapM_ran hparts]
    exact (List.getElem?_eq_some_iff.1 hmem).1
  exact ⟨hrecord, by simpa using hlt⟩

theorem construct_careful {base : Expr} (h : base.ty.isRecord) (parts : List Nat) :
    Careful cx.index Foreseen (construct cx base parts) := by
  refine (resolve_careful h).bind fun struct => (temporary_careful _).bind fun target => ?_
  exact note_careful.bind fun _ => (emit_careful _).bind fun _ => .pure _

theorem readPointer_careful {pointer : Expr} {read : LowerM Nat} (hp : Careful x Foreseen read)
    (e : Expr) : Careful x Foreseen (readPointer pointer read e) := by
  unfold readPointer
  cases pointer.ty.indirectBase with
  | none => exact .throw (foreseen_of_form rfl)
  | some pointee =>
    refine (check_careful fun _ => foreseen_of_sameType).bind fun _ => hp.bind fun handle => ?_
    split
    · exact markPanic_careful.bind fun _ => .pure _
    · exact .pure _

theorem readElement_careful {array index : Expr} {readArray readIndex : LowerM Nat}
    (ha : Careful x Foreseen readArray) (hi : Careful x Foreseen readIndex) (e : Expr) :
    Careful x Foreseen (readElement array index readArray readIndex e) := by
  unfold readElement
  split
  · refine (check_careful fun _ => foreseen_of_sameType).bind fun _ => ?_
    split
    · exact .throw (foreseen_of_form rfl)
    · exact ha.bind fun _ => hi.bind fun _ => markPanic_careful.bind fun _ => .pure _
  · exact .throw (foreseen_of_form rfl)

theorem read_careful (e : Expr) : Careful cx.index Foreseen (read cx e) := by
  fun_induction read cx e with
  | case1 ty value => exact readInteger_careful ty value
  | case2 ty value => exact readReal_careful ty value
  | case3 ty name => exact (lookup_careful _ _).bind fun _ => .pure _
  | case4 ty rty pointer member ih =>
    exact (fieldThrough_careful ih _ _).bind fun _ => load_careful _ _ _
  | case5 ty base member hbase ih =>
    refine (destructure_careful ih _ _).bind_of_ran fun s p s' hs h => ?_
    exact .present (destructure_present hs h).2
  | case6 ty pointer ih =>
    exact (readPointer_careful ih _).bind fun _ => (valueType_careful _).bind fun _ =>
      load_careful _ _ _
  | case7 ty array index iha ihi =>
    exact (readElement_careful iha ihi _).bind fun _ => (valueType_careful _).bind fun _ =>
      load_careful _ _ _
  | case8 ty value => exact .throw (foreseen_of_form rfl)

theorem write_careful (e : Expr) (value : Nat) :
    Careful cx.index Foreseen (write cx e value) := by
  fun_induction write cx e value with
  | case1 ty name value => exact (lookup_careful _ _).bind fun _ => assign_careful _ _
  | case2 ty rty pointer member value =>
    exact (fieldThrough_careful (read_careful pointer) _ _).bind fun _ => store_careful _ _ _
  | case3 ty base member value hbase ih =>
    refine (destructure_careful (read_careful base) _ _).bind_of_ran fun s p s' hs h => ?_
    obtain ⟨hrecord, hpart⟩ := destructure_present hs h
    refine Build.Safe.bind (.present ?_) fun parts => ?_
    · simpa using hpart
    · exact (construct_careful hrecord parts).bind fun v => ih v
  | case4 ty pointer value =>
    exact (readPointer_careful (read_careful pointer) _).bind fun _ => store_careful _ _ _
  | case5 ty array index value =>
    exact (readElement_careful (read_careful array) (read_careful index) _).bind fun _ =>
      store_careful _ _ _
  | case6 ty value target => exact .throw (foreseen_of_form rfl)
  | case7 ty value target => exact .throw (foreseen_of_form rfl)
  | case8 ty value target => exact .throw (foreseen_of_form rfl)

/-! ### Assignments -/

theorem destination_careful (e : Expr) : Careful cx.index Foreseen (destination cx e) := by
  cases e with
  | named ty name => exact (lookup_careful _ _).bind fun _ => .pure _
  | _ => exact .pure _

/-- The routine that is called is the one that was looked for before. -/
theorem lowerOperation_careful (op : Operator) (lhs : Expr) (operands : List Expr) :
    Careful cx.index Foreseen (lowerOperation cx op lhs operands) := by
  refine (Build.Safe.mapM operands fun e _ => valueType_careful e.ty).bind fun types => ?_
  refine (valueType_careful _).bind fun result => ?_
  split
  · exact .throw (foreseen_of_form rfl)
  rename_i hroutine
  have hcall : ∀ inputs output,
      Careful cx.index Foreseen (callRoutine cx op inputs types result output) :=
    fun _ _ => callRoutine_careful fun hnone => absurd (by rw [hnone]; rfl) hroutine
  refine (Build.Safe.mapM operands fun e _ => read_careful e).bind fun inputs => ?_
  refine (destination_careful lhs).bind fun target => ?_
  cases target with
  | some target => exact (hcall _ _).bind fun _ => .pure _
  | none => exact (hcall _ _).bind fun v => write_careful lhs v

theorem lowerAssign_careful (op : Operator) (lhs : Expr) (operands : List Expr) :
    Careful cx.index Foreseen (lowerAssign cx op lhs operands) := by
  unfold lowerAssign
  dsimp only
  by_cases hclass : op.opClass = .pointerArithmetic
  · rw [if_pos hclass]
    exact .throw (foreseen_of_form rfl)
  rw [if_neg hclass]
  by_cases harity : operands.length = op.arity
  swap
  · rw [if_pos harity]
    exact .throw (foreseen_of_form rfl)
  rw [if_neg (not_not.2 harity)]
  refine (check_careful fun _ => foreseen_of_forM fun _ _ _ => foreseen_of_rejectNull).bind
    fun _ => ?_
  refine (check_careful fun _ => foreseen_of_checkOperation).bind fun _ => ?_
  split
  · rename_i hcopy
    -- A copy has one operand.
    have hfirst : operands[0]?.isSome := by
      have : op.arity = 1 := by cases op <;> first | rfl | cases hcopy
      simp [harity, this]
    exact Build.Safe.bind (.present hfirst) fun source =>
      (read_careful source).bind fun v => write_careful lhs v
  · exact lowerOperation_careful op lhs operands

/-! ### Calls -/

theorem lowerCall_careful (function : String) (arguments : List Expr) (lhs : Option Expr) :
    Careful cx.index Foreseen (lowerCall cx function arguments lhs) := by
  unfold lowerCall
  cases cx.index.function? function with
  | none => exact .throw (foreseen_of_form rfl)
  | some callee =>
    simp only
    split
    · exact .throw (foreseen_of_form rfl)
    refine (check_careful fun _ => foreseen_of_checkArguments).bind fun _ => ?_
    refine (check_careful fun _ => foreseen_of_checkResult).bind fun _ => ?_
    refine (Build.Safe.mapM arguments fun e _ => read_careful e).bind fun inputs => ?_
    split
    · rename_i lhs _
      refine (destination_careful lhs).bind fun target => ?_
      cases target with
      | some target => exact call_careful _ _ _
      | none =>
        exact (valueType_careful _).bind fun _ => (temporary_careful _).bind fun v =>
          (call_careful _ _ _).bind fun _ => write_careful lhs v
    · exact (valueType_careful _).bind fun _ => (temporary_careful _).bind fun v =>
        call_careful _ _ _
    · exact call_careful _ _ _

/-! ### Terminators -/

theorem Careful.blames {m : LowerM α} (h : Careful x Foreseen m) : Careful x Blames m :=
  h.mono (fun _ hb => hb) fun _ he => he.1

/-- What is compared in a branch is not looked for before. -/
theorem callRoutine_blames (op : Operator) (input : List Nat) (types : List Flo.Ty)
    (result : Flo.Ty) (output : Option Nat) :
    Careful x Blames (callRoutine cx op input types result output) :=
  callRoutine_careful fun _ => nofun

theorem blockFor_blames (label : Nat) : Careful x Blames (blockFor cx label) :=
  blockFor_careful fun _ _ => nofun

theorem addArm_careful (condition target : Nat) : Careful x E (addArm cx condition target) :=
  location_careful.bind fun _ => onDraft_careful _

theorem lowerConditional_careful (op : Operator) (operands : List Expr) (t f : Nat) :
    Careful cx.index Blames (lowerConditional cx op operands t f) := by
  unfold lowerConditional
  dsimp only
  by_cases hclass : op.opClass = .comparison
  swap
  · rw [if_pos hclass]
    exact .throw nofun
  rw [if_neg (not_not.2 hclass)]
  split
  · rename_i left right
    refine (check_careful fun _ h => (foreseen_of_sameType h).1).bind fun _ => ?_
    refine (valueType_careful _).blames.bind fun typ => ?_
    refine (blockFor_blames t).bind fun _ => (blockFor_blames f).bind fun _ => ?_
    refine (read_careful left).blames.bind fun _ => (read_careful right).blames.bind fun _ => ?_
    refine (callRoutine_blames _ _ _ _ _).bind fun _ => (constant_careful _).bind fun _ => ?_
    exact (addArm_careful _ _).bind fun _ => (addArm_careful _ _).bind fun _ => .pure _
  · exact .throw nofun

theorem caseCondition_careful (selector : Nat) {typ : Flo.Ty} (htyp : typ.isInteger) (c : Case) :
    Careful x Blames (caseCondition cx selector typ c) := by
  have hconstant : ∀ value, Careful x Blames (check (integerConstant typ value)) :=
    fun value => check_careful fun _ h => (foreseen_of_integerConstant htyp h).1
  refine (hconstant c.low).bind fun _ => (constant_careful _).bind fun _ => ?_
  split
  · exact callRoutine_blames _ _ _ _ _
  · refine (hconstant c.upper).bind fun _ => (constant_careful _).bind fun _ => ?_
    exact (callRoutine_blames _ _ _ _ _).bind fun _ => (callRoutine_blames _ _ _ _ _).bind
      fun _ => callRoutine_blames _ _ _ _ _

theorem caseArms_careful (selector : Nat) {typ : Flo.Ty} (htyp : typ.isInteger)
    (cases : List (Case × Nat)) : Careful x Blames (caseArms cx selector typ cases) := by
  induction cases with
  | nil => exact .pure _
  | cons p rest ih =>
    obtain ⟨c, target⟩ := p
    exact (caseCondition_careful selector htyp c).bind fun _ => (addArm_careful _ _).bind
      fun _ => ih.bind fun _ => .pure _

/-- The type of a selector is integral, so its labels are integers of the runtime. -/
theorem lowerSwitch_careful (value : Expr) (cases : List Case) (default : Nat) :
    Careful cx.index Blames (lowerSwitch cx value cases default) := by
  unfold lowerSwitch
  split
  · exact .throw nofun
  rename_i hintegral
  refine (valueType_careful _).blames.bind_of_ran fun s typ s' hs hran => ?_
  have htyp : typ.isInteger := isInteger_of_valueType (by simpa using hintegral) hs hran
  refine (check_careful fun _ h => (foreseen_of_validateCases h).1).bind fun _ => ?_
  refine (Build.Safe.mapM cases fun c _ => blockFor_blames c.block).bind fun targets => ?_
  refine (blockFor_blames default).bind fun _ => (read_careful value).blames.bind fun _ => ?_
  refine (caseArms_careful _ htyp _).bind fun _ => Build.Safe.bind ?_ fun _ => .pure _
  exact (constant_careful _).bind fun _ => addArm_careful _ _

/-- A function with a result has a slot for it. -/
theorem lowerReturn_careful (hslot : cx.returnSlot.isSome = cx.function.returnType.isSome)
    (value : Option Expr) : Careful cx.index Blames (lowerReturn cx value) := by
  unfold lowerReturn
  split
  · exact .pure _
  · exact .throw nofun
  · exact .throw nofun
  · rename_i ty value hret
    refine (check_careful fun _ h => (foreseen_of_rejectNull h).1).bind fun _ => ?_
    refine (check_careful fun _ h => (foreseen_of_sameType h).1).bind fun _ => ?_
    refine (read_careful value).blames.bind fun v => ?_
    cases hs : cx.returnSlot with
    | none => simp [hs, hret] at hslot
    | some slot => exact (assign_careful _ _).bind fun _ => .pure _

/-! ### Statements -/

/-- The errors that are possible in a statement. Only a branch can find a routine missing that
was not looked for before. -/
def ForeseenAt (stmt : Statement) (e : Error) : Prop :=
  Blames e ∧ (stmt.isTerminator = false → Foreseen e)

theorem lowerStatement_careful (hslot : cx.returnSlot.isSome = cx.function.returnType.isSome)
    (stmt : Statement) : Careful cx.index (ForeseenAt stmt) (lowerStatement cx stmt) := by
  have hstraight : ∀ {m : LowerM (Option Flo.BlockExit)}, Careful cx.index Foreseen m →
      Careful cx.index (ForeseenAt stmt) m :=
    fun h => h.mono (fun _ hb => hb) fun _ he => ⟨he.1, fun _ => he⟩
  have hbranch : ∀ {m : LowerM (Option Flo.BlockExit)}, stmt.isTerminator →
      Careful cx.index Blames m → Careful cx.index (ForeseenAt stmt) m :=
    fun ht h => h.mono (fun _ hb => hb) fun _ he => ⟨he, fun hf => by simp [ht] at hf⟩
  cases stmt with
  | assign op lhs operands line =>
    exact hstraight ((lowerAssign_careful _ _ _).bind fun _ => .pure _)
  | call function arguments lhs line =>
    exact hstraight ((lowerCall_careful _ _ _).bind fun _ => .pure _)
  | conditional op operands t f line =>
    exact hbranch rfl ((lowerConditional_careful _ _ _ _).bind fun _ => .pure _)
  | ret value line => exact hbranch rfl ((lowerReturn_careful hslot _).bind fun _ => .pure _)
  | goto target line => exact hbranch rfl ((blockFor_blames _).bind fun _ => .pure _)
  | switch value cases default line =>
    exact hbranch rfl ((lowerSwitch_careful _ _ _).bind fun _ => .pure _)

end GimpleLowering.Lowering

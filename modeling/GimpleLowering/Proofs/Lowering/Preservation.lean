import GimpleLowering.Proofs.Lowering.ControlFlow
import GimpleLowering.Proofs.Lowering.Simulation

/-!
# Preservation of meaning

The code of a statement does to the machine what the statement does to the store. Operands are read
without changing anything but temporaries; a target is written by reading all records around the
part that changes, from the outermost one inwards, and building them again the other way round.

Nothing is asked of the types here. Code that fits is well typed, but even if the values in the
variables do not fit the types that they are used with, both sides are stuck at the same statement.

## Main definitions

* `Lowering.Implements` — the code for a statement
* `Lowering.Verdict` — what comes out when a selector is compared with a label
* `Lowering.Preserves` — an object that means what a function means

## Main results

* `Lowering.IsFunction.reads`, `writes` — the code of operands
* `Lowering.IsFunction.performs`, `leaves` — the code of statements
* `Lowering.lowerFunction_preserves` — every function keeps its meaning
-/

namespace GimpleLowering

open Gimple Layout

namespace Lowering

variable {P : Setting} {ps : Polyfills} {w : State} {parameters locals : List Var} {entry : Nat}
  {signature : Flo.Signature} {R : Runtime} {σ : Store} {M M' : Flo.Machine}

/-- The code does to the machine what the statement does to the store: if the machine is in the
state that a store describes, then either both fail, in the same way, or the machine is in the
state that the new store describes. -/
def Implements (x : UnitIndex) (ps : Polyfills) (f : Function) (o : Flo.Object)
    (idOf : String → Nat) (returns : List Nat) (stmt : Statement) (code : List Flo.Statement) :
    Prop :=
  ∀ {R : Runtime} {σ : Store} {M : Flo.Machine}, Matches f idOf returns σ M →
    Agrees (Matches f idOf returns) (Program.perform ⟨x, ps, f, R⟩ σ stmt) (o.execAll R M code)

/-! ### Order of temporaries -/

theorem Reads.le {x : UnitIndex} {e : Expr} {n v m : Nat} {code : List Flo.Statement}
    (h : Reads x w e n v code m) : n ≤ m := by
  induction h with
  | constant => exact Nat.le_succ _
  | named le => exact le
  | through _ _ _ _ _ _ ih => exact Nat.le_succ_of_le ih
  | part _ _ _ _ _ _ ih => exact Nat.le_add_right_of_le ih
  | deref _ _ _ _ _ _ ih => exact Nat.le_succ_of_le ih
  | element _ _ _ _ _ _ _ _ ih ih' => exact Nat.le_succ_of_le (Nat.le_trans ih ih')

theorem ReadsAll.le {x : UnitIndex} {es : List Expr} {n m : Nat} {vs : List Nat}
    {code : List Flo.Statement} (h : ReadsAll x w es n vs code m) : n ≤ m := by
  induction h with
  | nil => exact Nat.le_refl _
  | cons read _ ih => exact Nat.le_trans read.le ih

theorem Writes.isConstant {x : UnitIndex} {e : Expr} {n v m : Nat} {code : List Flo.Statement}
    (h : Writes x w e n v code m) : e.isConstant = false := by
  cases h <;> rfl

/-- What the routines say when a selector is compared with a label. -/
inductive Verdict (R : Runtime) (ps : Polyfills) (typ : Flo.Ty) (c : Case) (selector : Value) :
    Value → Prop where
  | single {eq : String} (isSingle : c.upper = c.low)
      (isEq : ps.forOperation? .eq [typ, typ] .bool = some eq) :
      Verdict R ps typ c selector (R.routine eq [selector, .integer c.low])
  | range {ge le and : String} (isRange : c.upper ≠ c.low)
      (isGe : ps.forOperation? .ge [typ, typ] .bool = some ge)
      (isLe : ps.forOperation? .le [typ, typ] .bool = some le)
      (isAnd : ps.forOperation? .truthAnd [.bool, .bool] .bool = some and) :
      Verdict R ps typ c selector (R.routine and
        [R.routine ge [selector, .integer c.low], R.routine le [selector, .integer c.upper]])

namespace IsFunction

/-! ### Operands -/

theorem fieldBehind_eq {P : Program} {w : State} {pointer record : Ty} {struct : Nat}
    {slots : List Slot} {member : String} {slot : Slot} (hb : pointer.indirectBase = some record)
    (hi : IsSlot P.index w record struct slots member slot) :
    P.fieldBehind pointer member = .ok (.field slot.index) := by
  rw [Program.fieldBehind, hb]
  simp only [hi.position]
  rfl

/-- A load at the end of some code. -/
theorem load_agrees {m handle : Nat} {member : Flo.Member} {typ : Flo.Ty} {note : Flo.Note}
    (temp : Temp w m typ) {value : Value} {access : Access}
    (hv : w.draft.object.get M handle = .ok value)
    (ha : w.draft.object.access M member = .ok access) :
    Agrees (fun value M' => Unchanged w m M M' ∧ Settled w (m + 1) M' m value)
      (M.memory.load value access)
      (w.draft.object.execAll R M [.load handle member m note]) := by
  rw [Flo.Object.execAll_singleton, Flo.Object.exec, hv, ha]
  exact temp.agrees_set M _

theorem reads (h : IsFunction P ps w parameters locals entry signature) {e : Expr} {n v m : Nat}
    {code : List Flo.Statement} (hr : Reads P.index w e n v code m)
    (hm : Matches P.function w.idOf P.returns σ M) :
    Agrees (fun value M' => Unchanged w n M M' ∧ Settled w m M' v value)
      ((P.program ps R).eval σ e) (w.draft.object.execAll R M code) := by
  induction hr generalizing M with
  | @constant e c n note isConstant temp noted =>
    obtain ⟨value, heval, hvalue⟩ := isConstant.value? (P.program ps R) σ
    rw [heval, Flo.Object.execAll_singleton, Flo.Object.exec, hvalue]
    exact temp.agrees_set M (.ok value)
  | @named ty v n m le mem agrees =>
    obtain ⟨value, hread, hget⟩ : ∃ value, (P.program ps R).read σ v.name = .ok value ∧
        w.draft.object.get M v.id = .ok value := h.get_of_mem hm mem
    rw [Program.eval, hread]
    exact .ok ⟨.refl w n M, .inr (h.not_isTemp_of_mem mem), hget⟩
  | @through ty rty record pointer member struct slots slot n handle m code note base isSlot agrees
      readPointer temp noted ih =>
    have hfield := fieldBehind_eq (P := P.program ps R) base isSlot
    rw [Program.eval, hfield, Flo.Object.execAll_append]
    refine (ih hm).bind fun value M₁ hstep => ?_
    obtain ⟨hu, hs⟩ := hstep
    rw [← hm.memory, ← hu.memory]
    refine (load_agrees temp hs.get rfl).mono fun value M₂ hstep => ?_
    obtain ⟨hu', hs'⟩ := hstep
    exact ⟨hu.trans (hu'.mono readPointer.le), hs'⟩
  | @part ty base member struct slots slot n whole m code note direct isSlot agrees readWhole temps
      noted ih =>
    rw [Program.eval_component direct, isSlot.position (P := P.program ps R),
      Flo.Object.execAll_append]
    refine (ih hm).bind fun value M₁ hstep => ?_
    obtain ⟨hu, hs⟩ := hstep
    rw [Flo.Object.execAll_singleton]
    have hparts := isSlot.agrees_parts (P := P.program ps R) temps note R hs
    cases hp : (P.program ps R).parts base.ty value with
    | error e =>
      rw [hp] at hparts
      rw [hparts.eq_of_error]
      exact .error e
    | ok parts =>
      rw [hp] at hparts
      obtain ⟨M₂, hM₂, hlen, hu', hall⟩ := hparts.exists_of_ok
      rw [hM₂]
      exact .ok ⟨hu.trans (hu'.mono readWhole.le), .of_forall₂ hall isSlot.index_lt⟩
  | @deref ty pointee pointer rep n handle m code note base agrees represents readPointer temp noted
      ih =>
    rw [Program.eval, Flo.Object.execAll_append]
    refine (ih hm).bind fun value M₁ hstep => ?_
    obtain ⟨hu, hs⟩ := hstep
    rw [← hm.memory, ← hu.memory]
    refine (load_agrees temp hs.get rfl).mono fun value M₂ hstep => ?_
    obtain ⟨hu', hs'⟩ := hstep
    exact ⟨hu.trans (hu'.mono readPointer.le), hs'⟩
  | @element ty base length array index rep n a k i m code code' note isArray agrees integral
      represents readArray readIndex temp noted ih ih' =>
    rw [Program.eval, List.append_assoc, Flo.Object.execAll_append]
    refine (ih hm).bind fun value M₁ hstep => ?_
    obtain ⟨hu, hs⟩ := hstep
    rw [Flo.Object.execAll_append]
    refine (ih' (h.matches_of_unchanged hm hu)).bind fun value' M₂ hstep => ?_
    obtain ⟨hu', hs'⟩ := hstep
    rw [← hm.memory, ← hu.memory, ← hu'.memory]
    refine (load_agrees temp (hs.mono hu' readIndex.le).get
      (Flo.Object.access_element hs'.get)).mono fun value M₃ hstep => ?_
    obtain ⟨hu'', hs''⟩ := hstep
    refine ⟨(hu.trans (hu'.mono readArray.le)).trans (hu''.mono ?_), hs''⟩
    exact Nat.le_trans readArray.le readIndex.le

/-- A part of a record by value is changed by changing the record. -/
theorem assign_part {P : Program} {base : Expr} (direct : ∀ rty pointer, base ≠ .deref rty pointer)
    (hc : base.isConstant = false) {ty : Ty} {member : String} {i : Nat}
    (hi : P.position base.ty member = .ok i) (value : Value) :
    P.assign σ (.component ty base member) value = (do
      let parts ← P.parts base.ty (← P.eval σ base)
      P.assign σ base (.record (parts.set i value))) := by
  simp only [Program.assign, Program.place_component direct, hi, Program.eval_eq_get_place hc]
  cases P.place σ base with
  | error e => rfl
  | ok place => rfl

/-- A store at the end of some code. -/
theorem store_agrees {f : Function} {idOf : String → Nat} {returns : List Nat}
    (hm : Matches f idOf returns σ M) {handle source : Nat} {member : Flo.Member}
    {note : Flo.Note} {reference value : Value} {access : Access} {Q : Program}
    (hh : w.draft.object.get M handle = .ok reference)
    (ha : w.draft.object.access M member = .ok access)
    (hv : w.draft.object.get M source = .ok value) :
    Agrees (Matches f idOf returns) (Q.set σ (.object reference access) value)
      (w.draft.object.execAll R M [.store handle member source note]) := by
  rw [Flo.Object.execAll_singleton, Flo.Object.exec, hh, ha, hv, Program.set, ← hm.memory]
  refine (Agrees.refl _).bind fun memory memory' heq => ?_
  exact .ok ⟨heq.symm, hm.locals, hm.result⟩

/-- The code that writes a target changes what the target denotes. -/
theorem writes (h : IsFunction P ps w parameters locals entry signature) {e : Expr} {n v m : Nat}
    {code : List Flo.Statement} (hw : Writes P.index w e n v code m)
    (hm : Matches P.function w.idOf P.returns σ M) {value : Value} (hs : Settled w n M v value) :
    Agrees (Matches P.function w.idOf P.returns) ((P.program ps R).assign σ e value)
      (w.draft.object.execAll R M code) := by
  induction hw generalizing M value with
  | @named ty v source n m note le mem agrees noted =>
    rw [Flo.Object.execAll_singleton, Flo.Object.exec, hs.get]
    exact h.set_of_mem hm mem value
  | @through ty rty record pointer member struct slots slot source n handle m code note base isSlot
      agrees readPointer noted =>
    have hfield := fieldBehind_eq (P := P.program ps R) base isSlot
    rw [Program.assign, Program.place, hfield, Flo.Object.execAll_append]
    simp only [bind_assoc, pure_bind]
    refine (h.reads readPointer hm).bind fun handle M₁ hstep => ?_
    obtain ⟨hu, hh⟩ := hstep
    exact store_agrees (h.matches_of_unchanged hm hu) hh.get rfl (hs.mono hu readPointer.le).get
  | @part ty base member struct slots slot source n whole k m code code' note note' direct isSlot
      agrees readWhole temps temp writeBase noted noted' ih =>
    rw [assign_part direct writeBase.isConstant (isSlot.position (P := P.program ps R)),
      Flo.Object.execAll_append, Flo.Object.execAll_append, bind_assoc]
    refine (h.reads readWhole hm).bind fun value' M₁ hstep => ?_
    obtain ⟨hu, hw⟩ := hstep
    have hparts := isSlot.agrees_parts (P := P.program ps R) temps note R hw
    rw [Flo.Object.execAll, bind_assoc]
    refine hparts.bind fun parts M₂ hstep => ?_
    obtain ⟨_, hu', hall⟩ := hstep
    have hs₂ : Settled w (k + slots.length) M₂ source value :=
      (hs.mono hu readWhole.le).mono hu' (Nat.le_add_right _ _)
    obtain ⟨M₃, hset, hu'', hs₃⟩ := temp.set M₂ (.record (parts.set slot.index value))
    have hexec : w.draft.object.execAll R M₂ [.construct (k + slots.length)
        ((List.range' k slots.length).set slot.index source) note'] = .ok M₃ := by
      rw [Flo.Object.execAll_singleton, Flo.Object.exec, Settled.mapM (hs₂.set hall slot.index)]
      exact hset
    rw [hexec]
    refine ih ?_ hs₃
    exact h.matches_of_unchanged (h.matches_of_unchanged (h.matches_of_unchanged hm hu) hu') hu''
  | @deref ty pointee pointer source n handle m code note base agrees readPointer noted =>
    rw [Program.assign, Program.place, Flo.Object.execAll_append]
    simp only [bind_assoc, pure_bind]
    refine (h.reads readPointer hm).bind fun handle M₁ hstep => ?_
    obtain ⟨hu, hh⟩ := hstep
    exact store_agrees (h.matches_of_unchanged hm hu) hh.get rfl (hs.mono hu readPointer.le).get
  | @element ty base length array index source n a k i m code code' note isArray agrees integral
      readArray readIndex noted =>
    rw [Program.assign, Program.place, List.append_assoc, Flo.Object.execAll_append]
    simp only [bind_assoc, pure_bind]
    refine (h.reads readArray hm).bind fun array M₁ hstep => ?_
    obtain ⟨hu, ha⟩ := hstep
    have hm₁ := h.matches_of_unchanged hm hu
    rw [Flo.Object.execAll_append]
    refine (h.reads readIndex hm₁).bind fun index M₂ hstep => ?_
    obtain ⟨hu', hi⟩ := hstep
    exact store_agrees (h.matches_of_unchanged hm₁ hu') (ha.mono hu' readIndex.le).get
      (Flo.Object.access_element hi.get) ((hs.mono hu readArray.le).mono hu' readIndex.le).get

/-- The code that reads operands reads all of them. -/
theorem readsAll (h : IsFunction P ps w parameters locals entry signature) {es : List Expr}
    {n m : Nat} {vs : List Nat} {code : List Flo.Statement}
    (hr : ReadsAll P.index w es n vs code m) (hm : Matches P.function w.idOf P.returns σ M) :
    Agrees (fun values M' => Unchanged w n M M' ∧ List.Forall₂ (Settled w m M') vs values)
      (es.mapM ((P.program ps R).eval σ)) (w.draft.object.execAll R M code) := by
  induction hr generalizing M with
  | nil n => exact .ok ⟨.refl w n M, .nil⟩
  | @cons e es n v k m vs code code' read rest ih =>
    rw [List.mapM_cons, Flo.Object.execAll_append]
    refine (h.reads read hm).bind fun value M₁ ⟨hu, hs⟩ => ?_
    rw [← bind_pure (w.draft.object.execAll R M₁ code')]
    refine (ih (h.matches_of_unchanged hm hu)).bind fun values M₂ ⟨hu', hss⟩ => ?_
    exact .ok ⟨hu.trans (hu'.mono read.le), .cons (hs.mono hu' rest.le) hss⟩

/-! ### Operations -/

/-- The names that operations have for a runtime type are those for the type. -/
theorem typeName?_eq {x : UnitIndex} {r : Registry} {ty : Ty} {typ : Flo.Ty}
    (h : HasValueType x r ty typ) : Polyfill.typeName? typ = ty.operandName? := by
  obtain ⟨rep, hrep, rfl⟩ := h
  cases hrep with
  | integer32 | integer64 | real | boolean | array => rfl
  | record isRecord =>
    cases ty <;> first | rfl | cases isRecord
  | recordHandle indirect | cell indirect =>
    cases ty <;> first | rfl | cases indirect

theorem forOperation?_eq {x : UnitIndex} {r : Registry} {op : Operator} {tys : List Ty} {ty : Ty}
    {types : List Flo.Ty} {result : Flo.Ty} (h : List.Forall₂ (HasValueType x r) tys types)
    (hr : HasValueType x r ty result) : ps.forOperation? op types result = ps.forTypes? op tys ty := by
  have hmap : types.mapM Polyfill.typeName? = tys.mapM Ty.operandName? := by
    induction h with
    | nil => rfl
    | cons hhead _ ih => rw [List.mapM_cons, List.mapM_cons, typeName?_eq hhead, ih]
  rw [Polyfills.forOperation?, Polyfills.forTypes?, hmap, typeName?_eq hr]

/-- The routine that is called computes the operation. -/
theorem apply_eq {op : Operator} {tys : List Ty} {ty : Ty} {types : List Flo.Ty} {result : Flo.Ty}
    {routine : String} (hop : op.opClass ≠ .copy)
    (h : List.Forall₂ (HasValueType P.index w.types) tys types)
    (hr : HasValueType P.index w.types ty result)
    (hroutine : ps.forOperation? op types result = some routine) (values : List Value) :
    (P.program ps R).apply op ty tys values = .ok (R.routine routine values) := by
  rw [forOperation?_eq h hr] at hroutine
  unfold Program.apply
  rw [if_neg hop, show (P.program ps R).polyfills.forTypes? op tys ty = some routine from hroutine]
  rfl

/-- Both sides call the function, and go on with its results if there are as many as it says. -/
theorem call_agrees {function : String} {callee : Signature}
    (isCallee : P.index.function? function = some callee)
    (hm : Matches P.function w.idOf P.returns σ M) {vs outputs : List Nat} {values : List Value}
    {note : Flo.Note} (hs : vs.mapM (w.draft.object.get M) = .ok values)
    (hlen : outputs.length = callee.returnType.toList.length) {α β : Type} {post : α → β → Prop}
    {f : List Value × Store → Outcome α} {g : Flo.Machine → Outcome β}
    (hfg : ∀ results memory, results.length = outputs.length →
      Agrees post (f (results, { σ with memory }))
        (w.draft.object.setAll { M with memory } outputs results >>= g)) :
    Agrees post ((P.program ps R).call σ function values >>= f)
      (w.draft.object.execAll R M [.call (.external callee.name) vs outputs note] >>= g) := by
  have hcallee : (P.program ps R).index.function? function = some callee := isCallee
  rw [Flo.Object.execAll_singleton, Flo.Object.exec, hs, UnitIndex.name_of_function? isCallee,
    Program.call, hcallee]
  simp only [bind_assoc, hm.memory]
  change Agrees post (R.function function values σ.memory >>= _)
    (R.function function values σ.memory >>= _)
  cases R.function function values σ.memory with
  | error e => exact .error e
  | ok p =>
    obtain ⟨results, memory⟩ := p
    change Agrees post
      ((if results.length = callee.returnType.toList.length then
        pure (results, { σ with memory }) else .error .stuck) >>= f)
      (w.draft.object.setAll { M with memory } outputs results >>= g)
    by_cases hr : results.length = outputs.length
    · rw [if_pos (hr.trans hlen)]
      exact hfg results memory hr
    · rw [if_neg (hlen ▸ hr), Flo.Object.setAll, if_neg (Ne.symm hr)]
      exact .error .stuck

/-! ### Statements -/

theorem performs (h : IsFunction P ps w parameters locals entry signature) {stmt : Statement}
    {n m : Nat} {code : List Flo.Statement} (hp : Performs P ps w stmt n code m)
    (hm : Matches P.function w.idOf P.returns σ M) :
    Agrees (Matches P.function w.idOf P.returns) ((P.program ps R).perform σ stmt)
      (w.draft.object.execAll R M code) := by
  cases hp with
  | @copy op lhs source line n v k m code code' isCopy noNull agrees read write =>
    rw [Program.perform, Flo.Object.execAll_append, List.mapM_cons, List.mapM_nil]
    simp only [bind_assoc, pure_bind, Program.apply, if_pos isCopy]
    refine (h.reads read hm).bind fun value M₁ ⟨hu, hs⟩ => ?_
    exact h.writes write (h.matches_of_unchanged hm hu) hs
  | @operateTo op ty v operands line types result routine n k m vs code note noCopy arity noNull
      checked operandTypes resultType isRoutine reads le mem agrees noted =>
    rw [Program.perform, Flo.Object.execAll_append]
    refine (h.readsAll reads hm).bind fun values M₁ ⟨hu, hs⟩ => ?_
    have happly : (P.program ps R).apply op (Expr.named ty v.name).ty (operands.map Expr.ty)
        values = .ok (R.routine routine values) :=
      apply_eq noCopy operandTypes resultType isRoutine values
    rw [happly, Flo.Object.execAll_routine (Settled.mapM hs)]
    exact h.set_of_mem (h.matches_of_unchanged hm hu) mem _
  | @operate op lhs operands line types result routine n k m vs code code' note noCopy arity unnamed
      noNull checked operandTypes resultType isRoutine reads temp write noted =>
    rw [Program.perform, Flo.Object.execAll_append, Flo.Object.execAll_append, bind_assoc]
    refine (h.readsAll reads hm).bind fun values M₁ ⟨hu, hs⟩ => ?_
    obtain ⟨M₂, hset, hu', hs'⟩ := temp.set M₁ (R.routine routine values)
    rw [apply_eq noCopy operandTypes resultType isRoutine,
      Flo.Object.execAll_routine (Settled.mapM hs), hset]
    exact h.writes write (h.matches_of_unchanged (h.matches_of_unchanged hm hu) hu') hs'
  | @callTo function callee arguments ty result v line n k m vs code note isCallee passed returns
      stored reads le mem agrees noted =>
    rw [Program.perform, Flo.Object.execAll_append]
    refine (h.readsAll reads hm).bind fun values M₁ ⟨hu, hs⟩ => ?_
    have hm₁ := h.matches_of_unchanged hm hu
    rw [← bind_pure (w.draft.object.execAll R M₁ _)]
    refine call_agrees isCallee hm₁ (Settled.mapM hs) (by simp [returns]) fun results memory hlen => ?_
    obtain ⟨value, rfl⟩ := List.length_eq_one_iff.1 hlen
    rw [Flo.Object.setAll_singleton, bind_pure]
    exact h.set_of_mem (hm₁.withMemory memory) mem value
  | @callStore function callee arguments lhs result typ line n k m vs code code' note isCallee passed
      returns stored unnamed reads resultType temp write noted =>
    rw [Program.perform, Flo.Object.execAll_append, Flo.Object.execAll_append, bind_assoc]
    refine (h.readsAll reads hm).bind fun values M₁ ⟨hu, hs⟩ => ?_
    have hm₁ := h.matches_of_unchanged hm hu
    refine call_agrees isCallee hm₁ (Settled.mapM hs) (by simp [returns]) fun results memory hlen => ?_
    obtain ⟨value, rfl⟩ := List.length_eq_one_iff.1 hlen
    obtain ⟨M₂, hset, hu', hs'⟩ := temp.set { M₁ with memory } value
    rw [Flo.Object.setAll_singleton, hset]
    exact h.writes write (h.matches_of_unchanged (hm₁.withMemory memory) hu') hs'
  | @callDiscard function callee arguments result typ line n k vs code note isCallee passed returns
      reads resultType temp noted =>
    rw [Program.perform, Flo.Object.execAll_append]
    refine (h.readsAll reads hm).bind fun values M₁ ⟨hu, hs⟩ => ?_
    have hm₁ := h.matches_of_unchanged hm hu
    rw [← bind_pure (w.draft.object.execAll R M₁ _)]
    refine call_agrees isCallee hm₁ (Settled.mapM hs) (by simp [returns]) fun results memory hlen => ?_
    obtain ⟨value, rfl⟩ := List.length_eq_one_iff.1 hlen
    obtain ⟨M₂, hset, hu', -⟩ := temp.set { M₁ with memory } value
    rw [Flo.Object.setAll_singleton, hset]
    exact .ok (h.matches_of_unchanged (hm₁.withMemory memory) hu')
  | @callVoid function callee arguments line n m vs code note isCallee passed returns reads noted =>
    rw [Program.perform, Flo.Object.execAll_append]
    refine (h.readsAll reads hm).bind fun values M₁ ⟨hu, hs⟩ => ?_
    have hm₁ := h.matches_of_unchanged hm hu
    rw [← bind_pure (w.draft.object.execAll R M₁ _)]
    refine call_agrees isCallee hm₁ (Settled.mapM hs) (by simp [returns]) fun results memory hlen => ?_
    obtain rfl := List.length_eq_zero_iff.1 hlen
    exact .ok (hm₁.withMemory memory)

/-- A constant at the end of some code. -/
theorem execAll_constant {c : Flo.Constant} {k : Nat} (temp : Temp w k c.typ) {value : Value}
    (hc : c.value? = .ok value) (M : Flo.Machine) (note : Flo.Note) :
    ∃ M', w.draft.object.execAll R M [.assignConst k c note] = .ok M' ∧ Unchanged w k M M' ∧
      Settled w (k + 1) M' k value := by
  obtain ⟨M', hset, hu, hs⟩ := temp.set M value
  refine ⟨M', ?_, hu, hs⟩
  rw [Flo.Object.execAll_singleton, Flo.Object.exec, hc]
  exact hset

/-- A comparison or another operation with a temporary for its result. -/
theorem execAll_operation {k : Nat} {typ : Flo.Ty} (temp : Temp w k typ) {vs : List Nat}
    {values : List Value} (hs : List.Forall₂ (Settled w k M) vs values) (routine : String)
    (note : Flo.Note) :
    ∃ M', w.draft.object.execAll R M [.call (.builtin routine) vs [k] note] = .ok M' ∧
      Unchanged w k M M' ∧ Settled w (k + 1) M' k (R.routine routine values) := by
  obtain ⟨M', hset, hu, hs'⟩ := temp.set M (R.routine routine values)
  exact ⟨M', (Flo.Object.execAll_routine (Settled.mapM hs) _ _ _).trans hset, hu, hs'⟩

/-- Comparing a selector with a label changes only temporaries, and leaves what the routines say in
the condition. -/
theorem compares {selector : Nat} {typ : Flo.Ty} {c : Case} {n v m : Nat}
    {code : List Flo.Statement} (hc : Compares ps w selector typ c n v code m) {value : Value}
    (hs : Settled w n M selector value) :
    n ≤ m ∧ ∃ M' result, w.draft.object.execAll R M code = .ok M' ∧ Unchanged w n M M' ∧
      Verdict R ps typ c value result ∧ Settled w m M' v result := by
  cases hc with
  | @single low eq n note note' isSingle isLow isEq temp result noted noted' =>
    obtain ⟨M₁, hM₁, hu₁, hs₁⟩ := execAll_constant (R := R) temp (value?_integerConstant isLow) M note
    obtain ⟨M₂, hM₂, hu₂, hs₂⟩ := execAll_operation (R := R) result
      (.cons (hs.mono hu₁ (Nat.le_succ n)) (.cons hs₁ .nil)) eq note'
    refine ⟨by omega, M₂, _, ?_, hu₁.trans (hu₂.mono (Nat.le_succ n)), .single isSingle isEq, hs₂⟩
    rw [← List.singleton_append, Flo.Object.execAll_append, hM₁]
    exact hM₂
  | @range low high ge le and n note₁ note₂ note₃ note₄ note₅ isRange isLow isHigh isGe isLe isAnd
      lowTemp highTemp above below both noted =>
    obtain ⟨M₁, hM₁, hu₁, hs₁⟩ :=
      execAll_constant (R := R) lowTemp (value?_integerConstant isLow) M note₁
    have hsel₁ := hs.mono hu₁ (Nat.le_succ n)
    obtain ⟨M₂, hM₂, hu₂, hs₂⟩ :=
      execAll_constant (R := R) highTemp (value?_integerConstant isHigh) M₁ note₂
    have hsel₂ := hsel₁.mono hu₂ (Nat.le_succ (n + 1))
    obtain ⟨M₃, hM₃, hu₃, hs₃⟩ := execAll_operation (R := R) above
      (.cons hsel₂ (.cons (hs₁.mono hu₂ (Nat.le_succ (n + 1))) .nil)) ge note₃
    obtain ⟨M₄, hM₄, hu₄, hs₄⟩ := execAll_operation (R := R) below
      (.cons (hsel₂.mono hu₃ (Nat.le_succ (n + 2)))
        (.cons (hs₂.mono hu₃ (Nat.le_succ (n + 2))) .nil)) le note₄
    obtain ⟨M₅, hM₅, hu₅, hs₅⟩ := execAll_operation (R := R) both
      (.cons (hs₃.mono hu₄ (Nat.le_succ (n + 3))) (.cons hs₄ .nil)) and note₅
    refine ⟨by omega, M₅, _, ?_, ?_, .range isRange isGe isLe isAnd, hs₅⟩
    · simp only [Flo.Object.execAll_cons hM₁, Flo.Object.execAll_cons hM₂,
        Flo.Object.execAll_cons hM₃, Flo.Object.execAll_cons hM₄, hM₅]
    · have hu₁₂ := hu₁.trans (hu₂.mono (Nat.le_succ n))
      have hu₃₄ := hu₃.trans (hu₄.mono (Nat.le_succ (n + 2)))
      exact (hu₁₂.trans (hu₃₄.mono (by omega))).trans (hu₅.mono (by omega))

/-- The code of the conditions of a switch changes only temporaries, and leaves what the routines
say in the conditions of the arms. -/
theorem arms {selector : Nat} {typ : Flo.Ty} {cases : List (Case × Nat)} {n m : Nat}
    {code : List Flo.Statement} {ids : List Nat} (ha : Arms ps w selector typ cases n code ids m)
    {value : Value} (hs : Settled w n M selector value) :
    n ≤ m ∧ ∃ M', w.draft.object.execAll R M code = .ok M' ∧ Unchanged w n M M' ∧
      List.Forall₂ (fun p arm => ∃ condition result, IsArm w arm condition p.2 ∧
        Verdict R ps typ p.1 value result ∧ Settled w m M' condition result) cases ids := by
  induction ha generalizing M with
  | nil n => exact ⟨Nat.le_refl n, M, rfl, .refl w n M, .nil⟩
  | cons compare isArm rest ih =>
    obtain ⟨hle, M₁, result, hM₁, hu, hverdict, hresult⟩ := compares (R := R) compare hs
    obtain ⟨hle', M₂, hM₂, hu', hall⟩ := ih (hs.mono hu hle)
    refine ⟨Nat.le_trans hle hle', M₂, ?_, hu.trans (hu'.mono hle),
      .cons ⟨_, result, isArm, hverdict, hresult.mono hu' hle'⟩ hall⟩
    rw [Flo.Object.execAll_append, hM₁]
    exact hM₂

/-- The code of a statement that ends a block does what the statement does to the store. -/
theorem leaves (h : IsFunction P ps w parameters locals entry signature) {stmt : Statement}
    {n m : Nat} {code : List Flo.Statement} {exit : Flo.BlockExit}
    (hl : Leaves P ps w stmt n code exit m) (hm : Matches P.function w.idOf P.returns σ M) :
    Agrees (Matches P.function w.idOf P.returns) ((P.program ps R).perform σ stmt)
      (w.draft.object.execAll R M code) := by
  cases hl with
  | goto isTarget => exact .ok hm
  | @conditional op left right t f line typ routine tid fid first second n a k b m code code' note
      note' isComparison agrees operandType isTrue isFalse isRoutine readLeft readRight condition
      otherwise isFirst isSecond noted noted' =>
    have hreads : ReadsAll P.index w [left, right] n [a, b] (code ++ (code' ++ [])) m :=
      .cons readLeft (.cons readRight (.nil m))
    rw [List.append_nil] at hreads
    rw [Program.perform, Flo.Object.execAll_append]
    refine (h.readsAll hreads hm).bind fun values M₁ ⟨hu, hs⟩ => ?_
    obtain ⟨M₂, hM₂, hu', -⟩ := execAll_operation (R := R) condition hs routine note
    obtain ⟨M₃, hM₃, hu'', -⟩ := execAll_constant (R := R) otherwise value?_ofBool_true M₂ note'
    rw [Flo.Object.execAll_cons hM₂, hM₃]
    exact .ok (h.matches_of_unchanged (h.matches_of_unchanged (h.matches_of_unchanged hm hu) hu') hu'')
  | @switch value cases label line typ targets ids default last n v k m code code' note integral
      selectorType valid areTargets isDefault read areArms otherwise isLast noted =>
    rw [Program.perform, List.append_assoc, Flo.Object.execAll_append]
    refine (h.reads read hm).bind fun value M₁ ⟨hu, hs⟩ => ?_
    obtain ⟨hle, M₂, hM₂, hu', -⟩ := arms (R := R) areArms hs
    obtain ⟨M₃, hM₃, hu'', -⟩ := execAll_constant (R := R) otherwise value?_ofBool_true M₂ note
    rw [Flo.Object.execAll_append, hM₂]
    change Agrees _ (.ok σ) (w.draft.object.execAll R M₂ _)
    rw [hM₃]
    exact .ok (h.matches_of_unchanged (h.matches_of_unchanged (h.matches_of_unchanged hm hu) hu') hu'')
  | retVoid isVoid => exact .ok hm
  | @ret value ty line slot n v m code note isResult isSlot noNull agrees read noted =>
    rw [Program.perform, Flo.Object.execAll_append]
    refine (h.reads read hm).bind fun value M₁ ⟨hu, hs⟩ => ?_
    rw [Flo.Object.execAll_singleton, Flo.Object.exec, hs.get]
    exact h.set_result (h.matches_of_unchanged hm hu) isSlot value

/-- Every statement of a block is implemented by its code. -/
theorem lowersAll (h : IsFunction P ps w parameters locals entry signature)
    {stmts : List Statement} {n m : Nat} {codes : List (List Flo.Statement)}
    {exit : Option Flo.BlockExit} (hl : LowersAll P ps w stmts n codes exit m) :
    List.Forall₂ (Implements P.index ps P.function w.draft.object w.idOf P.returns) stmts codes := by
  induction hl with
  | nil => exact .nil
  | leave leaves => exact .cons (fun hm => h.leaves leaves hm) .nil
  | perform performs _ ih => exact .cons (fun hm => h.performs performs hm) ih

/-- The machine can be in the state that any store describes. -/
theorem exists_matches (h : IsFunction P ps w parameters locals entry signature) (σ : Store) :
    ∃ M, Matches P.function w.idOf P.returns σ M := by
  refine ⟨⟨fun u => if u ∈ P.returns then σ.result else
    ((w.scope.find? fun v => v.id = u).map fun v => σ.locals v.name).getD .null, σ.memory⟩, rfl,
    fun {name} hd => ?_, fun id hid => if_pos hid⟩
  obtain ⟨v, hv, rfl, -⟩ := h.exists_of_declares hd
  have hnot : v.id ∉ P.returns := fun hmem => List.disjoint_of_nodup_append h.inv.ids hmem
    (List.mem_map_of_mem hv)
  rw [h.idOf_eq hv]
  refine (if_neg hnot).trans ?_
  cases hf : w.scope.find? fun u => u.id = v.id with
  | none => simpa using List.find?_eq_none.1 hf v hv
  | some u =>
    have hid : u.id = v.id := by simpa using List.find?_some hf
    obtain rfl : u = v := List.inj_on_of_nodup_map (List.nodup_append.1 h.inv.ids).2.1
      (List.mem_of_find?_eq_some hf) hv hid
    rfl

end IsFunction

/-! ### Functions -/

/-- The object means what the function means. Its signature has the variables for the parameters,
the machine can be in the state of any store, and the blocks implement the statements of the
blocks that they are the images of. -/
structure Preserves (x : UnitIndex) (ps : Polyfills) (f : Function) (o : Flo.Object)
    (image : Nat → Nat) (signature : Flo.Signature) (idOf : String → Nat) : Prop where
  controlFlow : ControlFlow f o image signature
  params : signature.params = f.parameters.map fun d => idOf d.name
  state : ∀ σ, ∃ M, Matches f idOf signature.returns σ M
  body : ∀ {label : Nat}, label ≠ exitIndex → f.Reaches label → ∃ b row codes,
    f.block? label = some b ∧ o.blocks.get? (image label) = some row ∧
      row.statements.map o.statements.get? = codes.flatten.map some ∧
      List.Forall₂ (Implements x ps f o idOf signature.returns) b.statements codes

/-- Code that implements statements one by one implements all of them. -/
theorem Implements.all {x : UnitIndex} {f : Function} {o : Flo.Object} {idOf : String → Nat}
    {returns : List Nat} {stmts : List Statement} {codes : List (List Flo.Statement)}
    (h : List.Forall₂ (Implements x ps f o idOf returns) stmts codes)
    (hm : Matches f idOf returns σ M) :
    Agrees (Matches f idOf returns) (Program.performAll ⟨x, ps, f, R⟩ σ stmts)
      (o.execAll R M codes.flatten) := by
  induction h generalizing σ M with
  | nil => exact .ok hm
  | cons hhead _ ih =>
    rw [List.flatten_cons, Flo.Object.execAll_append]
    exact (hhead hm).bind fun σ' M' hm' => ih hm'

/-- A block of the object does what the block of the source does. -/
theorem Preserves.execBlock {x : UnitIndex} {f : Function} {o : Flo.Object} {image : Nat → Nat}
    {idOf : String → Nat} (h : Preserves x ps f o image signature idOf) {label : Nat}
    (hne : label ≠ exitIndex) (hl : f.Reaches label) :
    ∃ b row, f.block? label = some b ∧ o.blocks.get? (image label) = some row ∧
      ∀ {R : Runtime} {σ : Store} {M : Flo.Machine}, Matches f idOf signature.returns σ M →
        Agrees (Matches f idOf signature.returns)
          (Program.performAll ⟨x, ps, f, R⟩ σ b.statements) (o.execBlock R M row) := by
  obtain ⟨b, row, codes, hb, hrow, hcode, himpl⟩ := h.body hne hl
  refine ⟨b, row, hb, hrow, fun hm => ?_⟩
  rw [Flo.Object.execBlock_eq hcode]
  exact Implements.all himpl hm

/-- Every function keeps its meaning. -/
theorem lowerFunction_preserves {x : UnitIndex} {source : String} {f : Function}
    {types types' : Registry} {o : Flo.Object} (reached : Reached x types)
    (run : (lowerFunction x ps source f).Ran types o types') :
    ∃ image signature idOf, Preserves x ps f o image signature idOf := by
  obtain ⟨returns, w, parameters, locals, entry, signature, h, rfl, rfl⟩ :=
    lowerFunction_ran (.univ x) (by simp) reached.sound run
  refine ⟨w.image, signature, w.idOf, h.controlFlow, ?_, fun σ => ?_, fun {l} hne hl => ?_⟩
  · rw [h.params, ← h.declaresParameters.1, List.map_map]
    refine List.map_congr_left fun v hv => ?_
    exact (h.idOf_eq (h.scope.subset (List.mem_append_left _ hv))).symm
  · rw [h.returns]
    exact h.exists_matches σ
  · obtain ⟨id, hid⟩ := h.reaches_iff.1 hl
    obtain ⟨row, block, codes, hb, hrow⟩ := h.block _ (State.mem_of_target? hid hne)
    obtain ⟨n, exit, m, hlowers, -⟩ := hb.lowers
    rw [h.returns]
    refine ⟨block, { row with signature := if id = entry then some signature else none }, codes,
      hb.isBlock, ?_, ?_, h.lowersAll hlowers⟩
    · rw [State.image_eq hid, Flo.Table.get?_eq_rows]
      exact hrow
    · rw [← hb.body]
      exact List.map_congr_left fun id _ => Flo.Table.get?_eq_rows _ _

/-- A function that writes a field behind a pointer and one of a record by value, and returns the
latter. -/
def writingFields : Function :=
  let point : Ty := .record "point" [⟨"x", .integer 32⟩, ⟨"y", .integer 32⟩]
  let behind : Expr := .component (.integer 32)
    (.deref point (.named (.pointer point) "p")) "y"
  let field : Expr := .component (.integer 32) (.named point "s") "y"
  ⟨"write", [⟨"p", .pointer point⟩], some (.integer 32), 2, [⟨"s", point⟩],
    [⟨2, [.assign .copy behind [.integer (.integer 32) 7] none,
      .assign .plus field [behind, .integer (.integer 32) 1] none, .ret (some field) none]⟩]⟩

theorem writingFields_preserves :
    ∃ o types, (lowerFunction .empty .library "" writingFields).Ran .empty o types ∧
      ∃ image signature idOf, Preserves .empty .library writingFields o image signature idOf := by
  obtain ⟨o, types, run⟩ : ∃ o types,
      (lowerFunction .empty .library "" writingFields).Ran .empty o types :=
    Build.exists_ran_of_endsWell (by decide +kernel)
  exact ⟨o, types, run, lowerFunction_preserves .empty run⟩

end Lowering

end GimpleLowering

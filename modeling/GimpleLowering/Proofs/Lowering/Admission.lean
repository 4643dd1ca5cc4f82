import GimpleLowering.Proofs.Lowering.ControlFlow
import GimpleLowering.Proofs.Lowering.Simulation

/-!
# Operands that can be lowered

There is no pass that refuses what is not supported: each operand is refused where it is read or
written, if at all. So a function could only be lowered with an operand that it should not have if
some operand were passed over. None is: what is written to is taken apart and put together again
down to a variable or a pointer, and the pointer of a field is read although the field is accessed
without the operand in between.

What is left is said of each operand by itself (`Expr.Admissible`) and holds of all operands of a
statement, at any depth. It refers to the function and to the index of the unit, and not to the
state in which the statement was lowered.

## Main definitions

* `Gimple.Expr.subterms`, `Gimple.Statement.operands` — the operands of a statement, at any depth
* `Gimple.Function.typeOf?` — the type of the variable that a name stands for
* `Gimple.Expr.Admissible`, `Gimple.Statement.Admissible` — what can be lowered

## Main results

* `Lowering.Reads.admissible`, `Writes.admissible` — the operands for which there is code
* `Lowering.lowerFunction_admissible` — the statements of every function that is lowered
-/

namespace GimpleLowering

open Gimple Layout

/-! ### Operands by themselves -/

namespace Gimple

/-- The operand and all that it is made of. -/
def Expr.subterms : Expr → List Expr
  | .integer ty value => [.integer ty value]
  | .real ty value => [.real ty value]
  | .named ty name => [.named ty name]
  | .component ty value member => .component ty value member :: value.subterms
  | .deref ty pointer => .deref ty pointer :: pointer.subterms
  | .element ty array index => .element ty array index :: (array.subterms ++ index.subterms)
  | .address ty value => .address ty value :: value.subterms

/-- The operands of a statement, and what it writes to. -/
def Statement.operands : Statement → List Expr
  | .assign _ lhs operands _ => lhs :: operands
  | .call _ arguments lhs _ => arguments ++ lhs.toList
  | .conditional _ operands _ _ _ => operands
  | .ret value _ => value.toList
  | .goto _ _ => []
  | .switch value _ _ _ => [value]

/-- The operation of a statement. -/
def Statement.operator? : Statement → Option Operator
  | .assign op _ _ _ | .conditional op _ _ _ _ => some op
  | .call _ _ _ _ | .ret _ _ | .goto _ _ | .switch _ _ _ _ => none

/-- The type of the variable that a name stands for in a function: a parameter or a local variable,
or else a global of the unit. -/
def Function.typeOf? (f : Function) (x : UnitIndex) (name : String) : Option Ty :=
  match (f.parameters ++ f.locals).find? fun d => d.name = name with
  | some d => some d.ty
  | none => x.global? name

/-- The operand can be lowered, as far as its parts can. -/
def Expr.Admissible (x : UnitIndex) (f : Function) : Expr → Prop
  | .integer (.integer width) value =>
    (width = 32 ∨ width = 64) ∧ -2 ^ (width - 1) ≤ value ∧ value < 2 ^ (width - 1)
  | .integer (.pointer _) value => value = 0
  | .integer (.reference _) _ | .integer (.array _ _) _ | .integer (.record _ _) _ => False
  | .integer .boolean _ | .integer (.real _) _ => True
  | .real ty _ => ty = .real 64
  | .named ty name => ∃ declared, f.typeOf? x name = some declared ∧ ty.agrees declared
  | .component _ _ _ | .deref _ _ | .element _ _ _ => True
  | .address _ _ => False

/-- The statement can be lowered: it has no operand that cannot, no arithmetic on pointers, and it
calls no function but those of the unit, with the number of arguments that they declare. -/
structure Statement.Admissible (x : UnitIndex) (f : Function) (stmt : Statement) : Prop where
  operands : ∀ e ∈ stmt.operands, ∀ part ∈ e.subterms, part.Admissible x f
  operator : stmt.operator? ≠ some .pointerPlus
  callee : ∀ {function : String} {arguments : List Expr} {lhs : Option Expr} {line : Option Nat},
    stmt = .call function arguments lhs line → ∃ callee, x.function? function = some callee ∧
      arguments.length = callee.parameterTypes.length

end Gimple

namespace Lowering

variable {P : Setting} {ps : Polyfills} {w : State} {parameters locals : List Var} {entry : Nat}
  {signature : Flo.Signature}

/-! ### Constants -/

/-- The only integers of the runtime have thirty-two or sixty-four bits. -/
theorem width_of_represents {x : UnitIndex} {r : Registry} {width : Nat} {rep : Representation}
    (h : Represents x r (.integer width) rep) :
    (width = 32 ∧ rep.valueType = .signed32) ∨ (width = 64 ∧ rep.valueType = .signed64) := by
  cases h with
  | integer32 => exact .inl ⟨rfl, rfl⟩
  | integer64 => exact .inr ⟨rfl, rfl⟩
  | record isRecord => cases isRecord
  | recordHandle indirect => cases indirect
  | cell indirect => cases indirect

/-- The only real numbers of the runtime have sixty-four bits. -/
theorem eq_real_of_represents {x : UnitIndex} {r : Registry} {ty : Ty} {rep : Representation}
    (h : Represents x r ty rep) (hd : rep.valueType = .double) : ty = .real 64 := by
  cases h <;> first | rfl | cases hd

theorem fits_of_integerConstant {typ : Flo.Ty} {value : Int} {c : Flo.Constant}
    (h : integerConstant typ value = .ok c) : fits typ value = true := by
  unfold integerConstant at h
  split at h
  · cases h
  · split at h
    · cases h
    · rename_i hfits
      simpa using hfits

/-- There is a constant for the operand only if it can be lowered. -/
theorem IsConstant.admissible {e : Expr} {c : Flo.Constant} (h : IsConstant P.index w e c) :
    ∀ part ∈ e.subterms, part.Admissible P.index P.function := by
  cases h with
  | integer represents constant =>
    refine List.forall_mem_singleton.2 ?_
    have hfits := fits_of_integerConstant constant
    rcases width_of_represents represents with ⟨rfl, htyp⟩ | ⟨rfl, htyp⟩
    · rw [htyp] at hfits
      simp only [fits, Bool.and_eq_true, decide_eq_true_eq] at hfits
      exact ⟨.inl rfl, hfits.1, hfits.2⟩
    · rw [htyp] at hfits
      simp only [fits, Bool.and_eq_true, decide_eq_true_eq] at hfits
      exact ⟨.inr rfl, hfits.1, hfits.2⟩
  | truth | rounded => exact List.forall_mem_singleton.2 trivial
  | null represents => exact List.forall_mem_singleton.2 rfl
  | real represents isDouble =>
    exact List.forall_mem_singleton.2 (eq_real_of_represents represents isDouble)

/-! ### Variables -/

theorem IsFunction.hasVariables (h : IsFunction P ps w parameters locals entry signature) :
    w.HasVariables P.function :=
  ⟨parameters, locals, h.declaresParameters, h.declaresLocals, h.scope⟩

/-- A variable in scope is the one that its name stands for. -/
theorem State.Inv.typeOf?_eq (h : w.Inv P) (hvariables : w.HasVariables P.function) {v : Var}
    (hv : v ∈ w.scope) : P.function.typeOf? P.index v.name = some v.ty := by
  obtain ⟨parameters, locals, hparameters, hlocals, hscope⟩ := hvariables
  unfold Function.typeOf?
  cases hfind : (P.function.parameters ++ P.function.locals).find? fun d => d.name = v.name with
  | some d =>
    have hd := List.mem_of_find?_eq_some hfind
    have hname : d.name = v.name := by simpa using List.find?_some hfind
    rw [← hparameters.1, ← hlocals.1, ← List.map_append, List.mem_map] at hd
    obtain ⟨u, hu, rfl⟩ := hd
    -- Names are not used twice, so the declaration is that of the variable.
    obtain rfl : u = v := List.inj_on_of_nodup_map h.names (hscope.subset hu) hv hname
    rfl
  | none =>
    have hno : ∀ d ∈ P.function.parameters ++ P.function.locals, d.name ≠ v.name := by
      simpa using List.find?_eq_none.1 hfind
    have hdeclared := (h.holds v hv).declared
    generalize v.usage = usage at hdeclared
    cases usage with
    | parameter => exact absurd rfl (hno _ (List.mem_append_left _ hdeclared))
    | automatic => exact absurd rfl (hno _ (List.mem_append_right _ hdeclared))
    | global => exact hdeclared
    | returnSlot | temporary => cases hdeclared

theorem IsFunction.admissible_named (h : IsFunction P ps w parameters locals entry signature)
    {v : Var} (hv : v ∈ w.scope) {ty : Ty} (hty : ty.agrees v.ty) :
    ∀ part ∈ (Expr.named ty v.name).subterms, part.Admissible P.index P.function :=
  List.forall_mem_singleton.2 ⟨v.ty, h.inv.typeOf?_eq h.hasVariables hv, hty⟩

section

variable (h : IsFunction P ps w parameters locals entry signature)

include h

/-! ### Operands -/

/-- There is code that reads an operand only if it can be lowered. -/
theorem Reads.admissible {e : Expr} {n v m : Nat} {code : List Flo.Statement}
    (hr : Reads P.index w e n v code m) :
    ∀ part ∈ e.subterms, part.Admissible P.index P.function := by
  induction hr with
  | constant isConstant temp noted => exact isConstant.admissible
  | named le mem agrees => exact h.admissible_named mem agrees
  | through base isSlot agrees readPointer temp noted ih =>
    exact List.forall_mem_cons.2 ⟨trivial, List.forall_mem_cons.2 ⟨trivial, ih⟩⟩
  | part direct isSlot agrees readWhole temps noted ih =>
    exact List.forall_mem_cons.2 ⟨trivial, ih⟩
  | deref base agrees represents readPointer temp noted ih =>
    exact List.forall_mem_cons.2 ⟨trivial, ih⟩
  | element isArray agrees integral represents readArray readIndex temp noted iha ihi =>
    exact List.forall_mem_cons.2 ⟨trivial, List.forall_mem_append.2 ⟨iha, ihi⟩⟩

/-- There is code that writes to an operand only if it can be lowered. -/
theorem Writes.admissible {e : Expr} {n v m : Nat} {code : List Flo.Statement}
    (hw : Writes P.index w e n v code m) :
    ∀ part ∈ e.subterms, part.Admissible P.index P.function := by
  induction hw with
  | named le mem agrees noted => exact h.admissible_named mem agrees
  | through base isSlot agrees readPointer noted =>
    exact List.forall_mem_cons.2
      ⟨trivial, List.forall_mem_cons.2 ⟨trivial, readPointer.admissible h⟩⟩
  | part direct isSlot agrees readWhole temps temp writeBase noted noted' ih =>
    exact List.forall_mem_cons.2 ⟨trivial, ih⟩
  | deref base agrees readPointer noted =>
    exact List.forall_mem_cons.2 ⟨trivial, readPointer.admissible h⟩
  | element isArray agrees integral readArray readIndex noted =>
    exact List.forall_mem_cons.2 ⟨trivial,
      List.forall_mem_append.2 ⟨readArray.admissible h, readIndex.admissible h⟩⟩

theorem ReadsAll.admissible {es : List Expr} {n m : Nat} {vs : List Nat}
    {code : List Flo.Statement} (hr : ReadsAll P.index w es n vs code m) :
    ∀ e ∈ es, ∀ part ∈ e.subterms, part.Admissible P.index P.function := by
  induction hr with
  | nil n => exact nofun
  | cons read rest ih => exact List.forall_mem_cons.2 ⟨read.admissible h, ih⟩

/-! ### Statements -/

/-- A call that can be lowered. -/
theorem ReadsAll.admissible_call {function : String} {callee : Signature} {arguments : List Expr}
    {lhs : Option Expr} {line : Option Nat} {n m : Nat} {vs : List Nat}
    {code : List Flo.Statement} (reads : ReadsAll P.index w arguments n vs code m)
    (isCallee : P.index.function? function = some callee)
    (passed : List.Forall₂ (fun a p => rejectNull p a = .ok () ∧ a.ty.agrees p) arguments
      callee.parameterTypes)
    (target : ∀ e ∈ lhs, ∀ part ∈ e.subterms, part.Admissible P.index P.function) :
    (Statement.call function arguments lhs line).Admissible P.index P.function where
  operands := List.forall_mem_append.2
    ⟨reads.admissible h, fun e he => target e (Option.mem_toList.1 he)⟩
  operator := nofun
  callee heq := by
    cases heq
    exact ⟨callee, isCallee, passed.length_eq⟩

theorem Performs.admissible {stmt : Statement} {n m : Nat} {code : List Flo.Statement}
    (hp : Performs P ps w stmt n code m) : stmt.Admissible P.index P.function := by
  -- Arithmetic on pointers does not pass the check of the operands.
  have hoperator : ∀ {op : Operator} {lhs : Expr} {operands : List Expr},
      checkOperation op lhs operands = .ok () → some op ≠ some .pointerPlus := by
    rintro op lhs operands hchecked ⟨⟩
    cases hchecked
  cases hp with
  | copy isCopy noNull agrees read write =>
    refine ⟨List.forall_mem_cons.2 ⟨write.admissible h, ?_⟩, ?_, nofun⟩
    · exact List.forall_mem_singleton.2 (read.admissible h)
    · rintro ⟨⟩
      cases isCopy
  | operateTo noCopy arity noNull checked operandTypes resultType isRoutine reads le mem agrees =>
    exact ⟨List.forall_mem_cons.2 ⟨h.admissible_named mem agrees, reads.admissible h⟩,
      hoperator checked, nofun⟩
  | operate noCopy arity unnamed noNull checked operandTypes resultType isRoutine reads temp
      write =>
    exact ⟨List.forall_mem_cons.2 ⟨write.admissible h, reads.admissible h⟩, hoperator checked,
      nofun⟩
  | callTo isCallee passed returns stored reads le mem agrees =>
    refine reads.admissible_call h isCallee passed fun e he => ?_
    obtain rfl := Option.some.inj he
    exact h.admissible_named mem agrees
  | callStore isCallee passed returns stored unnamed reads resultType temp write =>
    refine reads.admissible_call h isCallee passed fun e he => ?_
    obtain rfl := Option.some.inj he
    exact write.admissible h
  | callDiscard isCallee passed returns reads =>
    exact reads.admissible_call h isCallee passed nofun
  | callVoid isCallee passed returns reads =>
    exact reads.admissible_call h isCallee passed nofun

theorem Leaves.admissible {stmt : Statement} {n m : Nat} {code : List Flo.Statement}
    {exit : Flo.BlockExit} (hl : Leaves P ps w stmt n code exit m) :
    stmt.Admissible P.index P.function := by
  cases hl with
  | goto | retVoid => exact ⟨nofun, nofun, nofun⟩
  | conditional isComparison agrees operandType isTrue isFalse isRoutine readLeft readRight =>
    refine ⟨List.forall_mem_cons.2 ⟨readLeft.admissible h, ?_⟩, ?_, nofun⟩
    · exact List.forall_mem_singleton.2 (readRight.admissible h)
    · rintro ⟨⟩
      cases isComparison
  | switch integral selectorType valid areTargets isDefault read =>
    exact ⟨List.forall_mem_singleton.2 (read.admissible h), nofun, nofun⟩
  | ret isResult isSlot noNull agrees read =>
    exact ⟨List.forall_mem_singleton.2 (read.admissible h), nofun, nofun⟩

theorem LowersAll.admissible {stmts : List Statement} {n m : Nat}
    {codes : List (List Flo.Statement)} {exit : Option Flo.BlockExit}
    (hl : LowersAll P ps w stmts n codes exit m) :
    ∀ stmt ∈ stmts, stmt.Admissible P.index P.function := by
  induction hl with
  | nil n => exact nofun
  | leave leaves => exact List.forall_mem_singleton.2 (leaves.admissible h)
  | perform performs others ih => exact List.forall_mem_cons.2 ⟨performs.admissible h, ih⟩

/-! ### Functions -/

/-- The statements of a block that control can get to are lowered. -/
theorem IsFunction.exists_lowersAll {label : Nat} {b : Block} (hl : P.function.Reaches label)
    (hb : P.function.block? label = some b) :
    ∃ n codes exit m, LowersAll P ps w b.statements n codes exit m := by
  have hne : label ≠ exitIndex := by
    rintro rfl
    rw [h.block?_exit] at hb
    cases hb
  obtain ⟨id, hid⟩ := h.reaches_iff.1 hl
  obtain ⟨row, block, codes, hblock, -⟩ := h.block _ (State.mem_of_target? hid hne)
  obtain rfl := Option.some.inj (hb.symm.trans hblock.isBlock)
  obtain ⟨n, exit, m, hlowers, -⟩ := hblock.lowers
  exact ⟨n, codes, exit, m, hlowers⟩

end

/-- **What is not supported never survives.** In a function that is lowered, every statement that
control can get to has only operands that can be lowered, at any depth, and calls only functions of
the unit. -/
theorem lowerFunction_admissible {x : UnitIndex} {source : String} {f : Function}
    {types types' : Registry} {o : Flo.Object} (reached : Reached x types)
    (run : (lowerFunction x ps source f).Ran types o types') {label : Nat} {b : Block}
    (reaches : f.Reaches label) (isBlock : f.block? label = some b) {stmt : Statement}
    (mem : stmt ∈ b.statements) : stmt.Admissible x f := by
  obtain ⟨returns, w, parameters, locals, entry, signature, h, -, -⟩ :=
    lowerFunction_ran (.univ x) (by simp) reached.sound run
  obtain ⟨n, codes, exit, m, hlowers⟩ := h.exists_lowersAll reaches isBlock
  exact hlowers.admissible h stmt mem

/-- A unit with one global. -/
def withTotal : UnitIndex := { UnitIndex.empty with globals := [⟨"total", .integer 32⟩] }

/-- A function that stores the global in an array behind a pointer. -/
def storingTotal : Function :=
  let array : Expr := .deref (.array (.integer 32) 4) (.named (.pointer (.array (.integer 32) 4)) "p")
  let element : Expr := .element (.integer 32) array (.integer (.integer 64) 3)
  ⟨"store", [⟨"p", .pointer (.array (.integer 32) 4)⟩], none, 2, [],
    [⟨2, [.assign .copy element [.named (.integer 32) "total"] none, .ret none none]⟩]⟩

theorem storingTotal_admissible :
    ∃ o types, (lowerFunction withTotal .empty "" storingTotal).Ran .empty o types ∧
      ∃ b, storingTotal.block? 2 = some b ∧
        ∀ stmt ∈ b.statements, stmt.Admissible withTotal storingTotal := by
  obtain ⟨o, types, run⟩ : ∃ o types,
      (lowerFunction withTotal .empty "" storingTotal).Ran .empty o types :=
    Build.exists_ran_of_endsWell (by decide +kernel)
  exact ⟨o, types, run, _, rfl, fun stmt mem =>
    lowerFunction_admissible .empty run .entry rfl mem⟩

end Lowering

end GimpleLowering

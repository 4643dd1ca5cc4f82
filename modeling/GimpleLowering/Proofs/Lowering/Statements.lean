import GimpleLowering.Lowering.Statement
import GimpleLowering.Proofs.Lowering.Operands
import Mathlib.Data.List.Forall2

/-!
# The code of statements

The code of a statement is described like that of an operand: `Performs` for statements that are
followed by the next one, `Leaves` for those that end a block, which also have an exit. The
descriptions keep what was checked before anything was emitted, since that is what the emitted code
relies on.

## Main definitions

* `Lowering.ReadsAll` — the code of a list of operands
* `Lowering.Performs` — the code of an assignment or a call
* `Lowering.Leaves` — the code and the exit of a terminator

## Main results

* `Lowering.lowerStatement_ran` — the code that is emitted for a statement is described
-/

namespace GimpleLowering.Lowering

open Gimple Layout

/-! ### Descriptions -/

/-- The code that reads operands one after the other. -/
inductive ReadsAll (x : UnitIndex) (w : State) :
    List Expr → Nat → List Nat → List Flo.Statement → Nat → Prop where
  | nil (n : Nat) : ReadsAll x w [] n [] [] n
  | cons {e : Expr} {es : List Expr} {n v k m : Nat} {vs : List Nat}
      {code code' : List Flo.Statement} (read : Reads x w e n v code k)
      (rest : ReadsAll x w es k vs code' m) :
      ReadsAll x w (e :: es) n (v :: vs) (code ++ code') m

/-- The code of a statement that is followed by the next one, with temporaries from `n` up to
`m`. A result goes to a named variable directly, and through a temporary anywhere else. -/
inductive Performs (P : Setting) (ps : Polyfills) (w : State) :
    Statement → Nat → List Flo.Statement → Nat → Prop where
  | copy {op : Operator} {lhs source : Expr} {line : Option Nat} {n v k m : Nat}
      {code code' : List Flo.Statement} (isCopy : op.opClass = .copy)
      (noNull : rejectNull lhs.ty source = .ok ()) (agrees : lhs.ty.agrees source.ty)
      (read : Reads P.index w source n v code k) (write : Writes P.index w lhs k v code' m) :
      Performs P ps w (.assign op lhs [source] line) n (code ++ code') m
  | operateTo {op : Operator} {ty : Ty} {v : Var} {operands : List Expr} {line : Option Nat}
      {types : List Flo.Ty} {result : Flo.Ty} {routine : String} {n k m : Nat} {vs : List Nat}
      {code : List Flo.Statement} {note : Flo.Note} (noCopy : op.opClass ≠ .copy)
      (arity : operands.length = op.arity)
      (noNull : ∀ e ∈ operands, rejectNull ty e = .ok ())
      (checked : checkOperation op (.named ty v.name) operands = .ok ())
      (operandTypes : List.Forall₂ (HasValueType P.index w.types) (operands.map Expr.ty) types)
      (resultType : HasValueType P.index w.types ty result)
      (isRoutine : ps.forOperation? op types result = some routine)
      (reads : ReadsAll P.index w operands n vs code k) (le : k ≤ m) (mem : v ∈ w.scope)
      (agrees : ty.agrees v.ty) (noted : NoteKnown w note) :
      Performs P ps w (.assign op (.named ty v.name) operands line) n
        (code ++ [.call (.builtin routine) vs [v.id] note]) m
  | operate {op : Operator} {lhs : Expr} {operands : List Expr} {line : Option Nat}
      {types : List Flo.Ty} {result : Flo.Ty} {routine : String} {n k m : Nat} {vs : List Nat}
      {code code' : List Flo.Statement} {note : Flo.Note} (noCopy : op.opClass ≠ .copy)
      (arity : operands.length = op.arity) (unnamed : ∀ ty name, lhs ≠ .named ty name)
      (noNull : ∀ e ∈ operands, rejectNull lhs.ty e = .ok ())
      (checked : checkOperation op lhs operands = .ok ())
      (operandTypes : List.Forall₂ (HasValueType P.index w.types) (operands.map Expr.ty) types)
      (resultType : HasValueType P.index w.types lhs.ty result)
      (isRoutine : ps.forOperation? op types result = some routine)
      (reads : ReadsAll P.index w operands n vs code k) (temp : Temp w k result)
      (write : Writes P.index w lhs (k + 1) k code' m) (noted : NoteKnown w note) :
      Performs P ps w (.assign op lhs operands line) n
        (code ++ [.call (.builtin routine) vs [k] note] ++ code') m
  | callTo {function : String} {callee : Signature} {arguments : List Expr} {ty result : Ty}
      {v : Var} {line : Option Nat} {n k m : Nat} {vs : List Nat} {code : List Flo.Statement}
      {note : Flo.Note} (isCallee : P.index.function? function = some callee)
      (passed : List.Forall₂ (fun a p => rejectNull p a = .ok () ∧ a.ty.agrees p) arguments
        callee.parameterTypes)
      (returns : callee.returnType = some result) (stored : ty.agrees result)
      (reads : ReadsAll P.index w arguments n vs code k) (le : k ≤ m) (mem : v ∈ w.scope)
      (agrees : ty.agrees v.ty) (noted : NoteKnown w note) :
      Performs P ps w (.call function arguments (some (.named ty v.name)) line) n
        (code ++ [.call (.external callee.name) vs [v.id] note]) m
  | callStore {function : String} {callee : Signature} {arguments : List Expr} {lhs : Expr}
      {result : Ty} {typ : Flo.Ty} {line : Option Nat} {n k m : Nat} {vs : List Nat}
      {code code' : List Flo.Statement} {note : Flo.Note}
      (isCallee : P.index.function? function = some callee)
      (passed : List.Forall₂ (fun a p => rejectNull p a = .ok () ∧ a.ty.agrees p) arguments
        callee.parameterTypes)
      (returns : callee.returnType = some result) (stored : lhs.ty.agrees result)
      (unnamed : ∀ ty name, lhs ≠ .named ty name)
      (reads : ReadsAll P.index w arguments n vs code k)
      (resultType : HasValueType P.index w.types lhs.ty typ) (temp : Temp w k typ)
      (write : Writes P.index w lhs (k + 1) k code' m) (noted : NoteKnown w note) :
      Performs P ps w (.call function arguments (some lhs) line) n
        (code ++ [.call (.external callee.name) vs [k] note] ++ code') m
  | callDiscard {function : String} {callee : Signature} {arguments : List Expr} {result : Ty}
      {typ : Flo.Ty} {line : Option Nat} {n k : Nat} {vs : List Nat} {code : List Flo.Statement}
      {note : Flo.Note} (isCallee : P.index.function? function = some callee)
      (passed : List.Forall₂ (fun a p => rejectNull p a = .ok () ∧ a.ty.agrees p) arguments
        callee.parameterTypes)
      (returns : callee.returnType = some result)
      (reads : ReadsAll P.index w arguments n vs code k)
      (resultType : HasValueType P.index w.types result typ) (temp : Temp w k typ)
      (noted : NoteKnown w note) :
      Performs P ps w (.call function arguments none line) n
        (code ++ [.call (.external callee.name) vs [k] note]) (k + 1)
  | callVoid {function : String} {callee : Signature} {arguments : List Expr}
      {line : Option Nat} {n m : Nat} {vs : List Nat} {code : List Flo.Statement}
      {note : Flo.Note} (isCallee : P.index.function? function = some callee)
      (passed : List.Forall₂ (fun a p => rejectNull p a = .ok () ∧ a.ty.agrees p) arguments
        callee.parameterTypes)
      (returns : callee.returnType = none) (reads : ReadsAll P.index w arguments n vs code m)
      (noted : NoteKnown w note) :
      Performs P ps w (.call function arguments none line) n
        (code ++ [.call (.external callee.name) vs [] note]) m

/-- The row of an arm that continues at a block of the object. -/
def IsArm (w : State) (arm condition target : Nat) : Prop :=
  ∃ location, w.arms[arm]? = some ⟨condition, .here target, .usable, [], location⟩ ∧
    w.draft.Knows location

/-- The code that compares a selector with a label of a switch: one comparison for a single value,
and two for a range. -/
inductive Compares (ps : Polyfills) (w : State) (selector : Nat) (typ : Flo.Ty) :
    Case → Nat → Nat → List Flo.Statement → Nat → Prop where
  | single {c : Case} {low : Flo.Constant} {eq : String} {n : Nat} {note note' : Flo.Note}
      (isSingle : c.upper = c.low) (isLow : integerConstant typ c.low = .ok low)
      (isEq : ps.forOperation? .eq [typ, typ] .bool = some eq)
      (temp : Temp w n low.typ) (result : Temp w (n + 1) .bool)
      (noted : NoteKnown w note) (noted' : NoteKnown w note') :
      Compares ps w selector typ c n (n + 1)
        [.assignConst n low note, .call (.builtin eq) [selector, n] [n + 1] note'] (n + 2)
  | range {c : Case} {low high : Flo.Constant} {ge le and : String} {n : Nat}
      {note₁ note₂ note₃ note₄ note₅ : Flo.Note} (isRange : c.upper ≠ c.low)
      (isLow : integerConstant typ c.low = .ok low) (isHigh : integerConstant typ c.upper = .ok high)
      (isGe : ps.forOperation? .ge [typ, typ] .bool = some ge)
      (isLe : ps.forOperation? .le [typ, typ] .bool = some le)
      (isAnd : ps.forOperation? .truthAnd [.bool, .bool] .bool = some and)
      (lowTemp : Temp w n low.typ) (highTemp : Temp w (n + 1) high.typ)
      (above : Temp w (n + 2) .bool) (below : Temp w (n + 3) .bool) (both : Temp w (n + 4) .bool)
      (noted : ∀ note ∈ [note₁, note₂, note₃, note₄, note₅], NoteKnown w note) :
      Compares ps w selector typ c n (n + 4)
        [.assignConst n low note₁, .assignConst (n + 1) high note₂,
          .call (.builtin ge) [selector, n] [n + 2] note₃,
          .call (.builtin le) [selector, n + 1] [n + 3] note₄,
          .call (.builtin and) [n + 2, n + 3] [n + 4] note₅] (n + 5)

/-- The code of the conditions of a switch, with the arms for the labels in their order. -/
inductive Arms (ps : Polyfills) (w : State) (selector : Nat) (typ : Flo.Ty) :
    List (Case × Nat) → Nat → List Flo.Statement → List Nat → Nat → Prop where
  | nil (n : Nat) : Arms ps w selector typ [] n [] [] n
  | cons {c : Case} {target condition arm n k m : Nat} {cases : List (Case × Nat)}
      {code code' : List Flo.Statement} {arms : List Nat}
      (compare : Compares ps w selector typ c n condition code k) (isArm : IsArm w arm condition target)
      (rest : Arms ps w selector typ cases k code' arms m) :
      Arms ps w selector typ ((c, target) :: cases) n (code ++ code') (arm :: arms) m

/-- The code and the exit of a statement that ends a block. The last arm of a branch has a
condition that is true. -/
inductive Leaves (P : Setting) (ps : Polyfills) (w : State) :
    Statement → Nat → List Flo.Statement → Flo.BlockExit → Nat → Prop where
  | goto {label target : Nat} {line : Option Nat} {n : Nat}
      (isTarget : w.target? label = some target) :
      Leaves P ps w (.goto label line) n [] (.goto target) n
  | conditional {op : Operator} {left right : Expr} {trueLabel falseLabel : Nat}
      {line : Option Nat} {typ : Flo.Ty} {routine : String}
      {trueTarget falseTarget first second n a k b m : Nat} {code code' : List Flo.Statement}
      {note note' : Flo.Note} (isComparison : op.opClass = .comparison)
      (agrees : left.ty.agrees right.ty) (operandType : HasValueType P.index w.types left.ty typ)
      (isTrue : w.target? trueLabel = some trueTarget)
      (isFalse : w.target? falseLabel = some falseTarget)
      (isRoutine : ps.forOperation? op [typ, typ] .bool = some routine)
      (readLeft : Reads P.index w left n a code k) (readRight : Reads P.index w right k b code' m)
      (condition : Temp w m .bool) (otherwise : Temp w (m + 1) .bool)
      (isFirst : IsArm w first m trueTarget) (isSecond : IsArm w second (m + 1) falseTarget)
      (noted : NoteKnown w note) (noted' : NoteKnown w note') :
      Leaves P ps w (.conditional op [left, right] trueLabel falseLabel line) n
        (code ++ code' ++ [.call (.builtin routine) [a, b] [m] note,
          .assignConst (m + 1) (.ofBool true) note'])
        (.branch [first, second]) (m + 2)
  | switch {value : Expr} {cases : List Case} {defaultLabel : Nat} {line : Option Nat}
      {typ : Flo.Ty} {targets arms : List Nat} {default last n v k m : Nat}
      {code code' : List Flo.Statement} {note : Flo.Note} (integral : value.ty.isIntegral)
      (selectorType : HasValueType P.index w.types value.ty typ)
      (valid : validateCases value typ [] cases = .ok ())
      (areTargets : cases.map (fun c => w.target? c.block) = targets.map some)
      (isDefault : w.target? defaultLabel = some default)
      (read : Reads P.index w value n v code k)
      (areArms : Arms ps w v typ (cases.zip targets) k code' arms m)
      (otherwise : Temp w m .bool) (isLast : IsArm w last m default) (noted : NoteKnown w note) :
      Leaves P ps w (.switch value cases defaultLabel line) n
        (code ++ code' ++ [.assignConst m (.ofBool true) note])
        (.branch (arms ++ [last])) (m + 1)
  | retVoid {line : Option Nat} {n : Nat} (isVoid : P.function.returnType = none) :
      Leaves P ps w (.ret none line) n [] (.ret []) n
  | ret {value : Expr} {ty : Ty} {line : Option Nat} {slot n v m : Nat}
      {code : List Flo.Statement} {note : Flo.Note} (isResult : P.function.returnType = some ty)
      (isSlot : P.returns = [slot]) (noNull : rejectNull ty value = .ok ())
      (agrees : value.ty.agrees ty) (read : Reads P.index w value n v code m)
      (noted : NoteKnown w note) :
      Leaves P ps w (.ret (some value) line) n (code ++ [.assign slot v note]) (.ret [slot]) m

/-! ### Growth -/

variable {P : Setting} {ps : Polyfills} {s s' w w' : State} {cx : Context} {S : Ty → Prop}

theorem IsArm.mono {arm condition target : Nat} (h : IsArm w arm condition target)
    (hg : w.Grows w') : IsArm w' arm condition target := by
  obtain ⟨location, h, hk⟩ := h
  exact ⟨location, hg.arms_get h, fun id hid => (hk id hid).mono hg.locations⟩

/-- Labels keep their blocks. -/
theorem targets_grow {α : Type} {label : α → Nat} {as : List α} {ids : List Nat} (hg : w.Grows w')
    (h : as.map (w.target? ∘ label) = ids.map some) :
    as.map (fun a => w'.target? (label a)) = ids.map some := by
  induction as generalizing ids with
  | nil => simpa using h
  | cons a as ih =>
    cases ids with
    | nil => simp at h
    | cons id ids =>
      simp only [List.map_cons, List.cons.injEq, Function.comp_apply] at h ⊢
      exact ⟨hg.target? h.1, ih h.2⟩

/-! ### Lists of operands -/

theorem readAll_ran (hx : cx.index.Closed S) (hl : cx.LineKnown) {es : List Expr}
    (hS : ∀ e ∈ es, ∀ ty ∈ e.types, S ty) (h : s.Inv (cx.setting S)) {vs : List Nat}
    (hr : (es.mapM (read cx)).Ran s vs s') :
    ∃ code, Emits (cx.setting S) s code [] s' ∧
      ∀ w, s'.Grows w → ReadsAll cx.index w es s.vars.length vs code s'.vars.length := by
  induction es generalizing s vs with
  | nil =>
    obtain ⟨rfl, rfl⟩ := Build.ran_mapM_nil.1 hr
    exact ⟨[], .refl h, fun w _ => .nil _⟩
  | cons e es ih =>
    obtain ⟨v, s₁, rest, hread, hrest, rfl⟩ := Build.ran_mapM_cons.1 hr
    obtain ⟨code, he, hreads⟩ := read_ran hx hl (hS e (by simp)) h hread
    obtain ⟨code', he', hreads'⟩ := ih (fun e' he' => hS e' (by simp [he'])) he.inv hrest
    exact ⟨_, he.trans he', fun w hw => .cons (hreads w (he'.grows.trans hw)) (hreads' w hw)⟩

theorem valueTypes_ran (hx : cx.index.Closed S) {es : List Expr} (hS : ∀ e ∈ es, S e.ty)
    (h : s.Inv (cx.setting S)) {types : List Flo.Ty}
    (hr : (es.mapM fun e => valueType cx e.ty).Ran s types s') :
    List.Forall₂ (HasValueType cx.index s'.types) (es.map Expr.ty) types ∧ s'.vars = s.vars ∧
      Emits (cx.setting S) s [] [] s' := by
  induction es generalizing s types with
  | nil =>
    obtain ⟨rfl, rfl⟩ := Build.ran_mapM_nil.1 hr
    exact ⟨.nil, rfl, .refl h⟩
  | cons e es ih =>
    obtain ⟨typ, s₁, rest, htyp, hrest, rfl⟩ := Build.ran_mapM_cons.1 hr
    obtain ⟨rep, hrep, heq, hv, he⟩ := valueType_ran hx h (hS e (by simp)) htyp
    obtain ⟨hall, hv', he'⟩ := ih (fun e' he' => hS e' (by simp [he'])) he.inv hrest
    exact ⟨.cons ⟨rep, hrep.mono he'.grows.types, heq⟩ hall, hv'.trans hv, he.trans_nil he'⟩

/-- An operand is a variable, or it is not. -/
theorem named_or_unnamed (e : Expr) :
    (∃ ty name, e = .named ty name) ∨ ∀ ty name, e ≠ .named ty name := by
  cases e with
  | named ty name => exact .inl ⟨ty, name, rfl⟩
  | _ => exact .inr fun _ _ h => nomatch h

theorem destination_unnamed {e : Expr} (h : ∀ ty name, e ≠ .named ty name) :
    destination cx e = pure none := by
  cases e with
  | named ty name => exact absurd rfl (h ty name)
  | _ => rfl

/-- Only a variable can be written by the statement itself. -/
theorem destination_ran (hx : cx.index.Closed S) (hl : cx.LineKnown) (h : s.Inv (cx.setting S))
    {e : Expr} {target : Option Nat} (hr : (destination cx e).Ran s target s') :
    (∃ ty name v, e = .named ty name ∧ target = some v.id ∧ v ∈ s'.scope ∧ v.name = name ∧
        ty.agrees v.ty ∧ Emits (cx.setting S) s [] [] s') ∨
      (∀ ty name, e ≠ .named ty name) ∧ target = none ∧ s' = s := by
  rcases named_or_unnamed e with ⟨ty, name, rfl⟩ | hunnamed
  · simp only [destination, Build.ran_bind, Build.ran_pure] at hr
    obtain ⟨v, _, hlook, rfl, rfl⟩ := hr
    obtain ⟨he, hmem, hname, hty⟩ := lookup_ran hx hl h hlook
    exact .inl ⟨ty, name, v, rfl, rfl, hmem, hname, hty, he⟩
  · rw [destination_unnamed hunnamed] at hr
    obtain ⟨rfl, rfl⟩ := Build.ran_pure.1 hr
    exact .inr ⟨hunnamed, rfl, rfl⟩

/-- A variable for a value of a type of the source. -/
theorem typedTemporary_ran (hx : cx.index.Closed S) (hl : cx.LineKnown)
    (h : s.Inv (cx.setting S)) {ty : Ty} (hS : S ty) {typ : Flo.Ty} {s₁ : State} {v : Nat}
    (htyp : (valueType cx ty).Ran s typ s₁) (htemp : (temporary cx typ).Ran s₁ v s') :
    v = s.vars.length ∧ s'.vars.length = v + 1 ∧ HasValueType cx.index s'.types ty typ ∧
      Temp s' v typ ∧ Emits (cx.setting S) s [] [] s' := by
  obtain ⟨rep, hrep, rfl, hv, he₁⟩ := valueType_ran hx h hS htyp
  obtain ⟨rfl, hlen, ht, he⟩ := temporary_ran hl he₁.inv hrep.covers htemp
  exact ⟨congrArg List.length hv, hlen, ⟨rep, hrep.mono he.grows.types, rfl⟩, ht, he₁.trans_nil he⟩

/-! ### Assignments -/

theorem lowerOperation_ran (hx : cx.index.Closed S) (hl : cx.LineKnown) {op : Operator}
    {lhs : Expr} {operands : List Expr} {line : Option Nat} (hlhs : ∀ ty ∈ lhs.types, S ty)
    (hops : ∀ e ∈ operands, ∀ ty ∈ e.types, S ty) (h : s.Inv (cx.setting S))
    (hcopy : op.opClass ≠ .copy) (harity : operands.length = op.arity)
    (hnull : ∀ e ∈ operands, rejectNull lhs.ty e = .ok ())
    (hcheck : checkOperation op lhs operands = .ok ())
    (hr : (lowerOperation cx op lhs operands).Ran s () s') :
    ∃ code, Emits (cx.setting S) s code [] s' ∧ ∀ w, s'.Grows w →
      Performs (cx.setting S) cx.polyfills w (.assign op lhs operands line) s.vars.length code
        s'.vars.length := by
  simp only [lowerOperation, Build.ran_bind] at hr
  obtain ⟨types, s₁, htypes, result, s₂, hresult, hr⟩ := hr
  split at hr
  · simp at hr
  simp only [Build.ran_bind] at hr
  obtain ⟨vs, s₃, hreads, target, s₄, hdest, hr⟩ := hr
  obtain ⟨hall, hv₁, he₁⟩ := valueTypes_ran hx (fun e he => hops e he _ e.ty_mem_types) h htypes
  obtain ⟨rep, hrep, rfl, hv₂, he₂⟩ := valueType_ran hx he₁.inv (hlhs _ lhs.ty_mem_types) hresult
  obtain ⟨code, he₃, hreads⟩ := readAll_ran hx hl hops he₂.inv hreads
  have hv : s₂.vars = s.vars := hv₂.trans hv₁
  have hall' : ∀ w, s₂.Grows w →
      List.Forall₂ (HasValueType cx.index w.types) (operands.map Expr.ty) types := fun w hw =>
    hall.imp fun _ _ ht => ht.mono (he₂.grows.trans hw).types
  rcases destination_ran hx hl he₃.inv hdest with
    ⟨ty, name, v, rfl, rfl, hmem, rfl, hty, he₄⟩ | ⟨hunnamed, rfl, rfl⟩
  · simp only [Build.ran_bind, Build.ran_pure] at hr
    obtain ⟨_, _, hcall, -, rfl⟩ := hr
    obtain ⟨routine, note, hp, hn, he, ⟨hout, hv'⟩ | ⟨hout, -⟩⟩ := callRoutine_ran hl he₄.inv
      (hrep.mono (he₃.grows.trans he₄.grows).types).covers hcall
    · obtain rfl := Option.some.inj hout
      refine ⟨_, (((he₁.trans_nil he₂).trans_nil he₃).append_nil he₄).trans he, fun w hw => ?_⟩
      have hw₄ : s₄.Grows w := he.grows.trans hw
      have hw₃ : s₃.Grows w := he₄.grows.trans hw₄
      rw [hv', ← hv]
      exact .operateTo hcopy harity hnull hcheck (hall' w (he₃.grows.trans hw₃))
        ⟨rep, hrep.mono (he₃.grows.trans hw₃).types, rfl⟩ hp (hreads w hw₃)
        he₄.grows.vars.length_le (hw₄.mem_scope hmem) hty (hn.mono hw)
    · cases hout
  · simp only [Build.ran_bind] at hr
    obtain ⟨v, s₅, hcall, hr⟩ := hr
    obtain ⟨routine, note, hp, hn, he₅, ⟨hout, -⟩ | ⟨-, rfl, hlen, ht⟩⟩ :=
      callRoutine_ran hl he₃.inv (hrep.mono he₃.grows.types).covers hcall
    · cases hout
    · obtain ⟨code', he, hwrites⟩ := write_ran hx hl hlhs he₅.inv hr
      refine ⟨_, (((he₁.trans_nil he₂).trans_nil he₃).trans he₅).trans he, fun w hw => ?_⟩
      have hw₅ : s₅.Grows w := he.grows.trans hw
      have hw₄ : s₄.Grows w := he₅.grows.trans hw₅
      have hwrite := hwrites w hw
      rw [hlen] at hwrite
      rw [← hv]
      exact .operate hcopy harity hunnamed hnull hcheck (hall' w (he₃.grows.trans hw₄))
        ⟨rep, hrep.mono (he₃.grows.trans hw₄).types, rfl⟩ hp (hreads w hw₄) (ht.mono hw₅) hwrite
        (hn.mono hw₅)

theorem lowerAssign_ran (hx : cx.index.Closed S) (hl : cx.LineKnown) {op : Operator}
    {lhs : Expr} {operands : List Expr} {line : Option Nat} (hlhs : ∀ ty ∈ lhs.types, S ty)
    (hops : ∀ e ∈ operands, ∀ ty ∈ e.types, S ty) (h : s.Inv (cx.setting S))
    (hr : (lowerAssign cx op lhs operands).Ran s () s') :
    ∃ code, Emits (cx.setting S) s code [] s' ∧ ∀ w, s'.Grows w →
      Performs (cx.setting S) cx.polyfills w (.assign op lhs operands line) s.vars.length code
        s'.vars.length := by
  unfold lowerAssign at hr
  by_cases hptr : op.opClass = .pointerArithmetic
  · simp [hptr] at hr
  by_cases harity : operands.length = op.arity
  swap
  · simp [hptr, harity] at hr
  rw [if_neg hptr, if_neg (not_not.2 harity)] at hr
  simp only [check, Build.ran_bind, Build.ran_ofExcept] at hr
  obtain ⟨_, _, ⟨hnull, rfl⟩, _, s, ⟨hcheck, rfl⟩, hr⟩ := hr
  by_cases hcopy : op.opClass = .copy
  · obtain rfl : op = .copy := by cases op <;> first | rfl | simp [Operator.opClass] at hcopy
    obtain ⟨source, rfl⟩ := List.length_eq_one_iff.1 harity
    simp only [if_pos hcopy, List.getElem?_cons_zero, Build.present_some, pure_bind,
      Build.ran_bind] at hr
    obtain ⟨v, s₁, hread, hr⟩ := hr
    obtain ⟨code, he₁, hreads⟩ := read_ran hx hl (hops source (by simp)) h hread
    obtain ⟨code', he, hwrites⟩ := write_ran hx hl hlhs he₁.inv hr
    have hagrees : lhs.ty.agrees source.ty :=
      sameType_eq_ok_iff.1 (forM_eq_ok hcheck source (by simp))
    exact ⟨_, he₁.trans he, fun w hw => .copy rfl (forM_eq_ok hnull source (by simp)) hagrees
      (hreads w (he.grows.trans hw)) (hwrites w hw)⟩
  · rw [if_neg hcopy] at hr
    exact lowerOperation_ran hx hl hlhs hops h hcopy harity (forM_eq_ok hnull) hcheck hr

/-! ### Calls -/

/-- The arguments that pass agree with the parameters. -/
theorem checkArguments_eq_ok {callee : String} {position : Nat} {arguments : List Expr}
    {parameters : List Ty} (hlen : arguments.length = parameters.length)
    (h : checkArguments callee position arguments parameters = .ok ()) :
    List.Forall₂ (fun a p => rejectNull p a = .ok () ∧ a.ty.agrees p) arguments parameters := by
  induction arguments generalizing parameters position with
  | nil =>
    obtain rfl := List.length_eq_zero_iff.1 hlen.symm
    exact .nil
  | cons a arguments ih =>
    cases parameters with
    | nil => cases hlen
    | cons p parameters =>
      rw [checkArguments] at h
      cases hn : rejectNull p a with
      | error e => simp [hn, bind, Except.bind] at h
      | ok u =>
        simp only [hn, bind, Except.bind] at h
        split at h
        · cases h
        · rename_i hty
          exact .cons ⟨hn, sameType_eq_ok_iff.1 hty⟩ (ih (by simpa using hlen) h)

theorem lowerCall_ran (hx : cx.index.Closed S) (hl : cx.LineKnown) {function : String}
    {arguments : List Expr} {lhs : Option Expr} {line : Option Nat}
    (hargs : ∀ e ∈ arguments, ∀ ty ∈ e.types, S ty) (hlhs : ∀ e ∈ lhs, ∀ ty ∈ e.types, S ty)
    (h : s.Inv (cx.setting S)) (hr : (lowerCall cx function arguments lhs).Ran s () s') :
    ∃ code, Emits (cx.setting S) s code [] s' ∧ ∀ w, s'.Grows w →
      Performs (cx.setting S) cx.polyfills w (.call function arguments lhs line) s.vars.length code
        s'.vars.length := by
  unfold lowerCall at hr
  cases hcallee : cx.index.function? function with
  | none => simp [hcallee] at hr
  | some callee =>
    simp only [hcallee] at hr
    split at hr
    · simp at hr
    rename_i hlen
    have hlen : arguments.length = callee.parameterTypes.length := by simpa using hlen
    simp only [check, Build.ran_bind, Build.ran_ofExcept] at hr
    obtain ⟨_, _, ⟨hpass, rfl⟩, _, s, ⟨hres, rfl⟩, vs, s₁, hreads, hr⟩ := hr
    have hpass := checkArguments_eq_ok hlen hpass
    obtain ⟨code, he₁, hreads⟩ := readAll_ran hx hl hargs h hreads
    have hcall : ∀ {s₂ s₃ : State} {outputs : List Nat}, s₂.Inv (cx.setting S) →
        (call cx (.external callee.name) vs outputs).Ran s₂ () s₃ → ∃ note, NoteKnown s₃ note ∧
          s₃.vars = s₂.vars ∧ Emits (cx.setting S) s₂
            [.call (.external callee.name) vs outputs note] [] s₃ := fun h₂ hr =>
      emitNoted_ran (f := .call (.external callee.name) vs _) hl h₂ hr
    cases hret : callee.returnType with
    | none =>
      cases lhs with
      | some lhs => simp [checkResult, hret] at hres
      | none =>
        simp only [hret] at hr
        obtain ⟨note, hn, hv, he⟩ := hcall he₁.inv hr
        refine ⟨_, he₁.trans he, fun w hw => ?_⟩
        rw [hv]
        exact .callVoid hcallee hpass hret (hreads w (he.grows.trans hw)) (hn.mono hw)
    | some result =>
      have hSres : S result := by
        refine hx.result callee (List.mem_of_find?_eq_some hcallee) result ?_
        simp [hret]
      cases lhs with
      | none =>
        simp only [hret, Build.ran_bind] at hr
        obtain ⟨typ, _, htyp, v, s₂, htemp, hr⟩ := hr
        obtain ⟨rfl, hlen, hhas, ht, he₂⟩ := typedTemporary_ran hx hl he₁.inv hSres htyp htemp
        obtain ⟨note, hn, hv, he⟩ := hcall he₂.inv hr
        refine ⟨_, (he₁.append_nil he₂).trans he, fun w hw => ?_⟩
        have hw₂ : s₂.Grows w := he.grows.trans hw
        rw [hv, hlen]
        exact .callDiscard hcallee hpass hret (hreads w (he₂.grows.trans hw₂))
          (hhas.mono hw₂.types) (ht.mono hw₂) (hn.mono hw)
      | some lhs =>
        have hS : ∀ ty ∈ lhs.types, S ty := hlhs lhs rfl
        have hstored : lhs.ty.agrees result := by
          simp only [checkResult, hret] at hres
          exact sameType_eq_ok_iff.1 hres
        simp only [hret, Build.ran_bind] at hr
        obtain ⟨target, s₂, hdest, hr⟩ := hr
        rcases destination_ran hx hl he₁.inv hdest with
          ⟨ty, name, v, rfl, rfl, hmem, rfl, hty, he₂⟩ | ⟨hunnamed, rfl, rfl⟩
        · obtain ⟨note, hn, hv, he⟩ := hcall he₂.inv hr
          refine ⟨_, (he₁.append_nil he₂).trans he, fun w hw => ?_⟩
          have hw₂ : s₂.Grows w := he.grows.trans hw
          rw [hv]
          exact .callTo hcallee hpass hret hstored (hreads w (he₂.grows.trans hw₂))
            he₂.grows.vars.length_le (hw₂.mem_scope hmem) hty (hn.mono hw)
        · simp only [Build.ran_bind] at hr
          obtain ⟨typ, _, htyp, v, s₃, htemp, _, s₄, hr, hwrite⟩ := hr
          obtain ⟨rfl, hlen, hhas, ht, he₃⟩ :=
            typedTemporary_ran hx hl he₁.inv (hS _ lhs.ty_mem_types) htyp htemp
          obtain ⟨note, hn, hv, he₄⟩ := hcall he₃.inv hr
          obtain ⟨code', he, hwrites⟩ := write_ran hx hl hS he₄.inv hwrite
          refine ⟨_, ((he₁.append_nil he₃).trans he₄).trans he, fun w hw => ?_⟩
          have hw₄ : s₄.Grows w := he.grows.trans hw
          have hw₃ : s₃.Grows w := he₄.grows.trans hw₄
          have hwrite := hwrites w hw
          rw [hv, hlen] at hwrite
          exact .callStore hcallee hpass hret hstored hunnamed (hreads w (he₃.grows.trans hw₃))
            (hhas.mono hw₃.types) (ht.mono hw₃) hwrite (hn.mono hw₄)

/-! ### Branches -/

theorem addArm_ran (hl : cx.LineKnown) (h : s.Inv (cx.setting S)) {condition target label arm : Nat}
    (hc : Temp s condition .bool) (ht : s.target? label = some target)
    (hr : (addArm cx condition target).Ran s arm s') :
    IsArm s' arm condition target ∧ s'.vars = s.vars ∧ Emits (cx.setting S) s [] [] s' := by
  simp only [addArm, Build.ran_bind] at hr
  obtain ⟨l, s₁, hloc, hr⟩ := hr
  obtain ⟨hk, hv, -, -, he₁⟩ := locate_ran (P := cx.setting S) hl h hloc
  obtain ⟨rfl, rfl⟩ := Build.ran_step.1 hr
  have he := emits_draft he₁.inv (s₁.draft.extends_addMatchArm condition target l) he₁.inv.typed
    (he₁.inv.kept.addMatchArm hk (he₁.inv.has_temp (hc.mono he₁.grows))
      (he₁.inv.planned.has_of_target? (he₁.grows.target? ht))) s₁.canPanic
  simp only [List.length_nil, List.range'_zero, List.append_nil] at he
  refine ⟨⟨l, ?_, hk⟩, hv, he₁.trans_nil he⟩
  simp [State.arms, Flo.Draft.addMatchArm]

theorem lowerConditional_ran (hx : cx.index.Closed S) (hl : cx.LineKnown) {op : Operator}
    {operands : List Expr} {t f : Nat} {line : Option Nat}
    (hops : ∀ e ∈ operands, ∀ ty ∈ e.types, S ty) (h : s.Inv (cx.setting S))
    {exit : Flo.BlockExit} (hr : (lowerConditional cx op operands t f).Ran s exit s') :
    ∃ code, Emits (cx.setting S) s code [t, f] s' ∧ ∀ w, s'.Grows w →
      Leaves (cx.setting S) cx.polyfills w (.conditional op operands t f line) s.vars.length code
        exit s'.vars.length := by
  unfold lowerConditional at hr
  by_cases hop : op.opClass = .comparison
  swap
  · simp [hop] at hr
  rw [if_neg (not_not.2 hop)] at hr
  split at hr
  swap
  · simp at hr
  rename_i left right
  simp only [check, Build.ran_bind, Build.ran_ofExcept, Build.ran_pure] at hr
  obtain ⟨_, s, ⟨hty, rfl⟩, typ, s₁, htyp, tid, s₂, ht, fid, s₃, hf, a, s₄, ha, b, s₅, hb, c, s₆,
    hc, o, s₇, ho, first, s₈, hfirst, second, s₉, hsecond, rfl, rfl⟩ := hr
  have hleft := hops left (by simp)
  have hright := hops right (by simp)
  obtain ⟨rep, hrep, rfl, hv₁, he₁⟩ := valueType_ran hx h (hleft _ left.ty_mem_types) htyp
  obtain ⟨htt, hv₂, he₂⟩ := blockFor_ran he₁.inv ht
  obtain ⟨hft, hv₃, he₃⟩ := blockFor_ran he₂.inv hf
  obtain ⟨code, he₄, hreads⟩ := read_ran hx hl hleft he₃.inv ha
  obtain ⟨code', he₅, hreads'⟩ := read_ran hx hl hright he₄.inv hb
  obtain ⟨routine, note, hp, hn, he₆, ⟨hout, -⟩ | ⟨-, rfl, hlen₆, hcond⟩⟩ :=
    callRoutine_ran hl he₅.inv (by exact trivial) hc
  · cases hout
  obtain ⟨rfl, hlen₇, hother, note', hn', he₇⟩ := constant_ran hl he₆.inv (by exact trivial) ho
  have hg₇ : s₃.Grows s₇ :=
    he₄.grows.trans (he₅.grows.trans (he₆.grows.trans he₇.grows))
  obtain ⟨hfirst, hv₈, he₈⟩ := addArm_ran hl he₇.inv (hcond.mono he₇.grows)
    ((he₃.grows.trans hg₇).target? htt) hfirst
  obtain ⟨hsecond, hv₉, he₉⟩ := addArm_ran hl he₈.inv (hother.mono he₈.grows)
    ((hg₇.trans he₈.grows).target? hft) hsecond
  have hemits := ((((he₁.trans_nil he₂).trans he₃).trans he₄).append_code he₅).append_code
    (he₆.append_code (he₇.append_nil (he₈.append_nil he₉)))
  refine ⟨_, hemits, fun w hw => ?_⟩
  have hw₈ : s₈.Grows w := he₉.grows.trans hw
  have hw₇ : s₇.Grows w := he₈.grows.trans hw₈
  have hw₆ : s₆.Grows w := he₇.grows.trans hw₇
  have hw₅ : s₅.Grows w := he₆.grows.trans hw₆
  have hw₄ : s₄.Grows w := he₅.grows.trans hw₅
  have hw₃ : s₃.Grows w := he₄.grows.trans hw₄
  have hw₁ : s₁.Grows w := (he₂.grows.trans he₃.grows).trans hw₃
  rw [hv₉, hv₈, hlen₇, hlen₆, ← hv₁, ← hv₂, ← hv₃]
  rw [hlen₆] at hother hsecond
  exact .conditional hop (sameType_eq_ok_iff.1 hty) ⟨rep, hrep.mono hw₁.types, rfl⟩
    ((he₃.grows.trans hw₃).target? htt) (hw₃.target? hft) hp (hreads w hw₄) (hreads' w hw₅)
    (hcond.mono hw₆) (hother.mono hw₇) (hfirst.mono hw₈) (hsecond.mono hw) (hn.mono hw₆)
    (hn'.mono hw₇)

/-- The condition that a selector matches a label. -/
theorem caseCondition_ran (hl : cx.LineKnown) (h : s.Inv (cx.setting S)) {selector : Nat}
    {typ : Flo.Ty} {c : Case} {v : Nat} (hr : (caseCondition cx selector typ c).Ran s v s') :
    ∃ code, Emits (cx.setting S) s code [] s' ∧ ∀ w, s'.Grows w →
      Compares cx.polyfills w selector typ c s.vars.length v code s'.vars.length := by
  simp only [caseCondition, check, Build.ran_bind, Build.ran_ofExcept] at hr
  obtain ⟨low, s, ⟨hlow, rfl⟩, l, s₁, hl₁, hr⟩ := hr
  obtain ⟨rfl, hlen₁, ht₁, note₁, hn₁, he₁⟩ := constant_ran hl h (s.types.covers_of_isInteger
    (isInteger_of_integerConstant hlow)) hl₁
  split at hr
  · rename_i hsingle
    obtain ⟨routine, note, hp, hn, he, ⟨hout, -⟩ | ⟨-, rfl, hlen, ht⟩⟩ := callRoutine_ran hl he₁.inv
      (by exact trivial) hr
    · cases hout
    refine ⟨_, he₁.append_code he, fun w hw => ?_⟩
    have hw₁ : s₁.Grows w := he.grows.trans hw
    rw [hlen, hlen₁]
    rw [hlen₁] at ht
    exact .single hsingle hlow hp (ht₁.mono hw₁) (ht.mono hw) (hn₁.mono hw₁) (hn.mono hw)
  · rename_i hrange
    simp only [Build.ran_bind, Build.ran_ofExcept] at hr
    obtain ⟨high, _, ⟨hhigh, rfl⟩, g, s₂, hg, a, s₃, ha, b, s₄, hb, hr⟩ := hr
    obtain ⟨rfl, hlen₂, ht₂, note₂, hn₂, he₂⟩ := constant_ran hl he₁.inv
      (Registry.covers_of_isInteger _ (isInteger_of_integerConstant hhigh)) hg
    obtain ⟨ge, note₃, hge, hn₃, he₃, ⟨hout, -⟩ | ⟨-, rfl, hlen₃, ht₃⟩⟩ :=
      callRoutine_ran hl he₂.inv (by exact trivial) ha
    · cases hout
    obtain ⟨le, note₄, hle, hn₄, he₄, ⟨hout, -⟩ | ⟨-, rfl, hlen₄, ht₄⟩⟩ :=
      callRoutine_ran hl he₃.inv (by exact trivial) hb
    · cases hout
    obtain ⟨and, note₅, hand, hn₅, he₅, ⟨hout, -⟩ | ⟨-, rfl, hlen₅, ht₅⟩⟩ :=
      callRoutine_ran hl he₄.inv (by exact trivial) hr
    · cases hout
    refine ⟨_, he₁.append_code (he₂.append_code (he₃.append_code (he₄.append_code he₅))),
      fun w hw => ?_⟩
    have hw₄ : s₄.Grows w := he₅.grows.trans hw
    have hw₃ : s₃.Grows w := he₄.grows.trans hw₄
    have hw₂ : s₂.Grows w := he₃.grows.trans hw₃
    rename_i s₁
    have hw₁ : s₁.Grows w := he₂.grows.trans hw₂
    rw [hlen₅, hlen₄, hlen₃, hlen₂, hlen₁]
    rw [hlen₁] at ht₂
    rw [hlen₂, hlen₁] at ht₃
    rw [hlen₃, hlen₂, hlen₁] at ht₄
    rw [hlen₄, hlen₃, hlen₂, hlen₁] at ht₅
    refine .range hrange hlow hhigh hge hle hand (ht₁.mono hw₁) (ht₂.mono hw₂) (ht₃.mono hw₃)
      (ht₄.mono hw₄) (ht₅.mono hw) ?_
    simp only [List.mem_cons, List.not_mem_nil, or_false, forall_eq_or_imp, forall_eq]
    exact ⟨hn₁.mono hw₁, hn₂.mono hw₂, hn₃.mono hw₃, hn₄.mono hw₄, hn₅.mono hw⟩

theorem Compares.temp {selector : Nat} {typ : Flo.Ty} {c : Case} {n v m : Nat}
    {code : List Flo.Statement} (h : Compares ps w selector typ c n v code m) : Temp w v .bool := by
  cases h with
  | single isSingle isLow isEq temp result => exact result
  | range isRange isLow isHigh isGe isLe isAnd lowTemp highTemp above below both => exact both

theorem caseArms_ran (hl : cx.LineKnown) (h : s.Inv (cx.setting S)) {selector : Nat}
    {typ : Flo.Ty} {cases : List (Case × Nat)} {arms : List Nat}
    (ht : ∀ p ∈ cases, ∃ label, s.target? label = some p.2)
    (hr : (caseArms cx selector typ cases).Ran s arms s') :
    ∃ code, Emits (cx.setting S) s code [] s' ∧ ∀ w, s'.Grows w →
      Arms cx.polyfills w selector typ cases s.vars.length code arms s'.vars.length := by
  induction cases generalizing s arms with
  | nil =>
    obtain ⟨rfl, rfl⟩ := Build.ran_pure.1 hr
    exact ⟨[], .refl h, fun w _ => .nil _⟩
  | cons p cases ih =>
    obtain ⟨c, target⟩ := p
    simp only [caseArms, Build.ran_bind, Build.ran_pure] at hr
    obtain ⟨v, s₁, hc, arm, s₂, harm, rest, s₃, hrest, rfl, rfl⟩ := hr
    obtain ⟨code, he₁, hcompares⟩ := caseCondition_ran hl h hc
    obtain ⟨label, hlabel⟩ := ht (c, target) (by simp)
    obtain ⟨harm, hv, he₂⟩ := addArm_ran hl he₁.inv (hcompares s₁ (.refl s₁)).temp
      (he₁.grows.target? hlabel) harm
    have ht₂ : ∀ p ∈ cases, ∃ label, s₂.target? label = some p.2 := by
      intro p hp
      obtain ⟨label, hlabel⟩ := ht p (by simp [hp])
      exact ⟨label, (he₁.grows.trans he₂.grows).target? hlabel⟩
    obtain ⟨code', he₃, harms⟩ := ih he₂.inv ht₂ hrest
    refine ⟨_, (he₁.append_nil he₂).append_code he₃, fun w hw => ?_⟩
    have hw₂ : s₂.Grows w := he₃.grows.trans hw
    have harms := harms w hw
    rw [hv] at harms
    exact .cons (hcompares w (he₂.grows.trans hw₂)) (harm.mono hw₂) harms

theorem lowerSwitch_ran (hx : cx.index.Closed S) (hl : cx.LineKnown) {value : Expr}
    {cases : List Case} {default : Nat} {line : Option Nat} (hS : ∀ ty ∈ value.types, S ty)
    (h : s.Inv (cx.setting S)) {exit : Flo.BlockExit}
    (hr : (lowerSwitch cx value cases default).Ran s exit s') :
    ∃ code, Emits (cx.setting S) s code (cases.map Case.block ++ [default]) s' ∧
      ∀ w, s'.Grows w → Leaves (cx.setting S) cx.polyfills w (.switch value cases default line)
        s.vars.length code exit s'.vars.length := by
  unfold lowerSwitch at hr
  split at hr
  · simp at hr
  rename_i hint
  have hmapM : ∀ s : State, (cases.mapM fun c => blockFor cx c.block).runOn s =
      ((cases.map Case.block).mapM (blockFor cx)).runOn s := by
    intro s
    rw [List.mapM_map]
    rfl
  simp only [check, addDefaultArm, Build.ran_bind, Build.ran_ofExcept, Build.ran_pure] at hr
  obtain ⟨typ, s₁, htyp, _, _, ⟨hvalid, rfl⟩, targets, s₂, htargets, d, s₃, hd, sel, s₄, hsel, arms,
    s₅, harms, last, s₆, ⟨o, s₇, ho, hlast⟩, rfl, rfl⟩ := hr
  obtain ⟨rep, hrep, rfl, hv₁, he₁⟩ := valueType_ran hx h (hS _ value.ty_mem_types) htyp
  obtain ⟨hts, hv₂, he₂⟩ := blockFor_mapM_ran he₁.inv ((hmapM _).symm.trans htargets)
  obtain ⟨hdt, hv₃, he₃⟩ := blockFor_ran he₂.inv hd
  obtain ⟨code, he₄, hreads⟩ := read_ran hx hl hS he₃.inv hsel
  have htargets : ∀ p ∈ cases.zip targets, ∃ label, s₄.target? label = some p.2 := by
    intro p hp
    have hmem : some p.2 ∈ targets.map some := List.mem_map_of_mem (List.of_mem_zip hp).2
    rw [← hts] at hmem
    obtain ⟨label, -, hlabel⟩ := List.mem_map.1 hmem
    exact ⟨label, (he₃.grows.trans he₄.grows).target? hlabel⟩
  obtain ⟨code', he₅, hArms⟩ := caseArms_ran hl he₄.inv htargets harms
  obtain ⟨rfl, hlen₇, hother, note, hn, he₇⟩ := constant_ran hl he₅.inv (by exact trivial) ho
  obtain ⟨hlast, hv₆, he₆⟩ := addArm_ran hl he₇.inv hother
    ((he₄.grows.trans (he₅.grows.trans he₇.grows)).target? hdt) hlast
  have hemits := ((((he₁.trans_nil he₂).trans he₃).append_code he₄).append_code he₅).append_code
    (he₇.append_nil he₆)
  refine ⟨_, hemits, fun w hw => ?_⟩
  have hw₇ : s₇.Grows w := he₆.grows.trans hw
  have hw₅ : s₅.Grows w := he₇.grows.trans hw₇
  have hw₄ : s₄.Grows w := he₅.grows.trans hw₅
  have hw₃ : s₃.Grows w := he₄.grows.trans hw₄
  have hw₂ : s₂.Grows w := he₃.grows.trans hw₃
  rw [hv₆, hlen₇, ← hv₁, ← hv₂, ← hv₃]
  refine Leaves.switch (P := cx.setting S) (by simpa using hint)
    ⟨rep, hrep.mono (he₂.grows.trans hw₂).types, rfl⟩ hvalid ?_
    (hw₃.target? hdt) (hreads w hw₄) (hArms w hw₅) (hother.mono hw₇) (hlast.mono hw) (hn.mono hw₇)
  rw [List.map_map] at hts
  exact targets_grow hw₂ hts

/-! ### Returns -/

theorem lowerReturn_ran (hx : cx.index.Closed S) (hl : cx.LineKnown) {value : Option Expr}
    {line : Option Nat} (hS : ∀ e ∈ value, ∀ ty ∈ e.types, S ty) (h : s.Inv (cx.setting S))
    {exit : Flo.BlockExit} (hr : (lowerReturn cx value).Ran s exit s') :
    ∃ code, Emits (cx.setting S) s code [] s' ∧ ∀ w, s'.Grows w →
      Leaves (cx.setting S) cx.polyfills w (.ret value line) s.vars.length code exit
        s'.vars.length := by
  unfold lowerReturn at hr
  cases hret : cx.function.returnType with
  | none =>
    cases value with
    | some value => simp [hret] at hr
    | none =>
      simp only [hret, Build.ran_pure] at hr
      obtain ⟨rfl, rfl⟩ := hr
      exact ⟨[], .refl h, fun w _ => .retVoid hret⟩
  | some ty =>
    cases value with
    | none => simp [hret] at hr
    | some value =>
      simp only [hret, check, Build.ran_bind, Build.ran_ofExcept] at hr
      obtain ⟨_, _, ⟨hnull, rfl⟩, _, s, ⟨hty, rfl⟩, v, s₁, hread, hr⟩ := hr
      obtain ⟨code, he₁, hreads⟩ := read_ran hx hl (hS value rfl) h hread
      cases hslot : cx.returnSlot with
      | none => simp [hslot] at hr
      | some slot =>
        simp only [hslot, assign, Build.ran_bind, Build.ran_pure] at hr
        obtain ⟨_, s₂, ⟨note, s₃, hnote, hemit⟩, rfl, rfl⟩ := hr
        obtain ⟨note', hn, hv, he⟩ := emitNoted_ran (f := .assign slot v) hl he₁.inv
          (Build.ran_bind.2 ⟨note, s₃, hnote, hemit⟩)
        refine ⟨_, he₁.trans he, fun w hw => ?_⟩
        rw [hv]
        refine .ret hret ?_ hnull (sameType_eq_ok_iff.1 hty) (hreads w (he.grows.trans hw)) (hn.mono hw)
        simp [Context.setting, Context.returns, hslot]

/-! ### Statements -/

/-- The code of a statement, which ends a block if it has an exit. -/
def Lowers (P : Setting) (ps : Polyfills) (w : State) (stmt : Statement) (n : Nat)
    (code : List Flo.Statement) (exit : Option Flo.BlockExit) (m : Nat) : Prop :=
  match exit with
  | none => Performs P ps w stmt n code m
  | some exit => Leaves P ps w stmt n code exit m

/-- A statement is lowered to its code, and branches to its targets and to nothing else. -/
theorem lowerStatement_ran (hx : cx.index.Closed S) (hl : cx.LineKnown) {stmt : Statement}
    (hS : ∀ ty ∈ stmt.types, S ty) (h : s.Inv (cx.setting S)) {exit : Option Flo.BlockExit}
    (hr : (lowerStatement cx stmt).Ran s exit s') :
    exit.isSome = stmt.isTerminator ∧ ∃ code, Emits (cx.setting S) s code stmt.targets s' ∧
      ∀ w, s'.Grows w →
        Lowers (cx.setting S) cx.polyfills w stmt s.vars.length code exit s'.vars.length := by
  cases stmt with
  | assign op lhs operands line =>
    simp only [lowerStatement, Build.ran_bind, Build.ran_pure] at hr
    obtain ⟨_, _, hr, rfl, rfl⟩ := hr
    obtain ⟨hlhs, hops⟩ := Statement.forall_types_assign.1 hS
    exact ⟨rfl, lowerAssign_ran hx hl hlhs hops h hr⟩
  | call function arguments lhs line =>
    simp only [lowerStatement, Build.ran_bind, Build.ran_pure] at hr
    obtain ⟨_, _, hr, rfl, rfl⟩ := hr
    obtain ⟨hargs, hlhs⟩ := Statement.forall_types_call.1 hS
    exact ⟨rfl, lowerCall_ran hx hl hargs hlhs h hr⟩
  | conditional op operands t f line =>
    simp only [lowerStatement, Build.ran_bind, Build.ran_pure] at hr
    obtain ⟨_, _, hr, rfl, rfl⟩ := hr
    exact ⟨rfl, lowerConditional_ran hx hl (Statement.forall_types_conditional.1 hS) h hr⟩
  | ret value line =>
    simp only [lowerStatement, Build.ran_bind, Build.ran_pure] at hr
    obtain ⟨_, _, hr, rfl, rfl⟩ := hr
    exact ⟨rfl, lowerReturn_ran hx hl (Statement.forall_types_ret.1 hS) h hr⟩
  | goto target line =>
    simp only [lowerStatement, Build.ran_bind, Build.ran_pure] at hr
    obtain ⟨id, _, hr, rfl, rfl⟩ := hr
    obtain ⟨ht, hv, he⟩ := blockFor_ran h hr
    refine ⟨rfl, [], he, fun w hw => ?_⟩
    rw [hv]
    exact .goto (hw.target? ht)
  | switch value cases default line =>
    simp only [lowerStatement, Build.ran_bind, Build.ran_pure] at hr
    obtain ⟨_, _, hr, rfl, rfl⟩ := hr
    exact ⟨rfl, lowerSwitch_ran hx hl hS h hr⟩

end GimpleLowering.Lowering

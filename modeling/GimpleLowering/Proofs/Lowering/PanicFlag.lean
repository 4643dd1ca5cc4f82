import GimpleLowering.Proofs.Lowering.Accesses
import GimpleLowering.Proofs.Lowering.Contexts

/-!
# The flag of a function and its object

The flag in the signature of a function is set by what the source says about its pointers, while
the object has nothing but the types of its variables. Both say the same. Where an operand goes
through a pointer, the pointer was read into a variable whose type is a handle that can be null,
wherever it came from, and the access is in the code; so no flag is set for an access that the
object does not have. `IsFunction.heeds` is the other half: without the flag, there is no such
access.

What a call does is left out on both sides: an object has no calls of its own functions, and what
the others do is their own affair.

## Main definitions

* `Flo.Object.Risks` — an access that fails for some values of its variables
* `Flo.Object.RisksPanic` — an object with such an access, or with an exit that panics

## Main results

* `Lowering.IsBlock.risksAt` — a block that sets the flag can panic
* `Lowering.lowerFunction_canPanic_iff` — the flag of every function that is lowered
-/

namespace GimpleLowering

open Gimple Layout

/-! ### Objects -/

namespace Flo.Object

/-- The statement accesses an element of an array, or goes through a variable whose type says that
it can be null. -/
def Risks (o : Object) (s : Statement) : Prop :=
  ∃ handle member, s.accessed? = some (handle, member) ∧
    ((∃ index, member = .element index) ∨ ∃ typ, o.HasType handle (.handle typ true))

/-- The block ends with a panic, or it has a statement that can panic. -/
def RisksAt (o : Object) (row : Block) : Prop :=
  (∃ message values, row.exit = .panic message values) ∨
    ∃ id ∈ row.statements, ∃ s, o.statements.get? id = some s ∧ o.Risks s

/-- Some block of the object ends with a panic, or it has a statement that can panic. -/
def RisksPanic (o : Object) : Prop := ∃ id row, o.blocks.get? id = some row ∧ o.RisksAt row

variable {o : Object}

/-- Every access to an element can panic. -/
theorem Risks.of_element {s : Statement} {array index : Nat}
    (h : s.accessed? = some (array, .element index)) : o.Risks s :=
  ⟨array, .element index, h, .inl ⟨index, rfl⟩⟩

/-- A variable has one type. -/
theorem HasType.unique {v : Nat} {typ typ' : Ty} (h : o.HasType v typ) (h' : o.HasType v typ') :
    typ = typ' := by
  obtain ⟨row, hrow, rfl⟩ := h
  obtain ⟨row', hrow', rfl⟩ := h'
  obtain rfl := Option.some.inj (hrow.symm.trans hrow')
  rfl

theorem Guarded.not_risks {s : Statement} (h : o.Guarded false s) : ¬ o.Risks s := by
  rintro ⟨handle, member, haccess, hrisk⟩
  obtain ⟨⟨typ, hreference⟩, hmember⟩ := h.access rfl haccess
  rcases hrisk with ⟨index, rfl⟩ | ⟨typ', hnullable⟩
  · exact hmember index rfl
  · cases hreference.unique hnullable

/-- An object that heeds its flag has nothing that can panic without it. -/
theorem Heeds.of_risksPanic {b : Bool} (h : o.Heeds b) (hrisk : o.RisksPanic) : b = true := by
  obtain ⟨id, row, hrow, ⟨message, values, hexit⟩ | ⟨i, -, s, hs, hrisk⟩⟩ := hrisk
  · exact h.exit hrow hexit
  · cases b with
    | true => rfl
    | false => exact absurd hrisk (h.statement hs).not_risks

end Flo.Object

namespace Lowering

variable {P : Setting} {ps : Polyfills} {w : State} {r : Registry} {o : Flo.Object}

section

variable (h : Finishes P w r o)

include h

/-! ### Operands -/

/-- An access through a pointer that can be null. -/
theorem Reads.risks_access {pointer : Expr} {n v m : Nat} {code : List Flo.Statement}
    (hr : Reads P.index w pointer n v code m) {base : Ty}
    (hb : pointer.ty.indirectBase = some base) (hn : pointer.ty.isNullable)
    {s : Flo.Statement} {member : Flo.Member} (ha : s.accessed? = some (v, member)) :
    o.Risks s := by
  obtain ⟨typ, hv⟩ := hr.hasHandle h hb
  exact ⟨v, member, ha, .inr ⟨typ, hn ▸ hv⟩⟩

/-- The code that follows a pointer can panic if reading the pointer can, or if the pointer can be
null. -/
theorem Reads.exists_risks_access {pointer : Expr} {n v m : Nat} {code : List Flo.Statement}
    (hr : Reads P.index w pointer n v code m) {base : Ty}
    (hb : pointer.ty.indirectBase = some base) {s : Flo.Statement} {member : Flo.Member}
    (ha : s.accessed? = some (v, member))
    (ih : pointer.mayPanic = true → ∃ t ∈ code, o.Risks t)
    (hp : (pointer.mayPanic || pointer.ty.isNullable) = true) :
    ∃ t ∈ code ++ [s], o.Risks t := by
  rcases Bool.or_eq_true_iff.1 hp with hp | hn
  · obtain ⟨t, ht, hrisk⟩ := ih hp
    exact ⟨t, List.mem_append_left _ ht, hrisk⟩
  · exact ⟨s, by simp, hr.risks_access h hb hn ha⟩

/-- If reading an operand sets the flag, a statement of its code can panic. -/
theorem Reads.exists_risks {e : Expr} {n v m : Nat} {code : List Flo.Statement}
    (hr : Reads P.index w e n v code m) (hp : e.mayPanic = true) : ∃ s ∈ code, o.Risks s := by
  induction hr with
  | constant isConstant temp noted => cases isConstant <;> cases hp
  | named le mem agrees => cases hp
  | through base isSlot agrees readPointer temp noted ih =>
    exact readPointer.exists_risks_access h base rfl ih hp
  | part direct isSlot agrees readWhole temps noted ih =>
    obtain ⟨s, hs, hrisk⟩ := ih hp
    exact ⟨s, List.mem_append_left _ hs, hrisk⟩
  | deref base agrees represents readPointer temp noted ih =>
    exact readPointer.exists_risks_access h base rfl ih hp
  | element isArray agrees integral represents readArray readIndex temp noted =>
    exact ⟨_, List.mem_append_right _ (List.mem_singleton_self _), .of_element rfl⟩

/-- If writing to an operand sets the flag, a statement of its code can panic. -/
theorem Writes.exists_risks {e : Expr} {n v m : Nat} {code : List Flo.Statement}
    (hw : Writes P.index w e n v code m) (hp : e.mayPanic = true) : ∃ s ∈ code, o.Risks s := by
  induction hw with
  | named le mem agrees noted => cases hp
  | through base isSlot agrees readPointer noted =>
    exact readPointer.exists_risks_access h base rfl (readPointer.exists_risks h) hp
  | part direct isSlot agrees readWhole temps temp writeBase noted noted' ih =>
    obtain ⟨s, hs, hrisk⟩ := ih hp
    exact ⟨s, List.mem_append_right _ hs, hrisk⟩
  | deref base agrees readPointer noted =>
    exact readPointer.exists_risks_access h base rfl (readPointer.exists_risks h) hp
  | element isArray agrees integral readArray readIndex noted =>
    exact ⟨_, List.mem_append_right _ (List.mem_singleton_self _), .of_element rfl⟩

theorem ReadsAll.exists_risks {es : List Expr} {n m : Nat} {vs : List Nat}
    {code : List Flo.Statement} (hr : ReadsAll P.index w es n vs code m)
    (hp : es.any Expr.mayPanic = true) : ∃ s ∈ code, o.Risks s := by
  induction hr with
  | nil n => cases hp
  | cons read rest ih =>
    rw [List.any_cons, Bool.or_eq_true] at hp
    rcases hp with hp | hp
    · obtain ⟨s, hs, hrisk⟩ := read.exists_risks h hp
      exact ⟨s, List.mem_append_left _ hs, hrisk⟩
    · obtain ⟨s, hs, hrisk⟩ := ih hp
      exact ⟨s, List.mem_append_right _ hs, hrisk⟩

/-! ### Statements -/

/-- If a statement sets the flag, a statement of its code can panic. -/
theorem Performs.exists_risks {stmt : Statement} {n m : Nat} {code : List Flo.Statement}
    (hp : Performs P ps w stmt n code m) (hmay : stmt.mayPanic = true) :
    ∃ s ∈ code, o.Risks s := by
  -- What the operands and the target can do is in the first and in the last part of the code.
  have hfirst : ∀ {code code' : List Flo.Statement}, (∃ s ∈ code, o.Risks s) →
      ∃ s ∈ code ++ code', o.Risks s :=
    fun ⟨s, hs, hrisk⟩ => ⟨s, List.mem_append_left _ hs, hrisk⟩
  have hlast : ∀ {code code' : List Flo.Statement}, (∃ s ∈ code', o.Risks s) →
      ∃ s ∈ code ++ code', o.Risks s :=
    fun ⟨s, hs, hrisk⟩ => ⟨s, List.mem_append_right _ hs, hrisk⟩
  cases hp with
  | copy isCopy noNull agrees read write =>
    simp only [Statement.mayPanic, List.any_cons, List.any_nil, Bool.or_false,
      Bool.or_eq_true] at hmay
    rcases hmay with hmay | hmay
    · exact hfirst (read.exists_risks h hmay)
    · exact hlast (write.exists_risks h hmay)
  | operateTo noCopy arity noNull checked operandTypes resultType isRoutine reads =>
    rw [Statement.mayPanic, Expr.mayPanic, Bool.or_false] at hmay
    exact hfirst (reads.exists_risks h hmay)
  | operate noCopy arity unnamed noNull checked operandTypes resultType isRoutine reads temp
      write =>
    rcases Bool.or_eq_true_iff.1 hmay with hmay | hmay
    · exact hfirst (hfirst (reads.exists_risks h hmay))
    · exact hlast (write.exists_risks h hmay)
  | callTo isCallee passed returns stored reads =>
    rw [Statement.mayPanic, Option.any_some, Expr.mayPanic, Bool.or_false] at hmay
    exact hfirst (reads.exists_risks h hmay)
  | callStore isCallee passed returns stored unnamed reads resultType temp write =>
    rcases Bool.or_eq_true_iff.1 hmay with hmay | hmay
    · exact hfirst (hfirst (reads.exists_risks h hmay))
    · exact hlast (write.exists_risks h hmay)
  | callDiscard isCallee passed returns reads =>
    rw [Statement.mayPanic, Option.any_none, Bool.or_false] at hmay
    exact hfirst (reads.exists_risks h hmay)
  | callVoid isCallee passed returns reads =>
    rw [Statement.mayPanic, Option.any_none, Bool.or_false] at hmay
    exact hfirst (reads.exists_risks h hmay)

/-- So it is for a terminator. Its own code, with comparisons and constants, cannot panic. -/
theorem Leaves.exists_risks {stmt : Statement} {n m : Nat} {code : List Flo.Statement}
    {exit : Flo.BlockExit} (hl : Leaves P ps w stmt n code exit m)
    (hmay : stmt.mayPanic = true) : ∃ s ∈ code, o.Risks s := by
  cases hl with
  | goto | retVoid => cases hmay
  | conditional isComparison agrees operandType isTrue isFalse isRoutine readLeft readRight =>
    simp only [Statement.mayPanic, List.any_cons, List.any_nil, Bool.or_false,
      Bool.or_eq_true] at hmay
    rcases hmay with hmay | hmay
    · obtain ⟨s, hs, hrisk⟩ := readLeft.exists_risks h hmay
      exact ⟨s, by simp [hs], hrisk⟩
    · obtain ⟨s, hs, hrisk⟩ := readRight.exists_risks h hmay
      exact ⟨s, by simp [hs], hrisk⟩
  | switch integral selectorType valid areTargets isDefault read =>
    obtain ⟨s, hs, hrisk⟩ := read.exists_risks h hmay
    exact ⟨s, by simp [hs], hrisk⟩
  | ret isResult isSlot noNull agrees read =>
    obtain ⟨s, hs, hrisk⟩ := read.exists_risks h hmay
    exact ⟨s, by simp [hs], hrisk⟩

theorem LowersAll.exists_risks {stmts : List Statement} {n m : Nat}
    {codes : List (List Flo.Statement)} {exit : Option Flo.BlockExit}
    (hl : LowersAll P ps w stmts n codes exit m) (hmay : stmts.any Statement.mayPanic = true) :
    ∃ s ∈ codes.flatten, o.Risks s := by
  induction hl with
  | nil n => cases hmay
  | leave leaves =>
    rw [List.any_cons, List.any_nil, Bool.or_false] at hmay
    simpa using leaves.exists_risks h hmay
  | perform performs others ih =>
    rw [List.any_cons, Bool.or_eq_true] at hmay
    rcases hmay with hmay | hmay
    · obtain ⟨s, hs, hrisk⟩ := performs.exists_risks h hmay
      exact ⟨s, List.mem_append_left _ hs, hrisk⟩
    · obtain ⟨s, hs, hrisk⟩ := ih hmay
      exact ⟨s, List.mem_append_right _ hs, hrisk⟩

/-! ### Blocks -/

omit h in
/-- A block that misses a return ends with a panic. -/
theorem IsBlock.exit_of_missesReturn {index : Nat} {block : Block}
    {codes : List (List Flo.Statement)} {row : Flo.Block}
    (hb : IsBlock P ps w index block codes row) (hmiss : P.function.missesReturn index block) :
    row.exit = .panic missingReturnMessage [] := by
  simp only [Function.missesReturn, Bool.and_eq_true, Bool.not_eq_true', Option.isNone_iff_eq_none,
    Option.isSome_iff_ne_none] at hmiss
  obtain ⟨⟨hterm, hafter⟩, hresult⟩ := hmiss
  obtain ⟨hexits, -⟩ | ⟨stmt, n, code, m, before, hstmts, hleaves, -⟩ := hb.ending
  · generalize hexit : row.exit = exit at hexits
    cases hexits with
    | next after => cases hafter.symm.trans after
    | finish after isVoid => exact absurd isVoid hresult
    | missing after result => rfl
  · rw [hstmts, Option.any_some] at hterm
    generalize row.exit = exit at hleaves
    cases hleaves <;> cases hterm

/-- A block of the source that sets the flag becomes a block that can panic. -/
theorem IsBlock.risksAt {index : Nat} {block : Block} {codes : List (List Flo.Statement)}
    {row : Flo.Block} (hb : IsBlock P ps w index block codes row)
    (hmay : P.function.mayPanicAt index = true) : o.RisksAt row := by
  rw [hb.mayPanicAt_eq, Bool.or_eq_true] at hmay
  rcases hmay with hmay | hmiss
  · obtain ⟨n, exit, m, hlowers, -⟩ := hb.lowers
    obtain ⟨s, hs, hrisk⟩ := hlowers.exists_risks h hmay
    obtain ⟨id, hid, hget⟩ := hb.exists_id hs
    refine .inr ⟨id, hid, s, ?_, hrisk⟩
    rw [h.object, Flo.Table.get?_eq_rows]
    exact hget
  · exact .inl ⟨_, _, hb.exit_of_missesReturn hmiss⟩

end

/-! ### Functions -/

section

variable {parameters locals : List Var} {entry : Nat} {signature : Flo.Signature}

/-- The flag is set exactly if a block of the object can panic. -/
theorem IsFunction.canPanic_iff_risksPanic
    (hf : IsFunction P ps w parameters locals entry signature) (h : Finishes P w r o) :
    signature.canPanic = true ↔ o.RisksPanic := by
  refine ⟨fun hflag => ?_, (hf.heeds h).of_risksPanic⟩
  rw [hf.panics, List.any_eq_true] at hflag
  obtain ⟨p, hp, hmay⟩ := hflag
  obtain ⟨row, block, codes, hb, hrow⟩ := hf.block p hp
  refine ⟨p.2, { row with signature := if p.2 = entry then some signature else none }, ?_,
    hb.risksAt h hmay⟩
  rw [h.object, Flo.Table.get?_eq_rows]
  exact hrow

/-- **The flag is exact within one object.** The entry of every function that is lowered has a
signature whose flag is set if and only if some block of the object ends with a panic, or has an
access to an element or through a variable that can be null. -/
theorem lowerFunction_canPanic_iff {x : UnitIndex} {source : String} {f : Function}
    {types types' : Registry} {o : Flo.Object} (reached : Reached x types)
    (run : (lowerFunction x ps source f).Ran types o types') :
    ∃ entry row signature, o.symbols.pairs = [(f.name, entry)] ∧
      o.blocks.get? entry = some row ∧ row.signature = some signature ∧
      (signature.canPanic = true ↔ o.RisksPanic) := by
  obtain ⟨returns, w, parameters, locals, entry, signature, h, rfl, rfl⟩ :=
    lowerFunction_ran (.univ x) (by simp) reached.sound run
  obtain ⟨row, block, codes, -, hrow⟩ := h.block _ h.isEntry
  rw [if_pos rfl] at hrow
  refine ⟨entry, _, signature, h.symbols, (Flo.Table.get?_eq_rows _ _).trans hrow, rfl, ?_⟩
  -- It does not matter which type tables the object has.
  have finishes : Finishes ⟨x, f, returns, fun _ => True⟩ w w.types
    { w.draft.object with types := w.types.tables } := ⟨h.inv, .refl _, rfl⟩
  have hiff := h.canPanic_iff_risksPanic finishes
  exact hiff

/-- A function that goes through a reference, and only then through a pointer. -/
def chasing : Function :=
  let node : Ty := .record "node" [⟨"next", .pointer (.record "node" [])⟩, ⟨"value", .integer 32⟩]
  let next : Expr :=
    .component (.pointer node) (.deref node (.named (.reference node) "first")) "next"
  ⟨"second", [⟨"first", .reference node⟩], some (.integer 32), 2, [],
    [⟨2, [.ret (some (.component (.integer 32) (.deref node next) "value")) none]⟩]⟩

theorem chasing_canPanic_iff :
    ∃ o types, (lowerFunction .empty .empty "" chasing).Ran .empty o types ∧
      ∃ entry row signature, o.symbols.pairs = [(chasing.name, entry)] ∧
        o.blocks.get? entry = some row ∧ row.signature = some signature ∧
        (signature.canPanic = true ↔ o.RisksPanic) := by
  obtain ⟨o, types, run⟩ : ∃ o types,
      (lowerFunction .empty .empty "" chasing).Ran .empty o types :=
    Build.exists_ran_of_endsWell (by decide +kernel)
  exact ⟨o, types, run, lowerFunction_canPanic_iff .empty run⟩

end

end Lowering

end GimpleLowering

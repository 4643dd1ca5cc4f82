import GimpleLowering.Proofs.Compilation
import GimpleLowering.Proofs.Lowering.ControlFlow
import GimpleLowering.Proofs.Lowering.Typing

/-!
# Objects are well typed

The objects that are compiled from a consistent unit are well typed, with the type tables that all
of them share. The types that were registered for one function are still there when the last one is
done, so what was well typed when it was emitted stays so.

Each block of an object has the code of one block of the source, statement by statement, and the
calls in the code of a statement are those that the statement asks for. So a routine is the one for
the operator of this statement, and not of some other one.

## Main definitions

* `Flo.Object.IsTyped` — an object whose code, exits and signature are well typed

## Main results

* `Lowering.lowerFunction_isTyped` — an object is well typed if the types of its function are
  consistent, whatever else is registered
* `Compiler.run_isTyped` — every object of a manifest is well typed
-/

namespace GimpleLowering

open Gimple Layout Lowering

/-- The object of the function is well typed. Its blocks are those that control can get to, and each
of them has the code of the statements of the source, one after the other, with the calls that they
ask for. There are no other statements. -/
structure Flo.Object.IsTyped (o : Flo.Object) (x : UnitIndex) (r : Registry) (ps : Polyfills)
    (f : Function) (image : Nat → Nat) (signature : Flo.Signature) : Prop where
  types : o.types = r.tables
  controlFlow : ControlFlow f o image signature
  block : ∀ {label : Nat}, label ≠ exitIndex → f.Reaches label → ∃ b codes,
    f.block? label = some b ∧
      List.Forall₂ (fun stmt code => Flo.CodeTyped x r ps o stmt.invocations code)
        b.statements codes ∧
      (o.inBlock Flo.Block.statements (image label)).map o.statements.get? = codes.flatten.map some
  statement : ∀ {id : Nat}, o.statements.Has id → ∃ label, label ≠ exitIndex ∧ f.Reaches label ∧
    id ∈ o.inBlock Flo.Block.statements (image label)
  exit : ∀ id, o.blocks.Has id → ∃ row, o.blocks.get? id = some row ∧
    Flo.ExitTyped o signature.returns row.exit
  entry : ∃ id row, o.symbols.pairs = [(f.name, id)] ∧ o.blocks.get? id = some row ∧
    row.signature = some signature
  params : List.Forall₂ (fun v (d : Declaration) => ∃ typ, HasValueType x r d.ty typ ∧
    o.HasType v typ) signature.params f.parameters
  returns : Flo.Takes x r o f.returnType signature.returns

/-- Every statement of the object is well typed. -/
theorem Flo.Object.IsTyped.wellTyped {o : Flo.Object} {x : UnitIndex} {r : Registry}
    {ps : Polyfills} {f : Function} {image : Nat → Nat} {signature : Flo.Signature}
    (h : o.IsTyped x r ps f image signature) {id : Nat} {s : Flo.Statement}
    (hid : o.statements.Has id) (hs : o.statements.get? id = some s) :
    Flo.WellTyped x r ps o s := by
  obtain ⟨label, hne, hreached, hid⟩ := h.statement hid
  obtain ⟨b, codes, -, htyped, hcode⟩ := h.block hne hreached
  have hmem : some s ∈ codes.flatten.map some := by
    rw [← hcode, ← hs]
    exact List.mem_map_of_mem hid
  obtain ⟨s', hs', heq⟩ := List.mem_map.1 hmem
  obtain rfl := Option.some.inj heq
  obtain ⟨code, hcodes, hs'⟩ := List.mem_flatten.1 hs'
  obtain ⟨i, hi, rfl⟩ := List.getElem_of_mem hcodes
  exact (htyped.get (htyped.length_eq ▸ hi) hi).wellTyped s' hs'

namespace Lowering

variable {S : Ty → Prop} {P : Setting} {ps : Polyfills} {w : State} {r : Registry} {o : Flo.Object}
  {parameters locals : List Var} {entry : Nat} {signature : Flo.Signature}

variable (h : IsFunction P ps w parameters locals entry signature) (hc : Completes S P w r o)

include h hc

theorem Completes.isBlock {index : Nat} {block : Block} {codes : List (List Flo.Statement)}
    {row : Flo.Block} (hb : IsBlock P ps w index block codes row) :
    List.Forall₂ (fun stmt code => Flo.CodeTyped P.index r ps o stmt.invocations code)
      block.statements codes ∧ Flo.ExitTyped o P.returns row.exit := by
  obtain ⟨n, exit, m, hlowers, hexits⟩ := hb.lowers
  have hblock := List.mem_of_find?_eq_some hb.isBlock
  have hstmts : ∀ stmt ∈ block.statements, ∀ ty ∈ stmt.types, S ty :=
    fun stmt hstmt ty hty => hc.occurs ty (Function.mem_types_of_statement hblock hstmt hty)
  obtain ⟨hcodes, hexit⟩ := hc.lowersAll hlowers hstmts h.result
  refine ⟨hcodes, ?_⟩
  generalize row.exit = e at hexits ⊢
  cases hexits with
  | leave => exact hexit _ rfl
  | next => trivial
  | finish after isVoid =>
    have hnil : P.returns = [] := by simpa [isVoid] using h.result
    exact hnil.symm
  | missing => trivial

/-- The block for a label has the code of the statements of the source. -/
theorem Completes.blockTyped {label : Nat} (hne : label ≠ exitIndex)
    (hreached : P.function.Reaches label) : ∃ b codes, P.function.block? label = some b ∧
      List.Forall₂ (fun stmt code => Flo.CodeTyped P.index r ps o stmt.invocations code)
        b.statements codes ∧
      (o.inBlock Flo.Block.statements (w.image label)).map o.statements.get? =
        codes.flatten.map some := by
  obtain ⟨id, hid⟩ := h.reaches_iff.1 hreached
  obtain ⟨row, b, codes, hb, hrow⟩ := h.block _ (State.mem_of_target? hid hne)
  refine ⟨b, codes, hb.isBlock, (hc.isBlock h hb).1, ?_⟩
  have hbody : (w.draft.object.inBlock Flo.Block.statements (w.image label)).map
      (fun id => w.statements[id]?) = codes.flatten.map some := by
    rw [State.image_eq hid, inBlock_of_row _ hrow]
    exact hb.body
  rw [hc.object, ← hbody]
  exact List.map_congr_left fun id _ => Flo.Table.get?_eq_rows _ id

/-- The object of a function is well typed. -/
theorem Completes.isTyped : o.IsTyped P.index r ps P.function w.image signature := by
  have hobject := hc.object
  refine ⟨by rw [hobject], ?_, hc.blockTyped h, fun {id} hid => ?_, fun id hid => ?_, ?_, ?_, ?_⟩
  · rw [hobject]
    exact h.controlFlow.withTypes _
  · rw [hobject] at hid ⊢
    exact h.exists_label h.bodies hid.1 hid.2
  · rw [hobject] at hid
    obtain ⟨row, hrow, heq⟩ := h.row_of_has hid
    refine ⟨row, by rw [hobject, Flo.Table.get?_eq_rows]; exact hrow, ?_⟩
    rcases heq with rfl | ⟨index, block, codes, row', hblock, rfl⟩
    · exact h.returns.symm
    · have hexit := (hc.isBlock h hblock).2
      rwa [← h.returns] at hexit
  · obtain ⟨row, block, codes, hblock, hrow⟩ := h.block _ h.isEntry
    refine ⟨entry, { row with signature := if entry = entry then some signature else none },
      by rw [hobject]; exact h.symbols, ?_, if_pos rfl⟩
    rw [hobject, Flo.Table.get?_eq_rows]
    exact hrow
  · rw [h.params, ← h.declaresParameters.1, List.forall₂_map_left_iff, List.forall₂_map_right_iff]
    refine List.forall₂_same.2 fun v hv => ⟨v.typ, hc.hasType_of_mem ?_⟩
    exact h.scope.subset (List.mem_append_left _ hv)
  · rw [h.returns]
    have hlen := h.result
    cases hret : P.function.returnType with
    | none => exact List.length_eq_zero_iff.1 (by simpa [hret] using hlen)
    | some ty =>
      obtain ⟨slot, hslot⟩ : ∃ slot, P.returns = [slot] :=
        List.length_eq_one_iff.1 (by simpa [hret] using hlen)
      obtain ⟨ty', rep, row, hty, hrep, hrow, htyp, -⟩ := h.inv.result slot (by simp [hslot])
      obtain rfl := Option.some.inj (hret.symm.trans hty)
      exact ⟨slot, rep.valueType, hslot, ⟨rep, hrep.mono hc.grows, rfl⟩, row,
        (hc.vars_get slot).trans hrow, htyp⟩

/-- Every statement of the object is well typed. The null entry is no statement. -/
theorem Completes.wellTyped {id : Nat} {s : Flo.Statement} (hs : o.statements.get? id = some s)
    (hne : s ≠ .poisoned .nullEntry) : Flo.WellTyped P.index r ps o s := by
  refine (hc.isTyped h).wellTyped (Flo.Table.has_of_ne ?_ ?_ hne) hs
  · rw [hc.object]
    exact h.inv.kept.statements.head?_rows
  · rwa [← Flo.Table.get?_eq_rows]

omit h hc in
/-- The object of a function whose types are in a consistent set is well typed, with the type tables
of any later moment. -/
theorem lowerFunction_isTyped {x : UnitIndex} {source : String} {f : Function}
    {types types' : Registry} (consistent : x.Consistent S) (occurs : ∀ ty ∈ f.types, S ty)
    (sound : types.Sound x fun _ => True) (run : (lowerFunction x ps source f).Ran types o types')
    (grows : types'.Grows r) :
    ∃ image signature, Flo.Object.IsTyped { o with types := r.tables } x r ps f image signature := by
  obtain ⟨returns, w, parameters, locals, entry, signature, h, rfl, rfl⟩ :=
    lowerFunction_ran (.univ x) (by simp) sound run
  have hc : Completes S _ w r { w.draft.object with types := r.tables } :=
    ⟨⟨h.inv, grows, rfl⟩, consistent, occurs⟩
  exact ⟨w.image, signature, hc.isTyped h⟩

end Lowering

namespace Compiler

/-- Every object that is compiled from a consistent unit is well typed. -/
theorem run_isTyped {ps : Polyfills} {u : CompilationUnit} (consistent : u.RecordConsistent)
    {m : Manifest} (run : ({ standard with polyfills := ps } : Compiler).run u = .ok (.ok m)) :
    ∃ x r, UnitIndex.ofUnit u = .ok x ∧ Registers x ps u r ∧
      ∀ {name : String} {o : Flo.Object}, (name, .ok o) ∈ m.entries →
        ∃ f ∈ u.functions, f.name = name ∧
          ∃ image signature, o.IsTyped x r ps f image signature := by
  obtain ⟨x, hx, hm⟩ := run_standard run
  obtain ⟨r, hr, -, hmem⟩ := lowerUnit_objects (.univ x) (by simp) hm
  refine ⟨x, r, hx, hr, fun {name o} hin => ?_⟩
  obtain ⟨f, hf, hname, t, o', t', ht, hrun, hgrows, rfl⟩ := hmem hin
  have hoccurs : ∀ ty ∈ f.types, u.Occurs ty := fun ty hty => CompilationUnit.occurs_function hf hty
  exact ⟨f, hf, hname,
    lowerFunction_isTyped (consistent.consistent hx) hoccurs ht hrun hgrows⟩

/-- A unit with a function that moves values to and from records by value, objects on the heap and
an array, and that calls itself, compares and switches. -/
def shifting : CompilationUnit :=
  let cell : Ty := .record "cell" []
  let p : Expr := .named (.pointer cell) "p"
  let c : Expr := .named cell "c"
  let n : Expr := .named (.integer 32) "n"
  let a : Expr := .named (.array (.integer 32) 2) "a"
  let valueOf (e : Expr) : Expr := .component (.integer 32) e "value"
  { sourceFile := none
    functions := [⟨"shift", [⟨"p", .pointer cell⟩, ⟨"n", .integer 32⟩], some (.integer 32), 2,
      [⟨"c", cell⟩, ⟨"a", .array (.integer 32) 2⟩],
      [⟨2, [.assign .copy c [.deref cell p] none,
          .assign .plus (valueOf c) [valueOf c, n] none,
          .assign .copy (valueOf (.deref cell p)) [valueOf c] none,
          .assign .copy (.element (.integer 32) a n) [n] none,
          .call "shift" [.component (.pointer cell) (.deref cell p) "next", n] (some n) none,
          .conditional .eq [n, .integer (.integer 32) 0] 3 4 none]⟩,
        ⟨3, [.ret (some (.element (.integer 32) a n)) none]⟩,
        ⟨4, [.switch n [⟨1, none, 2⟩, ⟨2, some 5, 3⟩] 3 none]⟩]⟩]
    globals := []
    records := [⟨"cell", [⟨"value", .integer 32⟩, ⟨"next", .pointer cell⟩]⟩]
    declarations := [] }

/-- The statements of the object of the function. -/
def shiftingCode : List Flo.Statement :=
  let note : Flo.Note := ⟨[], none⟩
  [.load 1 .whole 6 note, .assign 4 6 note, .destructure 4 [7, 8] note,
    .call (.builtin "__gimple_plus_expr_i32_i32") [7, 2] [9] note, .destructure 4 [10, 11] note,
    .construct 12 [9, 11] note, .assign 4 12 note, .destructure 4 [13, 14] note,
    .store 1 (.field 0) 13 note, .store 5 (.element 2) 2 note, .load 1 (.field 1) 15 note,
    .call (.external "shift") [15, 2] [2] note, .assignConst 16 ⟨0, .signed32⟩ note,
    .call (.builtin "__gimple_eq_expr_i32_i32") [2, 16] [17] note,
    .assignConst 18 (.ofBool true) note, .load 5 (.element 2) 19 note, .assign 3 19 note,
    .assignConst 20 ⟨1, .signed32⟩ note,
    .call (.builtin "__gimple_eq_expr_i32_i32") [2, 20] [21] note,
    .assignConst 22 ⟨2, .signed32⟩ note, .assignConst 23 ⟨5, .signed32⟩ note,
    .call (.builtin "__gimple_ge_expr_i32_i32") [2, 22] [24] note,
    .call (.builtin "__gimple_le_expr_i32_i32") [2, 23] [25] note,
    .call (.builtin "__gimple_truth_and_expr_bool_bool") [24, 25] [26] note,
    .assignConst 27 (.ofBool true) note]

theorem shifting_recordConsistent : shifting.RecordConsistent := by
  have h := CompilationUnit.recordConsistent_of_mem (u := shifting)
    [.integer 32, .record "cell" [], .pointer (.record "cell" []), .array (.integer 32) 2,
      .record "cell" [⟨"value", .integer 32⟩, ⟨"next", .pointer (.record "cell" [])⟩]]
  exact h (by decide) (by decide) (by decide +kernel)

theorem shifting_isTyped : ∃ m x r o,
    ({ standard with polyfills := .library } : Compiler).run shifting = .ok (.ok m) ∧
      ("shift", .ok o) ∈ m.entries ∧ o.statements.rows.tail = shiftingCode ∧
        ∃ f ∈ shifting.functions, ∃ image signature,
          o.IsTyped x r .library f image signature := by
  have hrows : (standard.objectAt shifting 0).map (·.statements.rows.tail) = some shiftingCode := by
    decide +kernel
  obtain ⟨o, ho, hcode⟩ := Option.map_eq_some_iff.1 hrows
  obtain ⟨m, name, hrun, -⟩ := exists_run_of_objectAt ho
  have hmem : ("shift", .ok o) ∈ m.entries := mem_of_objectAt hrun ho rfl
  obtain ⟨x, r, -, -, htyped⟩ := run_isTyped shifting_recordConsistent hrun
  obtain ⟨f, hf, -, image, signature, h⟩ := htyped hmem
  exact ⟨m, x, r, o, hrun, hmem, hcode, f, hf, image, signature, h⟩

end Compiler

end GimpleLowering

import GimpleLowering.Proofs.Lowering.References

/-!
# Whole objects

An object is whole when nothing in it is missing and nothing is left over: it refers to its own
entries only, every statement and every arm belongs to one block, and there is one way in, with the
signature of the function.

The blocks share the statements in the order in which they are visited. While the pending blocks are
lowered this holds of the blocks that are filled in (`Progress.bodies`), so it holds of all of them
in the end.

## Main definitions

* `Lowering.IsWhole` — an object without missing and superfluous entries

## Main results

* `Lowering.lowerFunction_isWhole` — every function that is lowered becomes a whole object
-/

namespace GimpleLowering.Lowering

open Gimple Layout

variable {P : Setting} {ps : Polyfills} {w : State} {r : Registry} {o : Flo.Object}
  {parameters locals : List Var} {entry : Nat} {signature : Flo.Signature}

/-- Nothing in the object is missing, and nothing is left over. -/
structure IsWhole (f : Function) (o : Flo.Object) (image : Nat → Nat)
    (signature : Flo.Signature) : Prop extends ControlFlow f o image signature where
  complete : o.poisonedEntries = []
  references : o.Uses (o.ids (fun _ => True) fun _ => True)
  visits_nodup : f.visits.Nodup
  mem_visits : ∀ label, label ∈ f.visits ↔ label ≠ exitIndex ∧ f.Reaches label
  bodies : f.visits.flatMap (fun label => o.inBlock Flo.Block.statements (image label)) =
    List.range' 1 o.statements.size
  statements : (o.blocks.rows.flatMap Flo.Block.statements).Perm (List.range' 1 o.statements.size)
  arms : (o.blocks.rows.flatMap Flo.Block.arms).Perm (List.range' 1 o.matchArms.size)
  signature_eq : ∀ id row, o.blocks.get? id = some row →
    row.signature = if id = image f.entryBlock then some signature else none
  returns_eq : ∀ id row values, o.blocks.get? id = some row → row.exit = .ret values →
    values = signature.returns

/-! ### Blocks -/

/-- A part that the null entry and the block that leaves the function lack belongs to the blocks of
labels. -/
theorem Planned.flatMap_rows_perm (h : Planned P w) (part : Flo.Block → List Nat)
    (hnull : part (Flo.Entry.poisoned .nullEntry) = [])
    (hexit : part ⟨none, .usable, [], .ret P.returns, []⟩ = []) :
    (w.rows.flatMap part).Perm
      (w.blocks.flatMap fun p => w.draft.object.inBlock part p.2) := by
  obtain ⟨rest, hrows⟩ := List.head?_eq_some_iff.1 h.null
  have hids := h.ids.flatMap_right (w.draft.object.inBlock part)
  have hleaving : w.exitBlock.toList.flatMap (w.draft.object.inBlock part) = [] := by
    refine List.flatMap_eq_nil_iff.2 fun id hid => ?_
    rw [inBlock_of_row part (h.exitRow id (Option.mem_toList.1 hid)), hexit]
  have hrest : (List.range' 1 (w.rows.length - 1)).flatMap (w.draft.object.inBlock part) =
      rest.flatMap part := by
    have hmap : (List.range' 1 (w.rows.length - 1)).map (w.draft.object.inBlock part) =
        rest.map part := by
      refine List.ext_getElem (by simp [hrows]) fun i hi hi' => ?_
      have hlt : i < rest.length := by simpa using hi'
      rw [List.getElem_map, List.getElem_map, List.getElem_range', Nat.one_mul, Nat.add_comm]
      refine inBlock_of_row part ?_
      rw [hrows, List.getElem?_cons_succ, List.getElem?_eq_getElem hlt]
    rw [List.flatMap_def, hmap, ← List.flatMap_def]
  rw [List.flatMap_append, hleaving, List.append_nil, List.flatMap_map, hrest] at hids
  rw [hrows, List.flatMap_cons, hnull, List.nil_append]
  exact hids.symm

section

variable (h : IsFunction P ps w parameters locals entry signature)

include h

/-- The blocks that are visited are the blocks of labels, in order. -/
theorem IsFunction.flatMap_visits (part : Flo.Block → List Nat) :
    P.function.visits.flatMap (fun label => w.draft.object.inBlock part (w.image label)) =
      w.blocks.flatMap fun p => w.draft.object.inBlock part p.2 := by
  rw [← h.visits, List.flatMap_map]
  refine List.flatMap_congr fun p hp => ?_
  rw [State.image_eq (h.inv.planned.target?_eq hp)]

theorem IsFunction.mem_visits (label : Nat) :
    label ∈ P.function.visits ↔ label ≠ exitIndex ∧ P.function.Reaches label := by
  rw [← h.visits, List.mem_map]
  constructor
  · rintro ⟨p, hp, rfl⟩
    exact ⟨(h.inv.planned.declared p hp).1, h.reached p hp⟩
  · rintro ⟨hne, hreaches⟩
    obtain ⟨id, hid⟩ := h.reaches_iff.1 hreaches
    exact ⟨(label, id), State.mem_of_target? hid hne, rfl⟩

/-- The rows of the blocks: the null entry, the block that leaves the function, and those that were
filled in. -/
theorem IsFunction.row_cases {id : Nat} {row : Flo.Block} (hrow : w.rows[id]? = some row) :
    (id = 0 ∧ row = Flo.Entry.poisoned .nullEntry) ∨
      row = ⟨none, .usable, [], .ret P.returns, []⟩ ∨
      ∃ index block codes row', IsBlock P ps w index block codes row' ∧
        row = { row' with signature := if id = entry then some signature else none } := by
  rcases Nat.eq_zero_or_pos id with rfl | hpos
  · have hnull := h.inv.planned.null
    rw [List.head?_eq_getElem?, hrow] at hnull
    exact .inl ⟨rfl, Option.some.inj hnull⟩
  · obtain ⟨row', hrow', hcases⟩ := h.row_of_has ⟨hpos, (List.getElem?_eq_some_iff.1 hrow).1⟩
    obtain rfl : row = row' := Option.some.inj (hrow.symm.trans hrow')
    exact .inr hcases

/-- The entry is not the null entry, nor the block that leaves the function. -/
theorem IsFunction.signature_eq {id : Nat} {row : Flo.Block} (hrow : w.rows[id]? = some row) :
    row.signature = if id = entry then some signature else none := by
  have hpos := (h.inv.planned.id_bounds h.isEntry).1
  obtain ⟨entryRow, _, _, -, hentry⟩ := h.block _ h.isEntry
  rw [if_pos rfl] at hentry
  rcases h.row_cases hrow with ⟨rfl, rfl⟩ | rfl | ⟨_, _, _, _, -, rfl⟩
  · rw [if_neg (by omega)]
    rfl
  · rw [if_neg]
    rintro rfl
    exact nomatch congrArg Flo.Block.signature (Option.some.inj (hrow.symm.trans hentry))
  · rfl

/-- Whatever leaves the function returns what the signature says. -/
theorem IsFunction.returns_eq {id : Nat} {row : Flo.Block} {values : List Nat}
    (hrow : w.rows[id]? = some row) (hexit : row.exit = .ret values) :
    values = signature.returns := by
  rw [h.returns]
  rcases h.row_cases hrow with ⟨-, rfl⟩ | rfl | ⟨index, block, codes, row', hblock, rfl⟩
  · cases hexit
  · exact (Flo.BlockExit.ret.inj hexit).symm
  · exact h.values_eq hblock hexit

/-! ### Objects -/

theorem IsFunction.isWhole (hf : Finishes P w r o) (hs : r.Sound P.index P.types) :
    IsWhole P.function o w.image signature := by
  have hflow := h.controlFlow
  have hentry := State.image_eq (h.inv.planned.target?_eq h.isEntry)
  have hbodies := h.inv.planned.flatMap_rows_perm Flo.Block.statements rfl rfl
  have harms := h.inv.planned.flatMap_rows_perm Flo.Block.arms rfl rfl
  rw [h.bodies] at hbodies
  rw [h.branches] at harms
  have hcomplete := hf.isComplete h
  have hreferences : o.Uses (o.ids (fun _ => True) fun _ => True) :=
    hf.uses h hs (fun _ => trivial) fun _ _ => trivial
  obtain rfl := hf.object
  refine ⟨⟨hflow.injective, hflow.blocks, hflow.exit, hflow.ending, hflow.returns,
    hflow.symbols⟩, List.isEmpty_iff.1 hcomplete, hreferences, h.visits ▸ h.inv.planned.labels,
    h.mem_visits, ?_, hbodies, harms, fun id row hrow => ?_, fun id row values hrow hexit => ?_⟩
  · exact (h.flatMap_visits Flo.Block.statements).trans h.bodies
  · rw [Flo.Table.get?_eq_rows] at hrow
    rw [hentry]
    exact h.signature_eq hrow
  · rw [Flo.Table.get?_eq_rows] at hrow
    exact h.returns_eq hrow hexit

end

/-- Every function that is lowered becomes a whole object. -/
theorem lowerFunction_isWhole {x : UnitIndex} {source : String} {f : Function}
    {types types' : Registry} {o : Flo.Object} (reached : Reached x types)
    (run : (lowerFunction x ps source f).Ran types o types') (later : Reached x r)
    (grows : types'.Grows r) :
    ∃ image signature, IsWhole f { o with types := r.tables } image signature := by
  obtain ⟨returns, w, parameters, locals, entry, signature, h, rfl, rfl⟩ :=
    lowerFunction_ran (.univ x) (by simp) reached.sound run
  exact ⟨w.image, signature, h.isWhole ⟨h.inv, grows, rfl⟩ later.sound⟩

/-- A function that reads a field behind a pointer, and returns it unless it is less than another
number. -/
def readingField : Function :=
  let point : Ty := .record "point" [⟨"x", .integer 32⟩, ⟨"y", .integer 32⟩]
  let field : Expr := .component (.integer 32) (.deref point (.named (.pointer point) "p")) "y"
  let least : Expr := .named (.integer 32) "least"
  ⟨"read", [⟨"p", .pointer point⟩, ⟨"least", .integer 32⟩], some (.integer 32), 2, [],
    [⟨2, [.conditional .lt [field, least] 4 3 none]⟩, ⟨3, [.ret (some field) none]⟩,
      ⟨4, [.ret (some least) none]⟩]⟩

/-- The routine that it takes. -/
def lessOnly : Polyfills := .ofList [("lt_expr(i32, i32)", "__gimple_lt_expr_i32_i32")]

theorem readingField_isWhole :
    ∃ o types r, (lowerFunction .empty lessOnly "" readingField).Ran .empty o types ∧
      (finalize .empty).Ran types () r ∧
      ∃ image signature, IsWhole readingField { o with types := r.tables } image signature := by
  let both : Build Registry Unit Flo.Object := do
    let o ← (lowerFunction .empty lessOnly "" readingField).mapError fun _ => ()
    (finalize .empty).mapError fun _ => ()
    return o
  obtain ⟨o, r, hboth⟩ : ∃ o r, both.Ran .empty o r :=
    Build.exists_ran_of_endsWell (by decide +kernel)
  simp only [both, Build.ran_bind, Build.ran_mapError, Build.ran_pure] at hboth
  obtain ⟨o, types, run, _, r, hfinalize, rfl, rfl⟩ := hboth
  have reached : Reached .empty types := .lowered .empty run
  have later : Reached .empty r := .finalized reached hfinalize
  have evolved := (finalize_keeps (.univ .empty)).ran hfinalize reached.sound
  exact ⟨o, types, r, run, hfinalize,
    lowerFunction_isWhole .empty run later evolved.grows⟩

end GimpleLowering.Lowering

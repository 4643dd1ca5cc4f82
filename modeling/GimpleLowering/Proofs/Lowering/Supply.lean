import GimpleLowering.Proofs.Lowering.Orderly
import GimpleLowering.Proofs.Lowering.Survival

/-!
# The supply of temporaries

Every temporary of an object is written, and no two statements write the same one. The first holds
of each step of a run: a variable without a name is added together with the statement that writes
it, so whatever is added later need not be looked at. The second holds between blocks: temporaries
are numbered as they are added, and the code of a block only writes those that were added for it.

## Main definitions

* `Lowering.Supplies` — the variables that are added are written by statements that are added
* `Lowering.Ascending` — the temporaries that were written so far ascend

## Main results

* `Lowering.lowerAll_written` — every temporary is written
* `Lowering.lowerAll_ascends` — the temporaries ascend through the code of a function
-/

namespace GimpleLowering.Lowering

open Gimple Layout

variable {ps : Polyfills} {x : UnitIndex} {w : State}

/-! ### What is written -/

/-- The variables without names that are added are written by statements that are added. -/
structure Supplies (d d' : Flo.Draft) : Prop where
  vars : d.object.vars.rows <+: d'.object.vars.rows
  statements : ∃ code, d'.object.statements.rows = d.object.statements.rows ++ code ∧
    ∀ {v : Nat} {row : Flo.Variable}, d.object.vars.rows.length ≤ v →
      d'.object.vars.rows[v]? = some row → row.diagnostics = [] → v ∈ Flo.written code

theorem Supplies.of_eq {d d' : Flo.Draft} (hv : d'.object.vars = d.object.vars)
    (hs : d'.object.statements = d.object.statements) : Supplies d d' := by
  refine ⟨hv ▸ List.prefix_rfl, [], by rw [hs, List.append_nil], fun hle hrow _ => ?_⟩
  rw [hv, List.getElem?_eq_none hle] at hrow
  cases hrow

theorem Supplies.trans {d d' d'' : Flo.Draft} (h : Supplies d d') (h' : Supplies d' d'') :
    Supplies d d'' := by
  obtain ⟨code, hcode, hwritten⟩ := h.statements
  obtain ⟨code', hcode', hwritten'⟩ := h'.statements
  refine ⟨h.vars.trans h'.vars, code ++ code', by rw [hcode', hcode, List.append_assoc], ?_⟩
  intro v row hle hrow hdiag
  rw [Flo.written_append]
  by_cases hlt : v < d'.object.vars.rows.length
  · have hsame := List.prefix_iff_getElem?.1 h'.vars v hlt
    rw [hsame, ← List.getElem?_eq_getElem hlt] at hrow
    exact List.mem_append_left _ (hwritten hle hrow hdiag)
  · exact List.mem_append_right _ (hwritten' (Nat.not_lt.1 hlt) hrow hdiag)

/-- Locating a line adds no variables and no statements. -/
theorem supplies_locate (d : Flo.Draft) (line : Option Nat) : Supplies d (d.locate line).2 := by
  refine .of_eq (Flo.Draft.vars_locate d line) (Flo.Table.ext_rows ?_)
  rw [(d.extends_locate line).statements, List.append_nil]

/-- The variables that are added without names are among those that are to be written. -/
theorem Flo.Draft.Readies.added {line : Option Nat} {d d' : Flo.Draft} {vs : List Nat}
    (h : Flo.Draft.Readies line d vs d') : d.object.vars.rows <+: d'.object.vars.rows ∧
      d'.object.statements.rows = d.object.statements.rows ∧
      ∀ v, d.object.vars.rows.length ≤ v → v < d'.object.vars.rows.length → v ∈ vs := by
  induction h with
  | refl => exact ⟨List.prefix_rfl, rfl, fun v hle hlt => absurd hle (Nat.not_le.2 hlt)⟩
  | @addVariable vs d' h typ ih =>
    obtain ⟨hvars, hstatements, hadded⟩ := ih
    have hlocate := d'.extends_locate line
    have hext := (d'.locate line).2.extends_addVariable typ .frame none (d'.locate line).1
    refine ⟨(hvars.trans hlocate.vars).trans hext.vars, ?_, fun v hle hlt => ?_⟩
    · rw [hext.statements, List.append_nil, hlocate.statements, List.append_nil, hstatements]
    · rw [Flo.Draft.vars_addVariable, List.length_append, List.length_singleton,
        Flo.Draft.vars_locate] at hlt
      rw [Flo.Draft.fst_addVariable, Flo.Draft.vars_locate, List.mem_append, List.mem_singleton]
      rcases Nat.lt_succ_iff_lt_or_eq.1 hlt with hlt | rfl
      · exact .inl (hadded v hle hlt)
      · exact .inr rfl

instance : Flo.Draft.Schedules Supplies where
  refl _ := .of_eq rfl rfl
  trans _ _ _ := .trans
  addBlock _ _ := .of_eq rfl rfl
  reserveBlock _ := .of_eq rfl rfl
  fillBlock d id b := by
    rw [d.fillBlock_eq]
    exact .of_eq rfl rfl

instance (line : Option Nat) : Flo.Draft.AdmitsBlocks line Supplies where
  addNamed d typ linkage name := by
    refine (supplies_locate d line).trans ?_
    have hext := (d.locate line).2.extends_addVariable typ linkage (some name) (d.locate line).1
    refine ⟨hext.vars, [], hext.statements, fun {v row} hle hrow hdiag => ?_⟩
    rw [Flo.Draft.vars_addVariable, List.getElem?_append_right hle] at hrow
    obtain rfl := List.mem_singleton.1 (List.mem_of_getElem? hrow)
    cases hdiag
  addStatement {d vs d'} h {stmt note} _ _ hvs := by
    obtain ⟨hvars, hstatements, hadded⟩ := h.added
    have hlocate := d'.extends_locate line
    have hext := (d'.locate line).2.extends_addStatement stmt
    refine ⟨(hvars.trans hlocate.vars).trans hext.vars, [stmt], ?_, ?_⟩
    · rw [hext.statements, hlocate.statements, List.append_nil, hstatements]
    · intro v row hle hrow _
      have hlt : v < (d'.locate line).2.object.vars.rows.length :=
        (List.getElem?_eq_some_iff.1 hrow).1
      rw [Flo.Draft.vars_locate] at hlt
      simpa using hvs v (hadded v hle hlt)
  addMatchArm d _ _ := (supplies_locate d line).trans (.of_eq rfl rfl)

/-- After the declarations and the blocks, nothing is added any more. -/
theorem lowerAll_parts {f : Function} {s : State} (hr : (lowerAll x ps f).Ran s () w) :
    ∃ slot parameters entry s₁ s₂,
      (prepare x ps f).Ran s (⟨x, ps, f, slot, none⟩, parameters, entry) s₁ ∧
      (lowerPending ⟨x, ps, f, slot, none⟩ f.blocks.length).Ran s₁ () s₂ ∧
      s₂.vars = w.vars ∧ s₂.statements = w.statements := by
  simp only [lowerAll, locate, Build.ran_bind, Build.ran_mapError] at hr
  obtain ⟨⟨cx, parameters, entry⟩, s₁, hprepare, _, s₂, hpending, hfinish⟩ := hr
  obtain ⟨slot, rfl⟩ := prepare_context hprepare
  have hends := (finish_keeps parameters entry).ran hfinish
  exact ⟨slot, parameters, entry, s₁, s₂, hprepare, hpending, hends.vars.symm,
    hends.statements.symm⟩

/-- Every temporary is written. -/
theorem lowerAll_written {f : Function} {types : Registry} {source : String}
    (hr : (lowerAll x ps f).Ran (.initial types f.name source) () w) {v : Nat} (hpos : 0 < v)
    (htemp : IsTemp w v) : v ∈ Flo.written w.statements := by
  obtain ⟨slot, parameters, entry, s₁, s₂, hprepare, hpending, hvars, hstatements⟩ :=
    lowerAll_parts hr
  obtain ⟨row, hrow, hdiag⟩ := htemp
  rw [← hvars] at hrow
  have hsupplies : Supplies (State.initial types f.name source).draft s₂.draft :=
    (moves_of_ran (.univ x) (by simp) hprepare hpending).frame
  obtain ⟨code, hcode, hwritten⟩ := hsupplies.statements
  have hsplit : w.statements = (State.initial types f.name source).statements ++ code :=
    hstatements.symm.trans hcode
  rw [hsplit, Flo.written_append]
  exact List.mem_append_right _ (hwritten hpos hrow hdiag)

/-! ### The order of writes -/

/-- Filling in a block takes nothing away. -/
theorem State.grows_fillBlock (s : State) (id : Nat) (b : Flo.Block) :
    s.Grows { s with draft := s.draft.fillBlock id b } := by
  rw [s.draft.fillBlock_eq]
  exact ⟨.refl _, List.prefix_rfl, List.prefix_rfl, List.prefix_rfl, List.prefix_rfl,
    List.prefix_rfl, List.prefix_rfl, fun h => h⟩

/-- The temporaries that the statements write ascend. Which variables are temporaries is taken from
a later state, as statements may write variables that are added only then. -/
def Ascending (P : Setting) (s : State) : Prop :=
  ∀ w, s.Grows w → w.Inv P → Flo.Ascends (IsTemp w) 0 (Flo.written s.statements) s.vars.length

/-- The temporaries of a block come after those of the blocks before. -/
theorem Ascending.step {cx : Context} {S : Ty → Prop} (hx : cx.index.Closed S)
    (hstmts : ∀ b ∈ cx.function.blocks, ∀ stmt ∈ b.statements, Belongs cx S stmt) {s s' : State}
    {p : Nat × Nat} {pending : List (Nat × Nat)} {row : Flo.Block} (hs : s.Inv (cx.setting S))
    (hr : (lowerBlock cx p.1).Ran { s with pending } row s') (h : Ascending (cx.setting S) s) :
    Ascending (cx.setting S) { s' with draft := s'.draft.fillBlock p.2 row } := by
  obtain ⟨hg₀, hs₀⟩ : s.Grows { s with pending } ∧ State.Inv (cx.setting S) { s with pending } :=
    hs.of_eq rfl rfl rfl rfl rfl
  obtain ⟨hg₁, -, -, block, codes, hcode, -, hblock⟩ := lowerBlock_ran hx hstmts hs₀ hr
  intro w hg hw
  have hg' : s'.Grows w := (s'.grows_fillBlock p.2 row).trans hg
  obtain ⟨-, exit, m, hle, hlowers⟩ := hblock w hg'
  have hbefore := h w ((hg₀.trans hg₁).trans hg') hw
  have hafter := (hlowers.orderly hw).1.writes
  have hwrites : Flo.Ascends (IsTemp w) 0 (Flo.written s'.statements) s'.vars.length := by
    rw [hcode, Flo.written_append]
    exact (hbefore.append hafter).mono hle
  rw [s'.draft.fillBlock_eq]
  exact hwrites

/-- The numbers of temporaries ascend, in the order in which the code is emitted. -/
theorem lowerAll_ascends {f : Function} {types : Registry} {source : String}
    (hs : types.Sound x fun _ => True)
    (hr : (lowerAll x ps f).Ran (.initial types f.name source) () w) :
    Flo.Ascends (IsTemp w) 0 (Flo.written w.statements) w.vars.length := by
  obtain ⟨slot, parameters, entry, s₁, s₂, hprepare, hpending, hvars, hstatements⟩ :=
    lowerAll_parts hr
  set cx : Context := ⟨x, ps, f, slot, none⟩ with hcx
  obtain ⟨-, -, -, -, -, -, -, -, -, -, hinv, hprogress, -⟩ :=
    prepare_ran (.univ x) (by simp) hs hprepare
  have hnothing : Flo.written s₁.statements = [] := by
    obtain ⟨rest, hrows, -⟩ := hinv.kept.statements
    have hnone : List.range' 1 (s₁.statements.length - 1) = [] := hprogress.bodies.symm
    have hlength : rest.length = 0 := by simpa [State.statements, hrows] using hnone
    rw [State.statements, hrows, List.length_eq_zero_iff.1 hlength]
    rfl
  have hstart : Ascending (cx.setting fun _ => True) s₁ := fun w _ _ => by
    rw [hnothing]
    exact .nil (Nat.zero_le _)
  have hx : cx.index.Closed fun _ => True := .univ x
  have hstmts : ∀ b ∈ cx.function.blocks, ∀ stmt ∈ b.statements, Belongs cx (fun _ => True) stmt :=
    belongs_of_types (by simp)
  obtain ⟨-, hinv₂, hascends, -⟩ := hprogress.lowerPending hx hstmts (Ascending.step hx hstmts)
    hinv hstart hpending
  have h := hascends s₂ (.refl s₂) hinv₂
  have hsame : IsTemp s₂ = IsTemp w := by
    unfold IsTemp
    rw [hvars]
  rwa [hsame, hvars, hstatements] at h

end GimpleLowering.Lowering

import GimpleLowering.Proofs.Lowering.Arms
import GimpleLowering.Proofs.Lowering.Statements

/-!
# The lines of statements

Whatever is added while a statement is lowered has the location of its line: the statement only
adds code, variables and arms through steps that locate the line first. So the relation `AddsOn`
holds of every run, also of one that fails. Of a run that does not fail more is known, since its
code is described: the emission of the statement has this code, and the arms that the exit lists.

## Main definitions

* `Lowering.AddsOn` — an emission is added on a line
* `Lowering.IsEmission` — the emission of a statement of the source

## Main results

* `Lowering.lowerStatement_emits` — the emission of a statement has its code, and is on its line
-/

namespace GimpleLowering.Lowering

open Gimple Layout

/-! ### The relations -/

/-- Something is added on the line. -/
def AddsOn (line : Option Nat) (d d' : Flo.Draft) : Prop := ∃ e, d.Adds line e d'

/-- Nothing is added, and the locations are as they were. -/
def Idles (line : Option Nat) (d d' : Flo.Draft) : Prop := d.Adds line .nil d'

instance (line : Option Nat) : Flo.Draft.Schedules (Idles line) where
  refl := .refl
  trans _ _ _ h h' := h.trans h'
  addBlock _ _ := .of_eq rfl rfl rfl rfl
  reserveBlock _ := .of_eq rfl rfl rfl rfl
  fillBlock d id b := by
    rw [d.fillBlock_eq]
    exact .of_eq rfl rfl rfl rfl

instance (line : Option Nat) : Flo.Draft.Schedules (AddsOn line) where
  refl d := ⟨_, .refl d⟩
  trans := by
    rintro d d' d'' ⟨e, h⟩ ⟨e', h'⟩
    exact ⟨_, h.trans h'⟩
  addBlock d b := ⟨_, Flo.Draft.Schedules.addBlock (F := Idles line) d b⟩
  reserveBlock d := ⟨_, Flo.Draft.Schedules.reserveBlock (F := Idles line) d⟩
  fillBlock d id b := ⟨_, Flo.Draft.Schedules.fillBlock (F := Idles line) d id b⟩

variable {line : Option Nat}

/-- The variables that a statement is going to write are on its line. -/
theorem Flo.Draft.Readies.addsOn {d d' : Flo.Draft} {vs : List Nat}
    (h : Flo.Draft.Readies line d vs d') : AddsOn line d d' := by
  induction h with
  | refl => exact refl_of (AddsOn line) d
  | @addVariable vs d' h typ ih =>
    obtain ⟨v, hv⟩ := d'.adds_addVariable line typ .frame none
    exact trans_of (AddsOn line) ih ⟨_, hv⟩

instance (line : Option Nat) : Flo.Draft.AdmitsBlocks line (AddsOn line) where
  addNamed d typ linkage name := by
    obtain ⟨v, hv⟩ := d.adds_addVariable line typ linkage (some name)
    exact ⟨_, hv⟩
  addStatement h _ _ hnote hlocation _ :=
    trans_of (AddsOn line) h.addsOn ⟨_, Flo.Draft.adds_addStatement _ hnote hlocation⟩
  addMatchArm d condition target := by
    obtain ⟨a, ha⟩ := d.adds_addMatchArm line condition target
    exact ⟨_, ha⟩

/-! ### Emissions of statements -/

/-- The emission is what is added for the statement, with variables from `n` up to `m`. Its arms are
those of the exit, and everything is on the line of the statement. -/
structure IsEmission (P : Setting) (ps : Polyfills) (w : State) (stmt : Statement) (n : Nat)
    (e : Flo.Emission) (exit : Option Flo.BlockExit) (m : Nat) : Prop where
  lowers : Lowers P ps w stmt n e.code exit m
  count : m = n + e.vars.length
  vars : ∀ {i : Nat} {v : Flo.Variable}, e.vars[i]? = some v → w.vars[n + i]? = some v
  arms : (exit.elim [] Flo.BlockExit.arms).map (fun id => w.arms[id]?) = e.arms.map some
  onLine : w.draft.Tidy → e.Located (w.draft.object.Locates stmt.line)

/-- The rows of code that was added somewhere. -/
theorem map_getElem?_range' {α : Type} {rows old code : List α} (h : old ++ code <+: rows) :
    (List.range' old.length code.length).map (fun id => rows[id]?) = code.map some := by
  obtain ⟨rest, rfl⟩ := h
  refine List.ext_getElem (by simp) fun i hi hi' => ?_
  have hlt : i < code.length := by simpa using hi'
  simp only [List.getElem_map, List.getElem_range', Nat.one_mul]
  rw [List.append_assoc, List.getElem?_append_right (Nat.le_add_right _ _), Nat.add_sub_cancel_left,
    List.getElem?_append_left hlt, List.getElem?_eq_getElem hlt]

variable {s s' : State} {cx : Context} {S : Ty → Prop}

/-- A state was tidy before it grew, if it is tidy after that. -/
theorem State.Inv.tidy {P : Setting} {w : State} (h : s.Inv P) (hg : s.Grows w)
    (hw : w.draft.Tidy) : s.draft.Tidy :=
  hw.of_prefix hg.locations h.kept.locations.rows_pos

/-- The emission of a statement has its code and its arms, and is on its line. -/
theorem lowerStatement_emits (hx : cx.index.Closed S) {stmt : Statement}
    (hline : ∀ n, stmt.line = some n → cx.function.Mentions n) (hS : ∀ ty ∈ stmt.types, S ty)
    (h : s.Inv (cx.setting S)) {exit : Option Flo.BlockExit}
    (hr : (lowerStatement { cx with line := stmt.line } stmt).Ran s exit s') :
    exit.isSome = stmt.isTerminator ∧
      ∃ e : Flo.Emission, Emits (cx.setting S) s e.code stmt.targets s' ∧ ∀ w, s'.Grows w →
        IsEmission (cx.setting S) cx.polyfills w stmt s.vars.length e exit s'.vars.length := by
  have hx' : ({ cx with line := stmt.line } : Context).index.Closed S := hx
  obtain ⟨hexit, code, he, hlowers⟩ := lowerStatement_ran hx' (fun n hn _ => hline n hn) hS h hr
  change Emits (cx.setting S) s code stmt.targets s' at he
  have hadds : AddsOn stmt.line s.draft s'.draft := ((lowerStatement_keeps hx' hS).ran hr).frame
  obtain ⟨e, hadds⟩ := hadds
  obtain rfl : e.code = code := List.append_cancel_left (hadds.statements.symm.trans he.statements)
  have hvars : s'.vars = s.vars ++ e.vars := hadds.vars
  have harms : s'.arms = s.arms ++ e.arms := hadds.matchArms
  have hlists := lowerStatement_arms hr
  refine ⟨hexit, e, he, fun w hw => ⟨hlowers w hw, ?_, fun {i v} hv => ?_, ?_, fun ht => ?_⟩⟩
  · rw [hvars, List.length_append]
  · refine hw.vars_get ?_
    rw [hvars, List.getElem?_append_right (Nat.le_add_right _ _), Nat.add_sub_cancel_left, hv]
  · have hlength : e.arms.length = (exit.elim [] Flo.BlockExit.arms).length := by
      have hcount := hlists.length
      rw [harms, List.length_append] at hcount
      exact Nat.add_left_cancel hcount
    rw [hlists.ids, ← hlength]
    exact map_getElem?_range' (harms ▸ hw.arms)
  · obtain ⟨-, honline⟩ := hadds.onLine (h.tidy (he.grows.trans hw) ht)
    exact honline.imp fun _ hl => hl.mono hw.locations

end GimpleLowering.Lowering

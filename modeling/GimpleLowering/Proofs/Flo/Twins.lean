import GimpleLowering.Proofs.Flo.Draft
import Mathlib.Data.List.Forall2

/-!
# Drafts that differ in types

Two drafts are twins if they are equal but for the types of variables and constants, and these
correspond. The correspondence is a relation that is left open here. Whatever is done to both of two
twins hands out the same ids and leaves twins, since nothing that is done to a draft depends on the
types in it.

## Main definitions

* `Flo.Variable.Twins`, `Statement.Twins`, `Draft.Twins`

## Main results

* `Flo.Draft.Twins.locate`, `addVariable`, `addStatement` and so on — each step keeps twins
-/

namespace GimpleLowering.Flo

variable {A B : Ty → Ty → Prop}

/-! ### Rows -/

/-- The variables are equal but for their types, which correspond. -/
structure Variable.Twins (A : Ty → Ty → Prop) (v v' : Variable) : Prop where
  typ : A v.typ v'.typ
  rest : v' = { v with typ := v'.typ }

/-- The statements are equal but for the type of a constant, which corresponds. -/
inductive Statement.Twins (A : Ty → Ty → Prop) : Statement → Statement → Prop where
  | assignConst {target value : Nat} {typ typ' : Ty} {note : Note} (h : A typ typ') :
      Twins A (.assignConst target ⟨value, typ⟩ note) (.assignConst target ⟨value, typ'⟩ note)
  | same {s : Statement} (h : ∀ target value note, s ≠ .assignConst target value note) :
      Twins A s s

theorem Variable.Twins.imp {v v' : Variable} (h : v.Twins A v') (hAB : ∀ t t', A t t' → B t t') :
    v.Twins B v' :=
  ⟨hAB _ _ h.typ, h.rest⟩

theorem Statement.Twins.imp {s s' : Statement} (h : s.Twins A s')
    (hAB : ∀ t t', A t t' → B t t') : s.Twins B s' := by
  cases h with
  | assignConst h => exact .assignConst (hAB _ _ h)
  | same h => exact .same h

theorem Variable.Twins.symm {v v' : Variable} (h : v.Twins A v') (hAB : ∀ t t', A t t' → B t' t) :
    v'.Twins B v :=
  ⟨hAB _ _ h.typ, by rw [h.rest]⟩

theorem Statement.Twins.symm {s s' : Statement} (h : s.Twins A s')
    (hAB : ∀ t t', A t t' → B t' t) : s'.Twins B s := by
  cases h with
  | assignConst h => exact .assignConst (hAB _ _ h)
  | same h => exact .same h

/-! ### Drafts -/

namespace Draft

/-- The draft with other variables and statements. -/
def withRows (d : Draft) (vars : Table Variable) (statements : Table Statement) : Draft :=
  { d with object := { d.object with vars, statements } }

/-- The drafts are equal but for the types of variables and constants, which correspond. -/
structure Twins (A : Ty → Ty → Prop) (d d' : Draft) : Prop where
  vars : List.Forall₂ (Variable.Twins A) d.object.vars.rows d'.object.vars.rows
  statements : List.Forall₂ (Statement.Twins A) d.object.statements.rows d'.object.statements.rows
  rest : d' = d.withRows d'.object.vars d'.object.statements

namespace Twins

variable {d d' : Draft}

theorem imp (h : d.Twins A d') (hAB : ∀ t t', A t t' → B t t') : d.Twins B d' :=
  ⟨h.vars.imp fun _ _ h => h.imp hAB, h.statements.imp fun _ _ h => h.imp hAB, h.rest⟩

theorem symm (h : d.Twins A d') (hAB : ∀ t t', A t t' → B t' t) : d'.Twins B d :=
  ⟨h.vars.flip.imp fun _ _ h => h.symm hAB, h.statements.flip.imp fun _ _ h => h.symm hAB,
    by rw [h.rest]; rfl⟩

theorem empty (h : A .unspecified .unspecified) (moduleName source : String) :
    (Draft.empty moduleName source).Twins A (.empty moduleName source) :=
  ⟨.cons ⟨h, rfl⟩ .nil, .cons (.same nofun) .nil, rfl⟩

theorem locate (h : d.Twins A d') (line : Option Nat) :
    (d.locate line).1 = (d'.locate line).1 ∧ (d.locate line).2.Twins A (d'.locate line).2 := by
  have hlocate : d'.locate line = ((d.locate line).1,
      (d.locate line).2.withRows d'.object.vars d'.object.statements) := by
    rw [h.rest]
    unfold Draft.locate
    split
    · rfl
    · rfl
    · simp only [location?, withRows]
      split <;> rfl
  rw [hlocate]
  have hvars : (d.locate line).2.object.vars = d.object.vars := d.vars_locate line
  have hstatements := (d.extends_locate line).statements
  rw [List.append_nil] at hstatements
  refine ⟨rfl, ?_, ?_, rfl⟩
  · rw [hvars]
    exact h.vars
  · rw [hstatements]
    exact h.statements

theorem addVariable (h : d.Twins A d') {typ typ' : Ty} (ht : A typ typ') (linkage : Linkage)
    (label : Option String) (location : Option Nat) :
    (d.addVariable typ linkage label location).1 = (d'.addVariable typ' linkage label location).1 ∧
      (d.addVariable typ linkage label location).2.Twins A
        (d'.addVariable typ' linkage label location).2 := by
  have hlength := h.vars.length_eq
  have hdiagnostics : d'.object.diagnostics = d.object.diagnostics := by rw [h.rest]; rfl
  refine ⟨?_, ?_, ?_, ?_⟩
  · rw [fst_addVariable, fst_addVariable, hlength]
  · rw [vars_addVariable, vars_addVariable, hdiagnostics]
    exact List.rel_append h.vars (.cons ⟨ht, rfl⟩ .nil)
  · exact h.statements
  · rw [h.rest]
    cases label <;> rfl

theorem addStatement (h : d.Twins A d') {s s' : Statement} (hs : s.Twins A s') :
    (d.addStatement s).1 = (d'.addStatement s').1 ∧
      (d.addStatement s).2.Twins A (d'.addStatement s').2 := by
  refine ⟨?_, h.vars, ?_, ?_⟩
  · rw [fst_addStatement, fst_addStatement, h.statements.length_eq]
  · simp only [Draft.addStatement, Table.rows_insert]
    exact List.rel_append h.statements (.cons hs .nil)
  · rw [h.rest]
    rfl

theorem addMatchArm (h : d.Twins A d') (condition target : Nat) (location : Option Nat) :
    (d.addMatchArm condition target location).1 = (d'.addMatchArm condition target location).1 ∧
      (d.addMatchArm condition target location).2.Twins A
        (d'.addMatchArm condition target location).2 := by
  rw [h.rest]
  exact ⟨rfl, h.vars, h.statements, rfl⟩

theorem addBlock (h : d.Twins A d') (b : Block) :
    (d.addBlock b).1 = (d'.addBlock b).1 ∧ (d.addBlock b).2.Twins A (d'.addBlock b).2 := by
  rw [h.rest]
  exact ⟨rfl, h.vars, h.statements, rfl⟩

theorem reserveBlock (h : d.Twins A d') :
    d.reserveBlock.1 = d'.reserveBlock.1 ∧ d.reserveBlock.2.Twins A d'.reserveBlock.2 := by
  rw [h.rest]
  exact ⟨rfl, h.vars, h.statements, rfl⟩

theorem blocks_eq (h : d.Twins A d') : d'.object.blocks = d.object.blocks := by
  rw [h.rest]
  rfl

theorem fillBlock (h : d.Twins A d') (id : Nat) (b : Block) :
    (d.fillBlock id b).Twins A (d'.fillBlock id b) := by
  have hrows : (d'.fillBlock id b).object.blocks = (d.fillBlock id b).object.blocks := by
    refine Table.ext_rows ?_
    rw [rows_fillBlock, rows_fillBlock, h.blocks_eq]
  rw [d.fillBlock_eq, d'.fillBlock_eq, hrows, h.rest]
  exact ⟨h.vars, h.statements, rfl⟩

theorem exportBlock (h : d.Twins A d') (name : String) (block : Nat) :
    (d.exportBlock name block).Twins A (d'.exportBlock name block) := by
  rw [h.rest]
  exact ⟨h.vars, h.statements, rfl⟩

end Twins

end Draft

end GimpleLowering.Flo

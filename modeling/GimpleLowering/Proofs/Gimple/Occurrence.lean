import GimpleLowering.Gimple.Unit
import GimpleLowering.Proofs.Layout.Completion
import GimpleLowering.Proofs.UnitIndex
import Mathlib.Logic.Relation

/-!
# Types that occur

Which types occur in a unit: those that are written in it, and their parts, under pointers and
arrays and inside the definitions of records. A unit is consistent if types that agree are the same
once forward references are replaced; a compiler that looks at the forms of types alone cannot do
better. A single function is about fewer types: those that occur in it and in the index.

## Main definitions

* `Gimple.Expr.types`, `Statement.types`, `Function.types`, `CompilationUnit.types` — types that are
  written
* `Gimple.Ty.OccursIn` — types that are written or part of one that is
* `Gimple.CompilationUnit.Occurs`, `Gimple.Function.Occurs` — the types of a unit and of a function

## Main results

* `Gimple.Ty.OccursIn.mem` — where to look for the types that occur
* `Gimple.CompilationUnit.closed_occurs`, `Gimple.Function.closed_occurs` — the types that occur are
  closed under taking parts
-/

namespace GimpleLowering

namespace Gimple

/-! ### Types that are written -/

/-- The types that are written in an operand. -/
def Expr.types : Expr → List Ty
  | integer ty _ | real ty _ | named ty _ => [ty]
  | component ty value _ | deref ty value | address ty value => ty :: value.types
  | element ty array index => ty :: (array.types ++ index.types)

theorem Expr.ty_mem_types (e : Expr) : e.ty ∈ e.types := by
  cases e <;> simp [types, ty]

/-- The types that are written in a statement. -/
def Statement.types : Statement → List Ty
  | assign _ lhs operands _ => lhs.types ++ operands.flatMap Expr.types
  | call _ arguments lhs _ => arguments.flatMap Expr.types ++ lhs.toList.flatMap Expr.types
  | conditional _ operands _ _ _ => operands.flatMap Expr.types
  | ret value _ => value.toList.flatMap Expr.types
  | goto _ _ => []
  | switch value _ _ _ => value.types

section

variable {Q : Ty → Prop} {op : Operator} {line : Option Nat}

theorem Statement.forall_types_assign {lhs : Expr} {operands : List Expr} :
    (∀ ty ∈ (assign op lhs operands line).types, Q ty) ↔
      (∀ ty ∈ lhs.types, Q ty) ∧ ∀ e ∈ operands, ∀ ty ∈ e.types, Q ty := by
  rw [types, List.forall_mem_append, List.forall_mem_flatMap]

theorem Statement.forall_types_call {function : String} {arguments : List Expr}
    {lhs : Option Expr} :
    (∀ ty ∈ (call function arguments lhs line).types, Q ty) ↔
      (∀ e ∈ arguments, ∀ ty ∈ e.types, Q ty) ∧ ∀ e ∈ lhs, ∀ ty ∈ e.types, Q ty := by
  rw [types, List.forall_mem_append, List.forall_mem_flatMap, List.forall_mem_flatMap]
  simp only [Option.mem_toList, Option.mem_def]

theorem Statement.forall_types_conditional {operands : List Expr} {t f : Nat} :
    (∀ ty ∈ (conditional op operands t f line).types, Q ty) ↔
      ∀ e ∈ operands, ∀ ty ∈ e.types, Q ty :=
  List.forall_mem_flatMap

theorem Statement.forall_types_ret {value : Option Expr} :
    (∀ ty ∈ (ret value line).types, Q ty) ↔ ∀ e ∈ value, ∀ ty ∈ e.types, Q ty := by
  rw [types, List.forall_mem_flatMap]
  simp only [Option.mem_toList, Option.mem_def]

end

/-- The types that are written in a block. -/
def Block.types (b : Block) : List Ty := b.statements.flatMap Statement.types

/-- The types that are written in a signature. -/
def Signature.types (s : Signature) : List Ty := s.parameterTypes ++ s.returnType.toList

/-- The types that are written in a function. -/
def Function.types (f : Function) : List Ty :=
  f.signature.types ++ f.locals.map Declaration.ty ++ f.blocks.flatMap Block.types

theorem Function.mem_types_of_statement {f : Function} {b : Block} (hb : b ∈ f.blocks)
    {stmt : Statement} (hstmt : stmt ∈ b.statements) {ty : Ty} (hty : ty ∈ stmt.types) :
    ty ∈ f.types := by
  refine List.mem_append_right _ (List.mem_flatMap.2 ⟨b, hb, ?_⟩)
  exact List.mem_flatMap.2 ⟨stmt, hstmt, hty⟩

theorem Function.mem_types_of_parameter {f : Function} {d : Declaration} (h : d ∈ f.parameters) :
    d.ty ∈ f.types :=
  List.mem_append_left _ (List.mem_append_left _ (List.mem_append_left _ (List.mem_map_of_mem h)))

theorem Function.mem_types_of_returnType {f : Function} {ty : Ty} (h : f.returnType = some ty) :
    ty ∈ f.types :=
  List.mem_append_left _ (List.mem_append_left _ (List.mem_append_right _ (Option.mem_toList.2 h)))

theorem Function.mem_types_of_local {f : Function} {d : Declaration} (h : d ∈ f.locals) :
    d.ty ∈ f.types :=
  List.mem_append_left _ (List.mem_append_right _ (List.mem_map_of_mem h))

/-- The types that are written in a unit. -/
def CompilationUnit.types (u : CompilationUnit) : List Ty :=
  u.functions.flatMap Function.types ++ u.globals.map Declaration.ty ++
    u.records.map RecordDefinition.ty ++ u.declarations.flatMap Signature.types

end Gimple

open Gimple

/-- The types that are written in the index of a unit. -/
def UnitIndex.types (x : UnitIndex) : List Ty :=
  x.records.map RecordDefinition.ty ++ x.globals.map Declaration.ty ++
    x.functions.flatMap Signature.types

namespace Gimple

/-! ### Types that occur -/

/-- The second type is written in the first one, immediately below. -/
inductive Ty.HasPart : Ty → Ty → Prop where
  | pointer {base : Ty} : HasPart (.pointer base) base
  | reference {base : Ty} : HasPart (.reference base) base
  | array {base : Ty} {length : Nat} : HasPart (.array base length) base
  | field {name : String} {fields : List Field} {f : Field} (mem : f ∈ fields) :
      HasPart (.record name fields) f.ty

/-- The types that are written in a type, immediately below. -/
def Ty.parts : Ty → List Ty
  | .pointer base | .reference base | .array base _ => [base]
  | .record _ fields => fields.map Field.ty
  | .integer _ | .real _ | .boolean => []

theorem Ty.HasPart.mem_parts {ty part : Ty} (h : ty.HasPart part) : part ∈ ty.parts := by
  cases h with
  | pointer | reference | array => exact List.mem_singleton_self _
  | field mem => exact List.mem_map_of_mem mem

/-- The type is one of the types, or written in one of them, at any depth. -/
def Ty.OccursIn (tys : List Ty) (ty : Ty) : Prop :=
  ∃ t ∈ tys, Relation.ReflTransGen Ty.HasPart t ty

namespace Ty.OccursIn

variable {tys : List Ty} {ty : Ty}

theorem of_mem (h : ty ∈ tys) : OccursIn tys ty := ⟨ty, h, .refl⟩

theorem part {part : Ty} (h : OccursIn tys ty) (hp : ty.HasPart part) : OccursIn tys part := by
  obtain ⟨t, ht, hpath⟩ := h
  exact ⟨t, ht, hpath.tail hp⟩

/-- What holds of the types that are written and passes on to parts holds of all types that
occur. -/
theorem induction {p : Ty → Prop} (hwritten : ∀ ty ∈ tys, p ty)
    (hpart : ∀ ty part, p ty → ty.HasPart part → p part) (h : OccursIn tys ty) : p ty := by
  obtain ⟨t, ht, hpath⟩ := h
  induction hpath with
  | refl => exact hwritten t ht
  | tail _ hp ih => exact hpart _ _ ih hp

/-- A list that has the types that are written and all parts of its own types has all types that
occur. -/
theorem mem {all : List Ty} (hwritten : ∀ ty ∈ tys, ty ∈ all)
    (hparts : ∀ ty ∈ all, ∀ part ∈ ty.parts, part ∈ all) (h : OccursIn tys ty) : ty ∈ all :=
  h.induction hwritten fun ty part hty hpart => hparts ty hty part hpart.mem_parts

end Ty.OccursIn

/-- The type is written in the unit, at any depth. -/
def CompilationUnit.Occurs (u : CompilationUnit) : Ty → Prop := Ty.OccursIn u.types

/-- The type is written in the function or in the index, at any depth. -/
def Function.Occurs (f : Function) (x : UnitIndex) : Ty → Prop := Ty.OccursIn (f.types ++ x.types)

theorem Function.occurs_of_mem {f : Function} {x : UnitIndex} {ty : Ty} (h : ty ∈ f.types) :
    f.Occurs x ty := .of_mem (List.mem_append_left _ h)

/-- The types that occur in a function have their parts among them, and what the index says. -/
theorem Function.closed_occurs (f : Function) (x : UnitIndex) : x.Closed (f.Occurs x) := by
  have hindex : ∀ ty ∈ x.types, f.Occurs x ty := fun ty hty => .of_mem (List.mem_append_right _ hty)
  have hsig : ∀ s ∈ x.functions, ∀ ty ∈ s.types, f.Occurs x ty := by
    intro s hs ty hty
    refine hindex ty ?_
    simp only [UnitIndex.types, List.mem_append, List.mem_flatMap]
    exact .inr ⟨s, hs, hty⟩
  refine ⟨fun h => h.part .pointer, fun h => h.part .reference, fun h => h.part .array,
    fun h f hf => h.part (.field hf), fun r hr => hindex _ ?_, fun g hg => hindex _ ?_,
    fun s hs ty hty => hsig s hs ty (List.mem_append_left _ hty),
    fun s hs ty hty => hsig s hs ty (List.mem_append_right _ (Option.mem_toList.2 hty))⟩
  · simp only [UnitIndex.types, List.mem_append, List.mem_map]
    exact .inl (.inl ⟨r, hr, rfl⟩)
  · simp only [UnitIndex.types, List.mem_append, List.mem_map]
    exact .inl (.inr ⟨g, hg, rfl⟩)

namespace CompilationUnit

variable {u : CompilationUnit}

theorem occurs_function {f : Function} (hf : f ∈ u.functions) {ty : Ty} (h : ty ∈ f.types) :
    u.Occurs ty := by
  refine .of_mem ?_
  simp only [types, List.mem_append, List.mem_flatMap]
  exact .inl (.inl (.inl ⟨f, hf, h⟩))

/-! ### The index -/

theorem mem_of_addGlobal {gs gs' : List Declaration} {g t : Declaration}
    (h : UnitIndex.addGlobal gs g = .ok gs') (ht : t ∈ gs') : t ∈ gs ∨ t = g := by
  unfold UnitIndex.addGlobal at h
  split at h
  · cases h
  · cases h
    rcases List.mem_append.1 ht with ht | ht
    · exact .inl ht
    · exact .inr (List.mem_singleton.1 ht)

theorem mem_of_foldl_addRecord {as rs : List RecordDefinition} {r : RecordDefinition}
    (h : r ∈ as.foldl UnitIndex.addRecord rs) : r ∈ rs ∨ r ∈ as := by
  induction as generalizing rs with
  | nil => exact .inl h
  | cons a as ih =>
    rcases ih h with h | h
    · rcases List.mem_append.1 h with h | h
      · exact .inl (List.mem_filter.1 h).1
      · exact .inr (by simp [List.mem_singleton.1 h])
    · exact .inr (by simp [h])

/-- The types that occur in a unit have their parts among them, and what the index says. -/
theorem closed_occurs {x : UnitIndex} (h : UnitIndex.ofUnit u = .ok x) : x.Closed u.Occurs := by
  obtain ⟨functions, globals, hf, hg, rfl⟩ := UnitIndex.ofUnit_eq_ok h
  have hsig : ∀ s ∈ functions, ∀ ty ∈ s.types, u.Occurs ty := by
    intro s hs ty hty
    rcases mem_of_foldlM (fun h => (UnitIndex.mem_iff_of_addSignature h).1) hf hs with hs | hs
    · simp at hs
    rcases List.mem_append.1 hs with hs | hs
    · obtain ⟨f, hmem, rfl⟩ := List.mem_map.1 hs
      refine occurs_function hmem ?_
      simp [Function.types, hty]
    · refine .of_mem ?_
      simp only [types, List.mem_append, List.mem_flatMap]
      exact .inr ⟨s, hs, hty⟩
  refine ⟨fun h => h.part .pointer, fun h => h.part .reference, fun h => h.part .array,
    fun h f hf => h.part (.field hf), fun r hr => ?_, fun g hgm => ?_,
    fun s hs ty hty => hsig s hs ty ?_, fun s hs ty hty => hsig s hs ty ?_⟩
  · rcases mem_of_foldl_addRecord hr with hr | hr
    · simp at hr
    · refine .of_mem ?_
      simp only [types, List.mem_append, List.mem_map]
      exact .inl (.inr ⟨r, hr, rfl⟩)
  · rcases mem_of_foldlM mem_of_addGlobal hg hgm with hgm | hgm
    · simp at hgm
    · refine .of_mem ?_
      simp only [types, List.mem_append, List.mem_map]
      exact .inl (.inl (.inr ⟨g, hgm, rfl⟩))
  · simp [Signature.types, hty]
  · simp [Signature.types, Option.mem_def.1 hty]

/-- Types of the unit that agree are equal once the forward references at their cores are replaced
by the definitions that they stand for. -/
def RecordConsistent (u : CompilationUnit) : Prop :=
  ∀ x, UnitIndex.ofUnit u = .ok x → ∀ a b, u.Occurs a → u.Occurs b → a.agrees b →
    x.expand a = x.expand b

/-- To see that a unit is consistent, it is enough to look at finitely many types. -/
theorem recordConsistent_of_mem (tys : List Ty) (hwritten : ∀ ty ∈ u.types, ty ∈ tys)
    (hparts : ∀ ty ∈ tys, ∀ part ∈ ty.parts, part ∈ tys)
    (hexpand : ∀ a ∈ tys, ∀ b ∈ tys, a.agrees b →
      (UnitIndex.ofUnit u).map (·.expand a) = (UnitIndex.ofUnit u).map (·.expand b)) :
    u.RecordConsistent := by
  intro x hx a b ha hb hab
  have h := hexpand a (ha.mem hwritten hparts) b (hb.mem hwritten hparts) hab
  rw [hx] at h
  exact Except.ok.inj h

theorem RecordConsistent.consistent (h : u.RecordConsistent) {x : UnitIndex}
    (hx : UnitIndex.ofUnit u = .ok x) : x.Consistent u.Occurs :=
  { closed_occurs hx with expand_eq := fun {a b} ha hb hab => h x hx a b ha hb hab }

end CompilationUnit

end Gimple

end GimpleLowering

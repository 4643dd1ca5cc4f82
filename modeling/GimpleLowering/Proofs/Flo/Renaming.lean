import GimpleLowering.Proofs.Flo.Twins
import Mathlib.Data.Set.Function

/-!
# Renaming types

Structs and array types are known by their ids, and what an object does does not depend on which
ids these are. An object is renamed if the ids in the types of its variables and constants are
replaced, and if the types behind the new ids are the renamed types behind the old ones. Only types
that are reached from the object matter: its type tables are those of a whole unit, and may hold
types that other functions need.

## Main definitions

* `Flo.Renaming`, with `Ty.rename` and the renaming of entries
* `Flo.Object.Reaches` — types that an object depends on
* `Flo.Object.Renamed` — the same object with other ids
* `Flo.Object.Linked` — objects whose types correspond

## Main results

* `Flo.Object.Linked.renamed` — if the correspondence is one-to-one, it is a renaming
-/

namespace GimpleLowering.Flo

/-! ### Renaming -/

/-- New ids for structs and array types. -/
structure Renaming where
  structs : Nat → Nat
  arrays : Nat → Nat

variable (ρ : Renaming)

/-- The type with new ids. -/
def Ty.rename : Ty → Ty
  | array id => array (ρ.arrays id)
  | struct id => struct (ρ.structs id)
  | handle pointee nullable => handle pointee.rename nullable
  | ty => ty

/-- The variable with its type renamed. -/
def Variable.rename (v : Variable) : Variable := { v with typ := v.typ.rename ρ }

/-- The constant with its type renamed. -/
def Constant.rename (c : Constant) : Constant := { c with typ := c.typ.rename ρ }

/-- The statement with the type of its constant renamed, if it has one. -/
def Statement.rename : Statement → Statement
  | assignConst target value note => assignConst target (value.rename ρ) note
  | s => s

/-- The array type with the type of its members renamed. -/
def ArrayType.rename (a : ArrayType) : ArrayType := { a with memberType := a.memberType.rename ρ }

/-- The struct type with the types of its members renamed. -/
def StructType.rename (s : StructType) : StructType :=
  { s with members := s.members.map (Ty.rename ρ) }

/-- Changes all entries of a table. -/
def Table.map {α β : Type} (f : α → β) (t : Table α) : Table β := ⟨t.entries.map f⟩

variable {ρ}

/-- Rows that correspond are those of the other table, changed one by one. -/
theorem Table.eq_map {α : Type} {R : α → α → Prop} {f : α → α} {t t' : Table α}
    (h : List.Forall₂ R t.rows t'.rows) (hf : ∀ a b, R a b → b = f a) : t' = t.map f := by
  refine Table.ext_rows ?_
  rw [show (t.map f).rows = t.rows.map f from Array.toList_map, ← List.forall₂_eq_eq_eq,
    List.forall₂_map_right_iff]
  exact (h.imp hf).flip

/-! ### Types of an object -/

/-- The object depends on the type: one of its variables or constants has it, or it is part of
another such type. -/
inductive Object.Reaches (o : Object) : Ty → Prop where
  | var {id : Nat} {v : Variable} (h : o.vars.get? id = some v) : Reaches o v.typ
  | constant {id target : Nat} {value : Constant} {note : Note}
      (h : o.statements.get? id = some (.assignConst target value note)) : Reaches o value.typ
  | pointee {pointee : Ty} {nullable : Bool} (h : Reaches o (.handle pointee nullable)) :
      Reaches o pointee
  | element {id : Nat} {a : ArrayType} (h : Reaches o (.array id))
      (entry : o.types.arrays.get? id = some a) : Reaches o a.memberType
  | member {id : Nat} {s : StructType} {typ : Ty} (h : Reaches o (.struct id))
      (entry : o.types.structs.get? id = some s) (mem : typ ∈ s.members) : Reaches o typ

/-- The second object is the first one with other ids of structs and array types. The renaming is
one-to-one between the types that the objects depend on, and these are renamed in the tables. -/
structure Object.Renamed (ρ : Renaming) (o o' : Object) : Prop where
  code : o' = { o with
    vars := o.vars.map (Variable.rename ρ)
    statements := o.statements.map (Statement.rename ρ)
    types := o'.types }
  structs : Set.BijOn ρ.structs {id | o.Reaches (.struct id)} {id | o'.Reaches (.struct id)}
  arrays : Set.BijOn ρ.arrays {id | o.Reaches (.array id)} {id | o'.Reaches (.array id)}
  structType : ∀ id, o.Reaches (.struct id) →
    o'.types.structs.get? (ρ.structs id) = (o.types.structs.get? id).map (StructType.rename ρ)
  arrayType : ∀ id, o.Reaches (.array id) →
    o'.types.arrays.get? (ρ.arrays id) = (o.types.arrays.get? id).map (ArrayType.rename ρ)

/-! ### Correspondence -/

theorem Variable.Twins.eq_rename {A : Ty → Ty → Prop} {v v' : Variable} (h : v.Twins A v')
    (rename : ∀ {t t'}, A t t' → t' = t.rename ρ) : v' = v.rename ρ := by
  rw [h.rest, rename h.typ]
  rfl

theorem Statement.Twins.eq_rename {A : Ty → Ty → Prop} {s s' : Statement} (h : s.Twins A s')
    (rename : ∀ {t t'}, A t t' → t' = t.rename ρ) : s' = s.rename ρ := by
  cases h with
  | assignConst htyp =>
    rw [rename htyp]
    rfl
  | same hne =>
    cases s with
    | assignConst target value note => exact absurd rfl (hne target value note)
    | _ => rfl

theorem members_eq_map {A : Ty → Ty → Prop} {members members' : List Ty}
    (h : List.Forall₂ A members members') (rename : ∀ {t t'}, A t t' → t' = t.rename ρ) :
    members' = members.map (Ty.rename ρ) := by
  rw [← List.forall₂_eq_eq_eq, List.forall₂_map_right_iff]
  exact (h.imp fun _ _ => rename).flip

/-- The objects are equal but for their types, and the types of the first correspond to types of
the second, with everything that they are made of. -/
structure Object.Linked (A : Ty → Ty → Prop) (o o' : Object) : Prop where
  vars : List.Forall₂ (Variable.Twins A) o.vars.rows o'.vars.rows
  statements : List.Forall₂ (Statement.Twins A) o.statements.rows o'.statements.rows
  rest : o' = { o with vars := o'.vars, statements := o'.statements, types := o'.types }
  handle : ∀ {pointee nullable typ}, A (.handle pointee nullable) typ →
    ∃ pointee', typ = .handle pointee' nullable ∧ A pointee pointee'
  array : ∀ {id typ}, A (.array id) typ → ∃ id' a a', typ = .array id' ∧
    o.types.arrays.get? id = some a ∧ o'.types.arrays.get? id' = some a' ∧
      A a.memberType a'.memberType ∧ a' = { a with memberType := a'.memberType }
  struct : ∀ {id typ}, A (.struct id) typ → ∃ id' s s', typ = .struct id' ∧
    o.types.structs.get? id = some s ∧ o'.types.structs.get? id' = some s' ∧
      List.Forall₂ A s.members s'.members ∧ s' = { s with members := s'.members }

namespace Object.Linked

variable {A : Ty → Ty → Prop} {o o' : Object}

/-- What the first object depends on corresponds to something that the second one depends on. -/
theorem reaches (h : o.Linked A o') {typ : Ty} (hr : o.Reaches typ) :
    ∃ typ', A typ typ' ∧ o'.Reaches typ' := by
  induction hr with
  | @var id v hv =>
    rw [Table.get?_eq_rows] at hv
    obtain ⟨hlt, rfl⟩ := List.getElem?_eq_some_iff.1 hv
    have hlt' : id < o'.vars.rows.length := h.vars.length_eq ▸ hlt
    have htwins := h.vars.get hlt hlt'
    exact ⟨_, htwins.typ, .var (by rw [Table.get?_eq_rows]; exact List.getElem?_eq_getElem hlt')⟩
  | @constant id target value note hs =>
    rw [Table.get?_eq_rows] at hs
    obtain ⟨hlt, heq⟩ := List.getElem?_eq_some_iff.1 hs
    have hlt' : id < o'.statements.rows.length := h.statements.length_eq ▸ hlt
    have htwins := h.statements.get hlt hlt'
    have hs' := List.getElem?_eq_getElem hlt'
    rw [← Table.get?_eq_rows] at hs'
    simp only [List.get_eq_getElem, heq] at htwins
    generalize o'.statements.rows[id] = s' at htwins hs'
    cases htwins with
    | assignConst htyp => exact ⟨_, htyp, .constant hs'⟩
    | same hne => exact absurd rfl (hne _ _ _)
  | pointee _ ih =>
    obtain ⟨typ', htyp, hreach⟩ := ih
    obtain ⟨pointee', rfl, hpointee⟩ := h.handle htyp
    exact ⟨pointee', hpointee, .pointee hreach⟩
  | element _ entry ih =>
    obtain ⟨typ', htyp, hreach⟩ := ih
    obtain ⟨id', a, a', rfl, ha, ha', hmember, -⟩ := h.array htyp
    obtain rfl := Option.some.inj (entry.symm.trans ha)
    exact ⟨_, hmember, .element hreach ha'⟩
  | member _ entry mem ih =>
    obtain ⟨typ', htyp, hreach⟩ := ih
    obtain ⟨id', s, s', rfl, hs, hs', hmembers, -⟩ := h.struct htyp
    obtain rfl := Option.some.inj (entry.symm.trans hs)
    obtain ⟨i, hi, rfl⟩ := List.getElem_of_mem mem
    have hi' : i < s'.members.length := hmembers.length_eq ▸ hi
    exact ⟨_, hmembers.get hi hi', .member hreach hs' (List.getElem_mem hi')⟩

/-- A correspondence of the types of two objects that is one-to-one is a renaming. -/
theorem renamed (h : o.Linked A o') (h' : o'.Linked (fun t t' => A t' t) o)
    (rename : ∀ {t t'}, A t t' → t' = t.rename ρ)
    (injective : ∀ {t u t'}, A t t' → A u t' → t = u) : o.Renamed ρ o' := by
  have hstruct : ∀ {id}, o.Reaches (.struct id) → A (.struct id) (.struct (ρ.structs id)) ∧
      o'.Reaches (.struct (ρ.structs id)) := fun hr => by
    obtain ⟨typ', htyp, hreach⟩ := h.reaches hr
    obtain rfl := rename htyp
    exact ⟨htyp, hreach⟩
  have harray : ∀ {id}, o.Reaches (.array id) → A (.array id) (.array (ρ.arrays id)) ∧
      o'.Reaches (.array (ρ.arrays id)) := fun hr => by
    obtain ⟨typ', htyp, hreach⟩ := h.reaches hr
    obtain rfl := rename htyp
    exact ⟨htyp, hreach⟩
  refine ⟨?_, ⟨fun id hr => (hstruct hr).2, fun id hr id' hr' heq => ?_, fun id' hr' => ?_⟩,
    ⟨fun id hr => (harray hr).2, fun id hr id' hr' heq => ?_, fun id' hr' => ?_⟩, fun id hr => ?_,
    fun id hr => ?_⟩
  · rw [← Table.eq_map h.vars fun _ _ hv => hv.eq_rename rename,
      ← Table.eq_map h.statements fun _ _ hs => hs.eq_rename rename]
    exact h.rest
  · have hid := (hstruct hr).1
    rw [heq] at hid
    exact Ty.struct.inj (injective hid (hstruct hr').1)
  · obtain ⟨typ, htyp, hreach⟩ := h'.reaches hr'
    obtain ⟨id, -, -, rfl, -⟩ := h'.struct htyp
    exact ⟨id, hreach, (Ty.struct.inj (rename htyp)).symm⟩
  · have hid := (harray hr).1
    rw [heq] at hid
    exact Ty.array.inj (injective hid (harray hr').1)
  · obtain ⟨typ, htyp, hreach⟩ := h'.reaches hr'
    obtain ⟨id, -, -, rfl, -⟩ := h'.array htyp
    exact ⟨id, hreach, (Ty.array.inj (rename htyp)).symm⟩
  · obtain ⟨id', s, s', heq, hs, hs', hmembers, hrest⟩ := h.struct (hstruct hr).1
    obtain rfl := Ty.struct.inj heq
    rw [hs, hs', Option.map_some, hrest, members_eq_map hmembers rename]
    rfl
  · obtain ⟨id', a, a', heq, ha, ha', hmember, hrest⟩ := h.array (harray hr).1
    obtain rfl := Ty.array.inj heq
    rw [ha, ha', Option.map_some, hrest, rename hmember]
    rfl

end Object.Linked

end GimpleLowering.Flo

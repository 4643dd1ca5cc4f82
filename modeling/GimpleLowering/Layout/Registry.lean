import GimpleLowering.Flo.Object
import GimpleLowering.Gimple.Ty

/-!
# Registered types

Structs and arrays get their ids in the order in which they are first needed. There is one struct
for each record, compared structurally, and one array type for each member type and length. A
struct is registered before its members are known, which is all that a handle to it needs; its
layout is published later, if ever.

## Main definitions

* `Layout.Slot` — a field of a record with its place in the struct
* `Layout.Registry`, with `registerStruct`, `registerArray` and `publish`
* `Layout.Registry.tables` — the type tables of objects
-/

namespace GimpleLowering.Layout

open Gimple

/-- A field of a record and how to get at it. -/
structure Slot where
  name : String
  ty : Ty
  /-- The runtime type of the field. -/
  typ : Flo.Ty
  /-- The position of the field. -/
  index : Nat
  deriving DecidableEq, Inhabited

/-- The part of a struct that holds the field. -/
def Slot.member (s : Slot) : Flo.Member := .field s.index

/-- A registered struct: the record that it represents, and its fields once they are laid out. -/
structure RecordStruct where
  record : Ty
  slots : Option (List Slot)
  deriving DecidableEq, Inhabited

namespace RecordStruct

/-- A record that is never defined has an opaque struct, which only handles can refer to. -/
def isOpaque (s : RecordStruct) : Bool := s.record.isForwardRecord

/-- The fields have been laid out. -/
def isLaidOut (s : RecordStruct) : Bool := s.slots.isSome

/-- The entry in the table of structs, which is poisoned until the fields are laid out. -/
def entry (s : RecordStruct) : Flo.StructType :=
  match s.slots with
  | some slots => ⟨s.record.recordName, slots.map Slot.name, slots.map Slot.typ, .usable⟩
  | none => Flo.Entry.poisoned .undefined

end RecordStruct

/-- The structs and array types in the order of their ids, which start at 1. -/
structure Registry where
  structs : List RecordStruct
  arrays : List (Flo.Ty × Nat)
  deriving DecidableEq

namespace Registry

/-- Nothing is registered. -/
def empty : Registry := ⟨[], []⟩

instance : Inhabited Registry := ⟨empty⟩

/-- The struct with an id. -/
def struct? (r : Registry) (id : Nat) : Option RecordStruct :=
  if id = 0 then none else r.structs[id - 1]?

/-- The id of the struct for a record. -/
def structOf? (r : Registry) (record : Ty) : Option Nat :=
  (r.structs.findIdx? fun s => s.record = record).map (· + 1)

/-- The id of the struct for a record, which is registered if it is new. -/
def registerStruct (r : Registry) (record : Ty) : Nat × Registry :=
  match r.structOf? record with
  | some id => (id, r)
  | none => (r.structs.length + 1, { r with structs := r.structs ++ [⟨record, none⟩] })

/-- The id of the type of arrays with the given members, which is registered if it is new. -/
def registerArray (r : Registry) (memberType : Flo.Ty) (length : Nat) : Nat × Registry :=
  match r.arrays.findIdx? fun a => a = (memberType, length) with
  | some i => (i + 1, r)
  | none => (r.arrays.length + 1, { r with arrays := r.arrays ++ [(memberType, length)] })

/-- Makes the layout of a struct known. -/
def publish (r : Registry) (id : Nat) (slots : List Slot) : Registry :=
  { r with structs := r.structs.modify (id - 1) fun s => { s with slots := some slots } }

/-- The type tables that objects share. -/
def tables (r : Registry) : Flo.TypeTables where
  arrays := ⟨(Flo.Entry.poisoned .nullEntry ::
    r.arrays.map fun a => (⟨a.1, a.2, .usable⟩ : Flo.ArrayType)).toArray⟩
  structs := ⟨(Flo.Entry.poisoned .nullEntry :: r.structs.map RecordStruct.entry).toArray⟩

/-! ### Interface lemmas -/

@[simp] theorem struct?_zero (r : Registry) : r.struct? 0 = none := rfl

@[simp] theorem struct?_succ (r : Registry) (i : Nat) : r.struct? (i + 1) = r.structs[i]? := rfl

@[simp] theorem tables_empty : empty.tables = .empty := rfl

theorem mem_of_struct? {r : Registry} {id : Nat} {s : RecordStruct} (h : r.struct? id = some s) :
    s ∈ r.structs := by
  cases id with
  | zero => simp at h
  | succ i => exact List.mem_of_getElem? h

end Registry

end GimpleLowering.Layout

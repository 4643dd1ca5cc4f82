import GimpleLowering.Build
import GimpleLowering.Layout.Containment
import GimpleLowering.Layout.Registry

/-!
# Runtime representations

Every type of the intermediate code that the runtime has something for is represented in one of a
few ways: as a scalar, as a struct, as a handle to a struct, as an array, or as a handle to a cell
that holds one other value. Finding the representation of a type registers the structs and arrays
that it mentions, and lays out the structs whose values it contains.

A field whose type points to an array contains nothing, but its representation needs the members
of the array and so the layouts of records among them. Such a layout can need itself; the
computation is then without an end.

## Main definitions

* `Layout.Representation` — how values of a type are represented
* `Layout.represent` — the representation of a type
* `Layout.resolve`, `resolveHandle` — the struct for a record
* `Layout.slotsOf`, `slotOf` — the fields of a struct
* `Layout.finalize` — lays out everything that is registered
-/

namespace GimpleLowering.Layout

open Gimple

/-- Computations that register types. -/
abbrev LayoutM := Build Registry Error

/-! ### Representations -/

/-- How values of a type are represented. -/
inductive Representation where
  /-- An integer, a real or a truth value. -/
  | primitive (typ : Flo.Ty)
  /-- A record by value. -/
  | record (struct : Nat)
  /-- A pointer or reference to a record. -/
  | recordHandle (struct : Nat) (nullable : Bool)
  /-- An array, which is a reference in the runtime. -/
  | array (id : Nat)
  /-- A pointer or reference to a value that is not a record. -/
  | cell (pointee : Flo.Ty) (nullable : Bool)
  deriving DecidableEq

/-- How a value crosses a call. -/
inductive Convention where
  /-- The callee has a copy of its own. -/
  | byValue
  /-- The callee shares the object. -/
  | byHandle
  deriving DecidableEq, Repr

namespace Representation

/-- The runtime type of values. -/
def valueType : Representation → Flo.Ty
  | primitive typ => typ
  | record struct => .struct struct
  | recordHandle struct nullable => .handle (.struct struct) nullable
  | array id => .array id
  | cell pointee nullable => .handle pointee nullable

/-- How values cross a call. There is no array by value in the runtime. -/
def convention : Representation → Convention
  | primitive _ | record _ => .byValue
  | recordHandle _ _ | array _ | cell _ _ => .byHandle

/-- The struct that a value holds or refers to. -/
def struct? : Representation → Option Nat
  | record struct | recordHandle struct _ => some struct
  | primitive _ | array _ | cell _ _ => none

/-- A value can be null. -/
def isNullable : Representation → Bool
  | recordHandle _ nullable | cell _ nullable => nullable
  | primitive _ | record _ | array _ => false

end Representation

/-! ### Structs -/

/-- The record that a forward reference stands for, if the type is a record at all. -/
def completeRecord (x : UnitIndex) (ty : Ty) : LayoutM Ty :=
  if ty.isRecord then pure (x.complete ty) else throw (.internal (.notARecord ty))

/-- The struct for a record that handles refer to. The fields do not matter. -/
def resolveHandle (x : UnitIndex) (ty : Ty) : LayoutM Nat := do
  let record ← completeRecord x ty
  Build.step fun r => r.registerStruct record

/-- The struct for a record that is used by value, which must not contain itself. -/
def resolve (x : UnitIndex) (ty : Ty) : LayoutM Nat := do
  let record ← completeRecord x ty
  Build.ofExcept (x.checkContained record)
  Build.step fun r => r.registerStruct record

/-! ### Types -/

/-- The representation of integers of the given width. -/
def integerOfWidth (width : Nat) : LayoutM Representation :=
  if width = 32 then pure (.primitive .signed32)
  else if width = 64 then pure (.primitive .signed64)
  else throw (.unsupportedType (.scalar (.integer width)))

/-- The representation of reals of the given width. -/
def realOfWidth (width : Nat) : LayoutM Representation :=
  if width = 64 then pure (.primitive .double)
  else throw (.unsupportedType (.scalar (.real width)))

/-- The representation of the pointer or reference `ty` to `base`, where `pointee` represents
`base`. A record behind a pointer is not represented by value. -/
def indirection (x : UnitIndex) (ty base : Ty) (pointee : LayoutM Representation) :
    LayoutM Representation :=
  match base with
  | .record _ _ => return .recordHandle (← resolveHandle x base) ty.isNullable
  | .pointer _ | .reference _ => throw (.unsupportedType (.doubleIndirection ty))
  | _ => return .cell (← pointee).valueType ty.isNullable

/-- The representation of a type, given the fields of structs. -/
def representWith (x : UnitIndex) (slots : Nat → LayoutM (List Slot)) : Ty → LayoutM Representation
  | .integer width => integerOfWidth width
  | .real width => realOfWidth width
  | .boolean => pure (.primitive .bool)
  | .record name fields => do
    let id ← resolve x (.record name fields)
    let _ ← slots id
    return .record id
  | .array base length => do
    let member ← representWith x slots base
    return .array (← Build.step fun r => r.registerArray member.valueType length)
  | .pointer base => indirection x (.pointer base) base (representWith x slots base)
  | .reference base => indirection x (.reference base) base (representWith x slots base)

/-! ### Fields -/

/-- The first name that occurs a second time. -/
def repeatedName? (seen : List String) : List String → Option String
  | [] => none
  | n :: rest => if n ∈ seen then some n else repeatedName? (n :: seen) rest

/-- A record can be laid out if it is defined, its fields have names of their own, and it does not
contain itself. -/
def checkDefined (x : UnitIndex) (record : Ty) : Except Error Unit := do
  if record.fields.isEmpty then .error (.invalidLayout (.undefinedByValue record))
  match repeatedName? [] (record.fields.map Field.name) with
  | some name => .error (.invalidLayout (.fieldTwice record name))
  | none => x.checkContained record

/-- The fields with their places, in order. -/
def placeFields (represent : Ty → LayoutM Representation) (first : Nat) :
    List Field → LayoutM (List Slot)
  | [] => pure []
  | f :: rest => do
    let r ← represent f.ty
    return ⟨f.name, f.ty, r.valueType, first⟩ :: (← placeFields represent (first + 1) rest)

/-- The fields of a struct if they are known, and what is computed for its record otherwise. -/
def knownSlots (id : Nat) (compute : Ty → LayoutM (List Slot)) : LayoutM (List Slot) := do
  match (← get).struct? id with
  | none => return []
  | some s =>
    match s.slots with
    | some slots => return slots
    | none => compute s.record

/-- Makes the layout of a struct known, which has to be registered. -/
def publish (id : Nat) (slots : List Slot) : LayoutM Unit := do
  let _ ← Build.present id ((← get).struct? id)
  Build.step fun r => ((), r.publish id slots)

/-- Lays out the fields of the record of a struct, given the fields of other structs. -/
def layOutWith (x : UnitIndex) (slots : Nat → LayoutM (List Slot)) (id : Nat) (record : Ty) :
    LayoutM (List Slot) := do
  Build.ofExcept (checkDefined x record)
  let slots ← placeFields (representWith x slots) 0 record.fields
  publish id slots
  return slots

/-- The fields of a struct, which are laid out if they are not known yet. The structs whose layout
is under way are `active`; they differ from each other, and the fuel bounds their number. -/
def layOut (x : UnitIndex) : (fuel : Nat) → (active : List Nat) → (id : Nat) → LayoutM (List Slot)
  | 0, _, id => knownSlots id Build.unending
  | fuel + 1, active, id => knownSlots id fun record =>
    if id ∈ active then Build.unending record
    else layOutWith x (layOut x fuel (id :: active)) id record

/-- The number of records that can be registered without registering one twice. -/
def fuelBound (x : UnitIndex) (r : Registry) : Nat :=
  Ty.recordTotal (r.structs.map RecordStruct.record) + x.recordBound .boolean

/-- The fields of a struct in declaration order. -/
def slotsOf (x : UnitIndex) (id : Nat) : LayoutM (List Slot) := do
  layOut x (fuelBound x (← get)) [] id

/-- The record that a struct represents. -/
def recordOf (id : Nat) : LayoutM Ty := do
  return ((← get).struct? id).elim (.record "" []) RecordStruct.record

/-- The field of a struct with the given name. -/
def slotOf (x : UnitIndex) (id : Nat) (name : String) : LayoutM Slot := do
  let slots ← slotsOf x id
  match slots.find? fun s => s.name = name with
  | some slot => return slot
  | none => throw (.malformed (.noSuchField (← recordOf id) name))

/-- The representation of a type. -/
def represent (x : UnitIndex) (ty : Ty) : LayoutM Representation :=
  representWith x (slotsOf x) ty

/-- The runtime type of the values of a type. -/
def valueType (x : UnitIndex) (ty : Ty) : LayoutM Flo.Ty := return (← represent x ty).valueType

/-! ### The end of a compilation -/

/-- Lays out the structs from the given id on, including those that are registered on the way. A
struct that cannot be laid out stays opaque, which is no loss: nothing that was compiled uses its
values. -/
def finalizeFrom (x : UnitIndex) : (fuel : Nat) → (id : Nat) → LayoutM Unit
  | 0, _ => pure ()
  | fuel + 1, id => do
    match (← get).struct? id with
    | none => pure ()
    | some s =>
      unless s.isOpaque do
        let _ ← Build.attempt (slotsOf x id)
      finalizeFrom x fuel (id + 1)

/-- Lays out everything that is registered. -/
def finalize (x : UnitIndex) : LayoutM Unit := do
  finalizeFrom x (fuelBound x (← get)) 1

end GimpleLowering.Layout

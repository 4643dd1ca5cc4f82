import GimpleLowering.UnitIndex

/-!
# Records that contain themselves

A value of a record type contains the values of its fields, and a value of an array type those of
its elements, but a pointer contains nothing. A record must not contain itself in this sense.
Forward references are looked through on the way, so the walk is bounded by the number of records
that are written in the type and in the definitions of the unit.

## Main definitions

* `UnitIndex.complete` — the definition that a forward reference stands for
* `UnitIndex.checkContained` — no record is contained in itself
-/

namespace GimpleLowering

open Gimple

/-- The record of which a value of the type holds one or more. -/
def Gimple.Ty.storedRecord? : Ty → Option Ty
  | .array base _ => base.storedRecord?
  | .record name fields => some (.record name fields)
  | _ => none

namespace UnitIndex

/-- A forward reference to a named record becomes its definition, if the unit has one. Every other
type stays what it is. -/
def complete (x : UnitIndex) : Ty → Ty
  | .record name [] =>
    if name = "" then .record name []
    else ((x.record? name).map RecordDefinition.ty).getD (.record name [])
  | ty => ty

/-- More records than can be met on the way from a type into its parts without repetition: all
that are written in the type or in a definition. -/
def recordBound (x : UnitIndex) (ty : Ty) : Nat :=
  ty.recordCount + Ty.recordTotal (x.records.map RecordDefinition.ty) + 1

/-- Walks what a value of the type contains. The records on the way are `path`; the fuel bounds
their number. -/
def checkContainedFrom (x : UnitIndex) : (fuel : Nat) → (path : List Ty) → Ty → Except Error Unit
  | 0, _, ty => .error (.invalidLayout (.containsItself ty))
  | fuel + 1, path, ty =>
    match ty.storedRecord? with
    | none => .ok ()
    | some r =>
      let record := x.complete r
      if record ∈ path then .error (.invalidLayout (.containsItself record))
      else record.fields.forM fun f => x.checkContainedFrom fuel (record :: path) f.ty

/-- No record in a value of the type contains itself. -/
def checkContained (x : UnitIndex) (ty : Ty) : Except Error Unit :=
  x.checkContainedFrom (x.recordBound ty) [] ty

/-! ### Interface lemmas -/

@[simp] theorem complete_anonymous (x : UnitIndex) (fields : List Field) :
    x.complete (.record "" fields) = .record "" fields := by
  cases fields <;> simp [complete]

@[simp] theorem complete_defined (x : UnitIndex) (name : String) (f : Field)
    (fields : List Field) : x.complete (.record name (f :: fields)) = .record name (f :: fields) :=
  rfl

/-- Only records are completed, and to records of the same name. -/
theorem recordName_complete (x : UnitIndex) (ty : Ty) :
    (x.complete ty).recordName = ty.recordName := by
  unfold complete
  split
  · rename_i name
    split
    · rfl
    · cases h : x.record? name with
      | none => rfl
      | some r => simpa [RecordDefinition.ty, Ty.recordName] using name_of_record? h
  · rfl

end UnitIndex

end GimpleLowering

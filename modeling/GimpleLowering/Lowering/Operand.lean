import GimpleLowering.Lowering.State

/-!
# Operands

Every operand is read into a runtime variable before it is used, and every assignment writes one.
A variable is read in place; all other operands are read into temporaries. A record by value cannot
be changed in place, so writing a field of it takes the record apart, replaces one part, and writes
the record that is built from the parts.

## Main definitions

* `Lowering.read`, `Lowering.write`
* `Lowering.destination` — the variable that a result can go to directly
-/

namespace GimpleLowering.Lowering

open Gimple Layout

/-! ### Constants -/

/-- An integer constant. Zero is the only integer that stands for a pointer. -/
def readInteger (cx : Context) (ty : Ty) (value : Int) : LowerM Nat := do
  match ty with
  | .integer _ => constant cx (← check (integerConstant (← valueType cx ty) value))
  | .boolean => constant cx (.ofBool (value ≠ 0))
  | .real _ => constant cx (.ofDouble (.ofInt value))
  | .pointer _ =>
    if value = 0 then constant cx (.null (← valueType cx ty))
    else throw (.unsupportedConstruct (.integerAddress value ty))
  | .reference _ =>
    if value = 0 then throw (.malformed (.nullConstant ty))
    else throw (.unsupportedConstruct (.integerAddress value ty))
  | .array _ _ | .record _ _ => throw (.malformed (.integerOfAggregate value ty))

/-- A real constant. -/
def readReal (cx : Context) (ty : Ty) (value : Double) : LowerM Nat := do
  if (← valueType cx ty) ≠ .double then throw (.malformed (.realOfOtherType value ty))
  constant cx (.ofDouble value)

/-! ### Parts

The following take the computation that reads the whole, and the expression `e` that the part is
accessed by, whose written type is checked. -/

/-- The field of a struct that the expression accesses. -/
def slotFor (cx : Context) (struct : Nat) (member : String) (e : Expr) : LowerM Slot := do
  let slot ← onTypes (slotOf cx.index struct member)
  let record ← onTypes (recordOf struct)
  check (sameType e.text e.ty (record.text ++ "." ++ slot.name) slot.ty)
  return slot

/-- The handle and the field for `pointer->member`. -/
def fieldThrough (cx : Context) (pointer : Expr) (readPointer : LowerM Nat) (member : String)
    (e : Expr) : LowerM (Nat × Slot) := do
  match pointer.ty.indirectBase.filter Ty.isRecord with
  | none => throw (.malformed (.derefAsRecord pointer))
  | some record =>
    let slot ← slotFor cx (← onTypes (resolveHandle cx.index record)) member e
    let handle ← readPointer
    if pointer.ty.isNullable then markPanic
    return (handle, slot)

/-- Variables for all fields of the record `base`, and the field `member` among them. -/
def destructure (cx : Context) (base : Expr) (readBase : LowerM Nat) (member : String) (e : Expr) :
    LowerM (List Nat × Slot) := do
  if ! base.ty.isRecord then throw (.malformed (.fieldOfNonRecord member base))
  let struct ← onTypes (resolve cx.index base.ty)
  let slot ← slotFor cx struct member e
  let slots ← onTypes (slotsOf cx.index struct)
  let whole ← readBase
  let parts ← slots.mapM fun s => temporary cx s.typ
  emit (.destructure whole parts (← note cx))
  return (parts, slot)

/-- A new record with the given parts, of the type of `base`. -/
def construct (cx : Context) (base : Expr) (parts : List Nat) : LowerM Nat := do
  let struct ← onTypes (resolve cx.index base.ty)
  let target ← temporary cx (.struct struct)
  emit (.construct target parts (← note cx))
  return target

/-- The handle for `*pointer`. -/
def readPointer (pointer : Expr) (read : LowerM Nat) (e : Expr) : LowerM Nat := do
  match pointer.ty.indirectBase with
  | none => throw (.malformed (.derefNonPointer pointer))
  | some pointee =>
    check (sameType e.text e.ty pointer.text pointee)
    let handle ← read
    if pointer.ty.isNullable then markPanic
    return handle

/-- The array and the index for `array[index]`. The index is checked when the program runs, so
every access can panic. -/
def readElement (array index : Expr) (readArray readIndex : LowerM Nat) (e : Expr) :
    LowerM (Nat × Nat) := do
  match array.ty with
  | .array base _ =>
    check (sameType e.text e.ty array.text base)
    if ! index.ty.isIntegral then
      throw (.typeMismatch index.text index.ty.text "an array index" (Ty.integer 64).text)
    let array ← readArray
    let index ← readIndex
    markPanic
    return (array, index)
  | _ => throw (.malformed (.indexNonArray array))

/-! ### Reading and writing -/

/-- Reads an operand into a runtime variable. -/
def read (cx : Context) : Expr → LowerM Nat
  | .integer ty value => readInteger cx ty value
  | .real ty value => readReal cx ty value
  | .named ty name => return (← lookup cx name (.named ty name)).id
  | .component ty (.deref rty pointer) member => do
    let (handle, slot) ← fieldThrough cx pointer (read cx pointer) member
      (.component ty (.deref rty pointer) member)
    load cx handle slot.member slot.typ
  | .component ty base member => do
    let (parts, slot) ← destructure cx base (read cx base) member (.component ty base member)
    Build.present slot.index parts[slot.index]?
  | .deref ty pointer => do
    let handle ← readPointer pointer (read cx pointer) (.deref ty pointer)
    load cx handle .whole (← valueType cx ty)
  | .element ty array index => do
    let (array, index) ← readElement array index (read cx array) (read cx index)
      (.element ty array index)
    load cx array (.element index) (← valueType cx ty)
  | .address _ value => throw (.unsupportedConstruct (.addressTaken value))

/-- Writes a runtime variable to the target of an assignment. -/
def write (cx : Context) : Expr → (value : Nat) → LowerM Unit
  | .named ty name, value => do
    assign cx (← lookup cx name (.named ty name)).id value
  | .component ty (.deref rty pointer) member, value => do
    let (handle, slot) ← fieldThrough cx pointer (read cx pointer) member
      (.component ty (.deref rty pointer) member)
    store cx handle slot.member value
  | .component ty base member, value => do
    let (parts, slot) ← destructure cx base (read cx base) member (.component ty base member)
    let parts ← Build.present slot.index (parts[slot.index]?.map fun _ => parts.set slot.index value)
    write cx base (← construct cx base parts)
  | .deref ty pointer, value => do
    let handle ← readPointer pointer (read cx pointer) (.deref ty pointer)
    store cx handle .whole value
  | .element ty array index, value => do
    let (array, index) ← readElement array index (read cx array) (read cx index)
      (.element ty array index)
    store cx array (.element index) value
  | .integer ty value, _ => throw (.malformed (.constantAssigned (.integer ty value)))
  | .real ty value, _ => throw (.malformed (.constantAssigned (.real ty value)))
  | .address ty value, _ => throw (.unsupportedConstruct (.addressAssigned (.address ty value)))

/-- The variable that the result of an operation can be written to directly. -/
def destination (cx : Context) : Expr → LowerM (Option Nat)
  | .named ty name => return some (← lookup cx name (.named ty name)).id
  | _ => return none

end GimpleLowering.Lowering

/-!
# GIMPLE types

The types that occur in the intermediate code of a C compiler. A record without fields is a
*forward reference*: it stands for the definition of that name elsewhere in the unit, which is how
a record can refer to itself. Types are compared structurally, names and fields included, so a
forward reference and its definition are different types here.

## Main definitions

* `Gimple.Ty`, `Gimple.Field` — types and the fields of records
* `Gimple.Ty.Kind` — a type without its parts
* `Gimple.Ty.text` — the C-like notation of messages
* `Gimple.Ty.agrees` — equality that looks through forward references
* `Gimple.Ty.recordCount` — how many record types are written in a type
-/

namespace GimpleLowering.Gimple

mutual

/-- A type of the intermediate code. -/
inductive Ty where
  /-- A signed integer of the given width in bits. -/
  | integer (width : Nat)
  /-- A binary floating-point number of the given width in bits. -/
  | real (width : Nat)
  /-- A truth value, also the result of a comparison. -/
  | boolean
  /-- A native pointer, which may be null. -/
  | pointer (base : Ty)
  /-- A reference, which is never null. -/
  | reference (base : Ty)
  /-- An array of fixed length. -/
  | array (base : Ty) (length : Nat)
  /-- A record with named fields in declaration order. The name is empty for an anonymous one. -/
  | record (name : String) (fields : List Field)

/-- A field of a record. -/
structure Field where
  name : String
  ty : Ty

end

instance : Inhabited Ty := ⟨.boolean⟩

/-! ### Equality -/

mutual

/-- Types are equal when their constructors and all their parts are. -/
def Ty.decEq : (a b : Ty) → Decidable (a = b)
  | .integer w, .integer w' => decidable_of_iff (w = w') (by simp)
  | .real w, .real w' => decidable_of_iff (w = w') (by simp)
  | .boolean, .boolean => isTrue rfl
  | .pointer a, .pointer b =>
    match Ty.decEq a b with
    | isTrue h => isTrue (by rw [h])
    | isFalse h => isFalse (by simpa using h)
  | .reference a, .reference b =>
    match Ty.decEq a b with
    | isTrue h => isTrue (by rw [h])
    | isFalse h => isFalse (by simpa using h)
  | .array a n, .array b m =>
    match Ty.decEq a b with
    | isTrue h => decidable_of_iff (n = m) (by simp [h])
    | isFalse h => isFalse (by simp [h])
  | .record n fs, .record m gs =>
    match Field.listDecEq fs gs with
    | isTrue h => decidable_of_iff (n = m) (by simp [h])
    | isFalse h => isFalse (by simp [h])
  | .integer _, .real _ | .integer _, .boolean | .integer _, .pointer _
  | .integer _, .reference _ | .integer _, .array _ _ | .integer _, .record _ _ => isFalse nofun
  | .real _, .integer _ | .real _, .boolean | .real _, .pointer _
  | .real _, .reference _ | .real _, .array _ _ | .real _, .record _ _ => isFalse nofun
  | .boolean, .integer _ | .boolean, .real _ | .boolean, .pointer _
  | .boolean, .reference _ | .boolean, .array _ _ | .boolean, .record _ _ => isFalse nofun
  | .pointer _, .integer _ | .pointer _, .real _ | .pointer _, .boolean
  | .pointer _, .reference _ | .pointer _, .array _ _ | .pointer _, .record _ _ => isFalse nofun
  | .reference _, .integer _ | .reference _, .real _ | .reference _, .boolean
  | .reference _, .pointer _ | .reference _, .array _ _ | .reference _, .record _ _ =>
    isFalse nofun
  | .array _ _, .integer _ | .array _ _, .real _ | .array _ _, .boolean
  | .array _ _, .pointer _ | .array _ _, .reference _ | .array _ _, .record _ _ => isFalse nofun
  | .record _ _, .integer _ | .record _ _, .real _ | .record _ _, .boolean
  | .record _ _, .pointer _ | .record _ _, .reference _ | .record _ _, .array _ _ => isFalse nofun
termination_by structural a => a

/-- Fields are equal when their names and types are. -/
def Field.decEq : (a b : Field) → Decidable (a = b)
  | ⟨n, t⟩, ⟨m, u⟩ =>
    match Ty.decEq t u with
    | isTrue h => decidable_of_iff (n = m) (by simp [h])
    | isFalse h => isFalse (by simp [h])
termination_by structural a => a

/-- Lists of fields are equal position by position. -/
def Field.listDecEq : (a b : List Field) → Decidable (a = b)
  | [], [] => isTrue rfl
  | [], _ :: _ => isFalse nofun
  | _ :: _, [] => isFalse nofun
  | a :: as, b :: bs =>
    match Field.decEq a b, Field.listDecEq as bs with
    | isTrue h, isTrue h' => isTrue (by rw [h, h'])
    | isFalse h, _ => isFalse (by simp [h])
    | _, isFalse h => isFalse (by simp [h])
termination_by structural a => a

end

instance : DecidableEq Ty := Ty.decEq

instance : DecidableEq Field := Field.decEq

namespace Ty

/-! ### Kinds -/

/-- A type without its parts. -/
inductive Kind where
  | integer | real | boolean | pointer | reference | array | record
  deriving DecidableEq, Repr

/-- The tag of a kind of type in documents. -/
def Kind.tag : Kind → String
  | .integer => "integer_type"
  | .real => "real_type"
  | .boolean => "boolean_type"
  | .pointer => "pointer_type"
  | .reference => "reference_type"
  | .array => "array_type"
  | .record => "record_type"

/-- Every kind of type. -/
def Kind.all : List Kind :=
  [.integer, .real, .boolean, .pointer, .reference, .array, .record]

/-- The kind of a type. -/
def kind : Ty → Kind
  | integer _ => .integer
  | real _ => .real
  | boolean => .boolean
  | pointer _ => .pointer
  | reference _ => .reference
  | array _ _ => .array
  | record _ _ => .record

/-- Integers, reals and truth values. -/
def isScalar : Ty → Bool
  | integer _ | real _ | boolean => true
  | _ => false

/-- Integers of any width. -/
def isIntegral : Ty → Bool
  | integer _ => true
  | _ => false

/-- Reals of any width. -/
def isReal : Ty → Bool
  | real _ => true
  | _ => false

/-- Records, defined or not. -/
def isRecord : Ty → Bool
  | record _ _ => true
  | _ => false

/-- Only pointers can be null. -/
def isNullable : Ty → Bool
  | pointer _ => true
  | _ => false

/-- What a pointer or a reference refers to. -/
def indirectBase : Ty → Option Ty
  | pointer base | reference base => some base
  | _ => none

/-- Pointers and references. -/
def isIndirect (ty : Ty) : Bool := ty.indirectBase.isSome

/-- A pointer or reference to a type of the given kind. -/
def isPointerTo (ty : Ty) (kind : Kind) : Bool := ty.indirectBase.any fun base => base.kind = kind

/-- A record without fields, which stands for a definition elsewhere. -/
def isForwardRecord : Ty → Bool
  | record _ [] => true
  | _ => false

/-- The fields of a record. -/
def recordFields : Ty → Option (List Field)
  | record _ fields => some fields
  | _ => none

/-- The fields of a record, and none for any other type. -/
def fields (ty : Ty) : List Field := ty.recordFields.getD []

/-- The name of a record, which is empty for an anonymous one and for any other type. -/
def recordName : Ty → String
  | record name _ => name
  | _ => ""

/-! ### Text -/

mutual

/-- The type in a C-like notation. A named record is shown by its name alone. -/
def text : Ty → String
  | integer width => "int" ++ toString width
  | real width => "real" ++ toString width
  | boolean => "bool"
  | pointer base => base.text ++ "*"
  | reference base => base.text ++ "&"
  | array base length => base.text ++ "[" ++ toString length ++ "]"
  | record name fields =>
    if name = "" then "struct \x7b " ++ ", ".intercalate (fieldTexts fields) ++ " \x7d"
    else "struct " ++ name
termination_by structural ty => ty

/-- The fields of a record, each as a name and a type. -/
def fieldTexts : List Field → List String
  | [] => []
  | ⟨name, ty⟩ :: rest => (name ++ ": " ++ ty.text) :: fieldTexts rest
termination_by structural fs => fs

end

instance : ToString Ty := ⟨text⟩

/-! ### Agreement -/

mutual

/-- Two types agree if they are equal, except that a forward reference to a named record agrees
with every record of that name. -/
def agrees : Ty → Ty → Bool
  | record n fs, record m gs =>
    if n ≠ m then false
    else if n ≠ "" ∧ (fs.isEmpty ∨ gs.isEmpty) then true
    else fieldsAgree fs gs
  | pointer a, pointer b => agrees a b
  | reference a, reference b => agrees a b
  | array a n, array b m => n = m && agrees a b
  | integer n, integer m => n = m
  | real n, real m => n = m
  | boolean, boolean => true
  | _, _ => false
termination_by structural a => a

/-- Fields agree position by position, with equal names. -/
def fieldsAgree : List Field → List Field → Bool
  | [], [] => true
  | ⟨n, a⟩ :: fs, ⟨m, b⟩ :: gs => n = m && agrees a b && fieldsAgree fs gs
  | _, _ => false
termination_by structural fs => fs

end

/-! ### Size -/

mutual

/-- The number of record types written in a type, itself included. -/
def recordCount : Ty → Nat
  | record _ fields => 1 + recordCounts fields
  | pointer base => base.recordCount
  | reference base => base.recordCount
  | array base _ => base.recordCount
  | _ => 0
termination_by structural ty => ty

/-- The number of record types written in the types of fields. -/
def recordCounts : List Field → Nat
  | [] => 0
  | ⟨_, ty⟩ :: rest => ty.recordCount + recordCounts rest
termination_by structural fs => fs

end

/-- The number of record types written in the types of a list. -/
def recordTotal : List Ty → Nat
  | [] => 0
  | ty :: rest => ty.recordCount + recordTotal rest

end Ty

end GimpleLowering.Gimple

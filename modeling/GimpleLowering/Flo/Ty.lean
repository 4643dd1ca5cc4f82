/-!
# Runtime types

The types of variables of the managed runtime. Scalars and structs are held by value; arrays are
always shared by reference; a handle is a managed reference to a value of its pointee type. Array
and struct types are named by their ids in the type tables of an object.
-/

namespace GimpleLowering.Flo

/-- The type of a runtime variable. -/
inductive Ty where
  | bool
  | signed32
  | signed64
  | double
  /-- A managed array, by the id of its array type. -/
  | array (id : Nat)
  /-- A struct held by value, by the id of its struct type. -/
  | struct (id : Nat)
  /-- A managed reference, which may be null if it is nullable. -/
  | handle (pointee : Ty) (nullable : Bool)
  /-- The type of entries that stand for nothing. -/
  | unspecified
  deriving DecidableEq, Repr, Inhabited

namespace Ty

/-- The runtime integers. -/
def isInteger : Ty → Bool
  | signed32 | signed64 => true
  | _ => false

/-- A type in messages. -/
def text : Ty → String
  | bool => "Bool"
  | signed32 => "Signed32"
  | signed64 => "Signed64"
  | double => "Double"
  | array id => "Array(" ++ toString id ++ ")"
  | struct id => "Struct(" ++ toString id ++ ")"
  | handle pointee nullable =>
    "Handle(HandleType \x7b pointee: " ++ pointee.text ++ ", nullable: " ++ toString nullable
      ++ " \x7d)"
  | unspecified => "Unspecified"

/-- A list of types in messages. -/
def listText (tys : List Ty) : String := "[" ++ ", ".intercalate (tys.map text) ++ "]"

end Ty

end GimpleLowering.Flo

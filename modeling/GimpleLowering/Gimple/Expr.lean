import GimpleLowering.Gimple.Ty
import GimpleLowering.Number.Shortest

/-!
# Operands

An operand is a constant, a variable, or a path to a part of one. Every operand carries the type
of its value.
-/

namespace GimpleLowering.Gimple

/-- An operand of a statement. -/
inductive Expr where
  | integer (ty : Ty) (value : Int)
  | real (ty : Ty) (value : Double)
  /-- A parameter, a local variable or a global, by name. -/
  | named (ty : Ty) (name : String)
  /-- The field `member` of a record. -/
  | component (ty : Ty) (value : Expr) (member : String)
  /-- What a pointer points to. -/
  | deref (ty : Ty) (pointer : Expr)
  /-- An element of an array. -/
  | element (ty : Ty) (array index : Expr)
  /-- The address of an operand. -/
  | address (ty : Ty) (value : Expr)
  deriving DecidableEq, Inhabited

namespace Expr

/-- The type of the operand's value. -/
def ty : Expr → Ty
  | integer ty _ | real ty _ | named ty _ | component ty _ _ | deref ty _ | element ty _ _
  | address ty _ => ty

/-- Integer and real constants. -/
def isConstant : Expr → Bool
  | integer _ _ | real _ _ => true
  | _ => false

/-- The operand in C notation. -/
def text : Expr → String
  | integer _ value => toString value
  | real _ value => value.text .constant
  | named _ name => name
  | component _ (deref _ pointer) member => pointer.text ++ "->" ++ member
  | component _ value member => value.text ++ "." ++ member
  | deref _ pointer => "*" ++ pointer.text
  | element _ array index => array.text ++ "[" ++ index.text ++ "]"
  | address _ value => "&" ++ value.text

instance : ToString Expr := ⟨text⟩

end Expr

end GimpleLowering.Gimple

import GimpleLowering.Flo.Object
import GimpleLowering.Sexpr.Fields
import GimpleLowering.Sexpr.Reader

/-!
# Reading objects from text

Reading undoes writing (`Flo.Text.Writer`) and is more generous: blanks may be wider, fields may
come in any order and be missing where a value is optional, unknown fields are skipped, and
numbers may have a plus sign and leading zeros. An object that is read must be complete.

## Main definitions

* `Flo.Object.ofSexpr` — the object that an s-expression describes
* `Flo.Object.ofText` — the object of a text, or the reason why there is none
-/

namespace GimpleLowering.Flo

open Sexpr Sexpr.Fields

/-- A list of ids. -/
def readIds : Reads (List Nat) := asList asWord64

/-- Whether and why an entry is unusable. -/
def Poison.ofSexpr : Reads Poison :=
  asVariant [("None", .unit .usable), ("Poison", .one fun s => Poison.because <$> asText s),
    ("Undefined", .unit .undefined), ("NullInternedValue", .unit .nullEntry)]

/-- A runtime type, with at most `calls` types inside each other. -/
def Ty.ofSexprWithin : (calls : Nat) → Reads Ty
  | 0 => fun s => .error (.isNot s "enum")
  | calls + 1 =>
    asVariant [("Bool", .unit .bool), ("Signed32", .unit .signed32),
      ("Signed64", .unit .signed64), ("Double", .unit .double),
      ("Array", .one fun s => Ty.array <$> asWord64 s),
      ("Struct", .one fun s => Ty.struct <$> asWord64 s),
      ("Handle", .one (record (Ty.handle <$> required "pointee" (ofSexprWithin calls)
        <*> required "nullable" asBool))),
      ("Unspecified", .unit .unspecified)]

/-- A runtime type. Its types lie inside each other no deeper than its lists. -/
def Ty.ofSexpr : Reads Ty := fun s => Ty.ofSexprWithin (s.depth + 1) s

/-- The signature of a function. -/
def Signature.ofSexpr : Reads Signature :=
  record (Signature.mk <$> required "params" readIds <*> required "returns" readIds
    <*> required "can_panic" asBool <*> optional "location" asWord64)

/-- The end of a block. -/
def BlockExit.ofSexpr : Reads BlockExit :=
  asVariant [("Return", .one fun s => BlockExit.ret <$> readIds s),
    ("Panic", .two "BlockExit::Panic" fun s => do
      let message ← asText s
      return fun s' => BlockExit.panic message <$> readIds s'),
    ("Goto", .one fun s => BlockExit.goto <$> asWord64 s),
    ("Match", .one fun s => BlockExit.branch <$> readIds s),
    ("Unspecified", .unit .unspecified)]

/-- A block. -/
def Block.ofSexpr : Reads Block :=
  record (Block.mk <$> optional "signature" Signature.ofSexpr <*> required "poison" Poison.ofSexpr
    <*> required "statements" readIds <*> required "exit" BlockExit.ofSexpr
    <*> required "diagnostics" readIds)

/-- The part of an object that is accessed. -/
def Member.ofSexpr : Reads Member :=
  asVariant [("Whole", .unit .whole), ("Field", .one fun s => Member.field <$> asWord64 s),
    ("Element", .one fun s => Member.element <$> asWord64 s)]

/-- The target of a call or an arm. -/
def BlockRef.ofSexpr : Reads BlockRef :=
  asVariant [("Local", .one fun s => BlockRef.here <$> asWord64 s),
    ("External", .one fun s => BlockRef.external <$> asText s),
    ("Builtin", .one fun s => BlockRef.builtin <$> asText s),
    ("Unspecified", .unit .unspecified)]

/-- The diagnostics and the location at the end of a statement. -/
def Note.fields : Fields Note :=
  Note.mk <$> required "diagnostics" readIds <*> optional "location" asWord64

/-- A constant. Its type may be read, but its value never is. -/
def Constant.ofSexpr : Reads Constant :=
  record (Constant.mk <$> required "value" (fun _ => .error .wideInteger)
    <*> required "typ" Ty.ofSexpr)

/-- A statement. -/
def Statement.ofSexpr : Reads Statement :=
  asVariant [
    ("AssignConst", .one (record (Statement.assignConst <$> required "variable" asWord64
      <*> required "value" Constant.ofSexpr <*> Note.fields))),
    ("Assign", .one (record (Statement.assign <$> required "target" asWord64
      <*> required "source" asWord64 <*> Note.fields))),
    ("Call", .one (record (Statement.call <$> required "block" BlockRef.ofSexpr
      <*> required "input" readIds <*> required "outputs" readIds <*> Note.fields))),
    ("Construct", .one (record (Statement.construct <$> required "target" asWord64
      <*> required "initializer" readIds <*> Note.fields))),
    ("Destructure", .one (record (Statement.destructure <$> required "whole" asWord64
      <*> required "parts" readIds <*> Note.fields))),
    ("Load", .one (record (Statement.load <$> required "handle" asWord64
      <*> required "member" Member.ofSexpr <*> required "target" asWord64 <*> Note.fields))),
    ("Store", .one (record (Statement.store <$> required "handle" asWord64
      <*> required "member" Member.ofSexpr <*> required "value" asWord64 <*> Note.fields))),
    ("Poisoned", .one fun s => Statement.poisoned <$> Poison.ofSexpr s)]

/-- A match arm. -/
def MatchArm.ofSexpr : Reads MatchArm :=
  record (MatchArm.mk <$> required "condition" asWord64
    <*> required "target_block" BlockRef.ofSexpr <*> required "poison" Poison.ofSexpr
    <*> required "diagnostics" readIds <*> optional "location" asWord64)

/-- Where a variable is stored. -/
def Linkage.ofSexpr : Reads Linkage :=
  asVariant [("Local", .unit .frame), ("External", .one fun s => Linkage.external <$> asText s),
    ("Unspecified", .unit .unspecified)]

/-- A variable. -/
def Variable.ofSexpr : Reads Variable :=
  record (Variable.mk <$> required "typ" Ty.ofSexpr <*> required "linkage" Linkage.ofSexpr
    <*> required "poison" Poison.ofSexpr <*> required "diagnostics" readIds
    <*> optional "location" asWord64)

/-- An array type. -/
def ArrayType.ofSexpr : Reads ArrayType :=
  record (ArrayType.mk <$> required "member_type" Ty.ofSexpr <*> required "length" asWord64
    <*> required "poison" Poison.ofSexpr)

/-- A struct type. -/
def StructType.ofSexpr : Reads StructType :=
  record (StructType.mk <$> required "name" asText <*> required "member_names" (asList asText)
    <*> required "members" (asList Ty.ofSexpr) <*> required "poison" Poison.ofSexpr)

/-- A diagnostic. -/
def Diagnostic.ofSexpr : Reads Diagnostic :=
  record (Diagnostic.mk <$> required "message" asText <*> required "poison" Poison.ofSexpr
    <*> optional "location" asWord64)

/-- A source position. -/
def Location.ofSexpr : Reads Location :=
  record (Location.mk <$> required "source" asText <*> optional "line" asLine
    <*> required "poison" Poison.ofSexpr)

/-- A table. Nothing is asked of its entry at id 0. -/
def Table.ofSexpr (read : Reads α) : Reads (Table α) :=
  record ((fun xs => ⟨xs.toArray⟩) <$> required "entries" (asList read))

/-- The exported names. Of two pairs that share a side the later one stays. -/
def readSymbols : Reads (Pairing String Nat) :=
  record (Pairing.ofList <$> required "code" (asMap asWord64))

/-- The array and struct types. -/
def TypeTables.ofSexpr : Reads TypeTables :=
  record (TypeTables.mk <$> required "arrays" (Table.ofSexpr ArrayType.ofSexpr)
    <*> required "structs" (Table.ofSexpr StructType.ofSexpr))

/-- An object. -/
def Object.ofSexpr : Reads Object :=
  record (Object.mk <$> required "module_name" asText <*> required "symbols" readSymbols
    <*> required "blocks" (Table.ofSexpr Block.ofSexpr)
    <*> required "statements" (Table.ofSexpr Statement.ofSexpr)
    <*> required "match_arms" (Table.ofSexpr MatchArm.ofSexpr)
    <*> required "variables" (Table.ofSexpr Variable.ofSexpr)
    <*> required "types" TypeTables.ofSexpr
    <*> required "diagnostics" (Table.ofSexpr Diagnostic.ofSexpr)
    <*> required "locations" (Table.ofSexpr Location.ofSexpr))

/-- Why a text has no object. -/
inductive ReadFailure where
  /-- The text does not describe an object. -/
  | defect (e : Sexpr.Defect)
  /-- Code of the object can reach a poisoned entry. -/
  | incomplete (object : Object)

/-- The words for why a text has no object. -/
def ReadFailure.message : ReadFailure → String
  | defect e => e.message
  | incomplete o => o.incompleteText

/-- The complete object that a text describes. -/
def Object.ofText (text : String) : Except ReadFailure Object :=
  match Sexpr.ofText? text with
  | none => .error (.defect .unreadable)
  | some s =>
    match Object.ofSexpr s with
    | .error e => .error (.defect e)
    | .ok o => if o.isComplete then .ok o else .error (.incomplete o)

end GimpleLowering.Flo

import GimpleLowering.Json.Document
import GimpleLowering.Number.Shortest
import GimpleLowering.Text.Quoted

/-!
# What can be wrong with a document

A reader that expects one thing and finds another names both. `Defect` lists the ways in which a
document can fail its reader, and `Defect.message` puts each into words.
-/

namespace GimpleLowering.Json

/-- What stands in a document, as far as a message tells it. -/
inductive Found where
  | null
  | boolean (value : Bool)
  | integer (value : Int)
  | double (value : Double)
  | string (value : String)
  | sequence
  | map
  deriving DecidableEq, Repr

namespace Found

/-- The words for what was found. -/
def text : Found → String
  | null => "null"
  | boolean true => "boolean `true`"
  | boolean false => "boolean `false`"
  | integer i => "integer `" ++ toString i ++ "`"
  | double d => "floating point `" ++ d.text .document ++ "`"
  | string s => "string " ++ Text.quoted s
  | sequence => "sequence"
  | map => "map"

end Found

/-- The ways in which a document fails its reader. -/
inductive Defect where
  /-- The text is no JSON, or is nested too deep, or holds a number or string without meaning. -/
  | notJson
  /-- A field that has to be there is not. -/
  | missingField (name : String)
  /-- A field is there twice, under one name or under two. -/
  | duplicateField (name : String)
  /-- A name stands where only some names are known. -/
  | unknownVariant (name : String) (known : List String)
  /-- A value of another kind stands there. -/
  | wrongType (found : Found) (wanted : String)
  /-- A value of the right kind is out of range. -/
  | wrongValue (found : Found) (wanted : String)
  /-- A list of fields stops early, or a list that has been taken in goes on too long. -/
  | wrongLength (length : Nat) (wanted : String)
  deriving DecidableEq, Repr

namespace Defect

/-- Names in backquotes, separated by commas. -/
def nameList (names : List String) : String :=
  ", ".intercalate (names.map fun n => "`" ++ n ++ "`")

/-- The words for a defect. -/
def message : Defect → String
  | notJson => "invalid JSON"
  | missingField name => "missing field `" ++ name ++ "`"
  | duplicateField name => "duplicate field `" ++ name ++ "`"
  | unknownVariant name known =>
    "unknown variant `" ++ name ++ "`, expected one of " ++ nameList known
  | wrongType found wanted => "invalid type: " ++ found.text ++ ", expected " ++ wanted
  | wrongValue found wanted => "invalid value: " ++ found.text ++ ", expected " ++ wanted
  | wrongLength length wanted =>
    "invalid length " ++ toString length ++ ", expected " ++ wanted

end Defect

namespace Document

/-- The defect of a document that stands where something else is wanted. A document that has no
meaning at all is no JSON, whatever is wanted. -/
def mismatch (d : Document) (wanted : String) : Defect :=
  match d with
  | .null => .wrongType .null wanted
  | .bool b => .wrongType (.boolean b) wanted
  | .number n =>
    match n.reading with
    | some (.integer i) => .wrongType (.integer i) wanted
    | some (.double x) => .wrongType (.double x) wanted
    | none => .notJson
  | .string (some s) => .wrongType (.string s) wanted
  | .string none => .notJson
  | .array _ _ => .wrongType .sequence wanted
  | .object _ _ => .wrongType .map wanted
  | .broken => .notJson

end Document

end GimpleLowering.Json

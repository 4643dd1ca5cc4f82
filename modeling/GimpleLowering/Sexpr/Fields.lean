import GimpleLowering.Sexpr.Basic
import GimpleLowering.Text.First

/-!
# Reading records from s-expressions

A record is a list of pairs of a field name and a value, an alternative is a symbol or a list that
begins with its name. As with documents, the first defect in text order is the one reported, and
missing fields are noticed at the end (`First`).

## Main definitions

* `Sexpr.Defect` — what can be wrong, with `Sexpr.Defect.message`
* `Sexpr.Fields` — the fields of a record, with `Fields.required` and `Fields.optional`
* `Sexpr.asText`, `asNat`, `asBool`, `asList`, `asVariant` — single values
-/

namespace GimpleLowering.Sexpr

/-- The ways in which an s-expression fails its reader. -/
inductive Defect where
  /-- The text is no s-expression. -/
  | unreadable
  /-- Something else stands where a value of some kind is wanted. -/
  | isNot (value : Sexpr) (kind : String)
  /-- A field that has to be there is not. -/
  | missingField (name : String)
  /-- A field is there twice. -/
  | duplicateField (name : String)
  /-- A name stands where only some names are known. -/
  | unknownVariant (name : String) (known : List String)
  /-- An alternative with several parts has too few of them. -/
  | wrongLength (length : Nat) (wanted : String)
  /-- An alternative with parts stands alone. -/
  | withoutParts (wanted : String)
  /-- A line number is zero. -/
  | zeroLine
  /-- The value of a constant, which has no text. -/
  | wideInteger

namespace Defect

/-- The words for a defect. -/
def message : Defect → String
  | unreadable => "parsing s-expression failed"
  | isNot value kind => value.text ++ " is not a " ++ kind
  | missingField name => "missing field `" ++ name ++ "`"
  | duplicateField name => "duplicate field `" ++ name ++ "`"
  | unknownVariant name known =>
    "unknown variant `" ++ name ++ "`, expected one of "
      ++ ", ".intercalate (known.map fun n => "`" ++ n ++ "`")
  | wrongLength length wanted => "invalid length " ++ toString length ++ ", expected " ++ wanted
  | withoutParts wanted => "invalid type: unit variant, expected " ++ wanted
  | zeroLine => "invalid value: integer `0`, expected a nonzero u32"
  | wideInteger => "u128 is not supported"

end Defect

/-- A reader of one kind of value. -/
abbrev Reads (α : Type) : Type := Sexpr → Except Defect α

/-! ### Single values -/

/-- A symbol. -/
def asText : Reads String
  | .symbol name => .ok name
  | s => .error (.isNot s "string")

/-- The value of a row of decimal digits, after an optional plus sign. -/
def digits? (s : List Char) : Option Nat :=
  let ds :=
    match s with
    | '+' :: rest => rest
    | s => s
  if ds.isEmpty ∨ ds.any (fun c => ¬ ('0' ≤ c ∧ c ≤ '9')) then none
  else some (ds.foldl (fun n c => 10 * n + (c.toNat - 48)) 0)

/-- A natural number below `bound`, called `kind` in messages. -/
def asNat (bound : Nat) (kind : String) : Reads Nat
  | .symbol name =>
    match digits? name.toList with
    | some n => if n < bound then .ok n else .error (.isNot (.symbol name) kind)
    | none => .error (.isNot (.symbol name) kind)
  | s => .error (.isNot s kind)

/-- A natural number of sixty-four bits. -/
def asWord64 : Reads Nat := asNat 18446744073709551616 "u64"

/-- A positive number of thirty-two bits. -/
def asLine : Reads Nat := fun s => do
  let n ← asNat 4294967296 "u32" s
  if n = 0 then .error .zeroLine else .ok n

/-- A truth value. -/
def asBool : Reads Bool
  | .symbol "true" => .ok true
  | .symbol "false" => .ok false
  | s => .error (.isNot s "bool")

/-- The elements of a list. -/
def asList (read : Reads α) : Reads (List α)
  | .list items => items.mapM read
  | s => .error (.isNot s "sequence")

/-- Nothing for the empty list, and a value otherwise. -/
def asOption (read : Reads α) : Reads (Option α)
  | .list [] => .ok none
  | s => (read s).map some

/-! ### Records -/

/-- The pairs of a list up to the first element that is none, with the defect of that element. -/
def pairs : List Sexpr → List (String × Sexpr) × Option Defect
  | [] => ([], none)
  | .list [.symbol key, value] :: rest =>
    let (ps, defect) := pairs rest
    ((key, value) :: ps, defect)
  | .list [key, _] :: _ => ([], some (.isNot key "string"))
  | s :: _ => ([], some (.isNot s "pair"))

/-- The pairs of a map. -/
def asMap (read : Reads α) : Reads (List (String × α))
  | .list items => do
    let (ps, defect) := pairs items
    let values ← ps.mapM fun (key, value) => do return (key, ← read value)
    match defect with
    | none => .ok values
    | some e => .error e
  | s => .error (.isNot s "map")

/-- The positions and values of the fields with a name. -/
def occurrences (name : String) : Nat → List (String × Sexpr) → List (Nat × Sexpr)
  | _, [] => []
  | i, (key, value) :: rest =>
    if key = name then (i, value) :: occurrences name (i + 1) rest
    else occurrences name (i + 1) rest

/-- Some fields of a record, read from the pairs in a list of `total` elements. -/
structure Fields (α : Type) where
  read : (total : Nat) → List (String × Sexpr) → First Defect α

namespace Fields

/-- A field that is read as `absent` if it is missing. -/
def field (name : String) (read : Reads α) (absent : Option α) : Fields α :=
  ⟨fun total ps =>
    match occurrences name 0 ps with
    | [] =>
      match absent with
      | some a => pure a
      | none => .defect (total + 1) (.missingField name)
    | [(i, s)] => .located i (read s)
    | (i, s) :: (j, _) :: _ =>
      (fun a _ => a) <$> First.located i (read s)
        <*> (First.defect j (.duplicateField name) : First Defect Unit)⟩

/-- A field that has to be there. -/
def required (name : String) (read : Reads α) : Fields α := field name read none

/-- A field that may be missing or empty. -/
def optional (name : String) (read : Reads α) : Fields (Option α) :=
  field name (asOption read) (some none)

instance : Applicative Fields where
  pure a := ⟨fun _ _ => pure a⟩
  seq f x := ⟨fun total ps => f.read total ps <*> (x ()).read total ps⟩

/-- A record with the given fields. Fields of other names are skipped. -/
def record (fs : Fields α) : Reads α
  | .list items =>
    let (ps, defect) := pairs items
    let wellFormed : First Defect Unit :=
      match defect with
      | none => pure ()
      | some e => .defect ps.length e
    ((fun _ a => a) <$> wellFormed <*> fs.read items.length ps).outcome
  | s => .error (.isNot s "map")

end Fields

/-! ### Alternatives -/

/-- How the parts of one alternative are read. -/
inductive Alternative (α : Type) where
  /-- It has no parts. -/
  | unit (value : α)
  /-- It has one part. -/
  | one (read : Reads α)
  /-- It has two parts; `title` is its name in messages. -/
  | two (title : String) (read : Sexpr → Except Defect (Sexpr → Except Defect α))

namespace Alternative

/-- An alternative whose name stands alone. -/
def alone : Alternative α → Except Defect α
  | unit value => .ok value
  | one _ => .error (.withoutParts "newtype variant")
  | two _ _ => .error (.withoutParts "tuple variant")

/-- An alternative whose name is followed by parts. Parts too many are skipped. -/
def ofParts (a : Alternative α) (parts : List Sexpr) : Except Defect α :=
  match a, parts with
  | unit value, _ => .ok value
  | one read, s :: _ => read s
  | one _, [] => .error (.withoutParts "newtype variant")
  | two title _, [] => .error (.wrongLength 0 ("tuple variant " ++ title ++ " with 2 elements"))
  | two title read, s :: rest => do
    let readSecond ← read s
    match rest with
    | s' :: _ => readSecond s'
    | [] => .error (.wrongLength 1 ("tuple variant " ++ title ++ " with 2 elements"))

end Alternative

/-- One of several alternatives, by name. -/
def asVariant (alternatives : List (String × Alternative α)) : Reads α := fun s =>
  let find (name : String) : Except Defect (Alternative α) :=
    match alternatives.lookup name with
    | some a => .ok a
    | none => .error (.unknownVariant name (alternatives.map Prod.fst))
  match s with
  | .symbol name => do (← find name).alone
  | .list [] => .error (.isNot s "enum")
  | .list (.symbol name :: parts) => do (← find name).ofParts parts
  | .list (head :: _) => .error (.isNot head "string")

end GimpleLowering.Sexpr

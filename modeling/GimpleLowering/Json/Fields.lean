import GimpleLowering.Json.Defect
import GimpleLowering.Text.First

/-!
# Reading records from documents

A record is written as an object of named fields or as an array of its fields in declaration
order. `Fields α` says once which fields a record has and how each is read, and `Fields.record`
reads a record from either form.

The first defect in text order wins. Since an object may give its fields in any order, every
reading of a part carries its position (`First`), and combining two readings keeps the defect that
stands further to the front. Fields that are missing are noticed at the end of the record, in
declaration order.

A tagged object is taken in as a whole before its fields are read (`Document.takeTag`). Inside of
it an alternative may also be given by its position instead of its name.

## Main definitions

* `Json.Fields` — the fields of a record, with `Fields.required`, `defaulted` and `optional`
* `Json.Fields.record`, `Json.Document.takeTag` — a record, and a tagged object up to its fields
* `Json.Document.asText`, `asInteger`, `asDouble`, `asList`, `asOption` — single values
-/

namespace GimpleLowering.Json

/-! ### Single values -/

namespace Document

/-- A string. -/
def asText : Document → Except Defect String
  | .string (some s) => .ok s
  | d => .error (d.mismatch "a string")

/-- An integer from `low` up to and including `high`, called `wanted` in messages. -/
def asInteger (low high : Int) (wanted : String) : Document → Except Defect Int
  | .number n =>
    match n.reading with
    | some (.integer i) =>
      if low ≤ i ∧ i ≤ high then .ok i else .error (.wrongValue (.integer i) wanted)
    | _ => .error ((Document.number n).mismatch wanted)
  | d => .error (d.mismatch wanted)

/-- A natural number of thirty-two bits. -/
def asWord32 (d : Document) : Except Defect Nat :=
  (d.asInteger 0 4294967295 "u32").map Int.toNat

/-- A natural number of sixty-four bits. -/
def asWord64 (d : Document) : Except Defect Nat :=
  (d.asInteger 0 18446744073709551615 "usize").map Int.toNat

/-- A signed integer of sixty-four bits. -/
def asSigned64 (d : Document) : Except Defect Int :=
  d.asInteger (-9223372036854775808) 9223372036854775807 "i64"

/-- A binary64 number, which may be written as an integer. -/
def asDouble : Document → Except Defect Double
  | .number n =>
    match n.reading with
    | some (.integer i) => .ok (.ofInt i)
    | some (.double x) => .ok x
    | none => .error .notJson
  | d => .error (d.mismatch "f64")

/-- The items of an array, read in order. -/
def asList (read : Nat → Document → Except Defect α) (depth : Nat) :
    Document → Except Defect (List α)
  | .array items closed =>
    match depth with
    | 0 => .error .notJson
    | depth + 1 => do
      let values ← items.mapM (read depth)
      if closed then .ok values else .error .notJson
  | d => .error (d.mismatch "a sequence")

/-- Nothing for `null`, and a value otherwise. -/
def asOption (read : Document → Except Defect α) : Document → Except Defect (Option α)
  | .null => .ok none
  | d => (read d).map some

end Document

/-! ### Frames -/

/-- The parts of a record as they stand in the text. -/
inductive Frame where
  /-- Named fields in the order of the text. -/
  | members (members : List (Option String × Document)) (closed : Bool)
  /-- Fields in declaration order; `wanted` describes the record in messages. -/
  | items (items : List Document) (closed : Bool) (wanted : String)

namespace Frame

/-- The positions and values of the members with one of the given names. -/
def occurrences (names : List String) :
    Nat → List (Option String × Document) → List (Nat × Document)
  | _, [] => []
  | i, (key, d) :: rest =>
    if names.any fun n => key = some n then (i, d) :: occurrences names (i + 1) rest
    else occurrences names (i + 1) rest

/-- The field with the given names, the first being the one that messages use, which stands at
`index` if the record is written as an array. A field that is not there is read as `absent`,
which is noticed only after everything else. -/
def field (names : List String) (read : Document → Except Defect α) (absent : Option α)
    (frame : Frame) (index : Nat) : First Defect α :=
  let name := names.headD ""
  match frame with
  | members ms _ =>
    match occurrences names 0 ms with
    | [] =>
      match absent with
      | some a => pure a
      | none => .defect (ms.length + 1) (.missingField name)
    | [(i, d)] => .located i (read d)
    | (i, d) :: (j, _) :: _ =>
      (fun a _ => a) <$> First.located i (read d)
        <*> (First.defect j (.duplicateField name) : First Defect Unit)
  | items ds _ wanted =>
    match ds[index]? with
    | some d => .located index (read d)
    | none =>
      match absent with
      | some a => pure a
      | none => .defect (ds.length + 1) (.wrongLength index wanted)

/-- The first member whose key is no text, or that nobody knows and that is no JSON. -/
def strayDefect (known : List String) : Nat → List (Option String × Document) → First Defect Unit
  | _, [] => pure ()
  | i, (none, _) :: _ => .defect i .notJson
  | i, (some key, d) :: rest =>
    if known.contains key || d.isClosed then strayDefect known (i + 1) rest
    else .defect i .notJson

/-- What is wrong with a frame apart from its known fields: stray members that are no JSON, a
bracket that is not closed, and more items than there are fields. Surplus items make the text
unreadable while it is being read, and are counted if it has been taken in before. -/
def check (known : List String) (arity : Nat) (takenIn : Bool) : Frame → First Defect Unit
  | members ms closed =>
    (fun _ _ => ()) <$> strayDefect known 0 ms
      <*> if closed then (pure () : First Defect Unit) else .defect ms.length .notJson
  | items ds closed _ =>
    if arity < ds.length then
      let plural := if arity = 1 then "" else "s"
      .defect arity <|
        if takenIn then
          .wrongLength ds.length (toString arity ++ " element" ++ plural ++ " in sequence")
        else .notJson
    else if closed then pure ()
    else .defect ds.length .notJson

end Frame

/-! ### Fields -/

/-- Some fields of a record in declaration order: their names, and how they are read from a frame
in which the first of them has the given index. -/
structure Fields (α : Type) where
  names : List (List String)
  read : Frame → Nat → First Defect α

namespace Fields

/-- A field that has to be there. -/
def required (names : List String) (read : Document → Except Defect α) : Fields α :=
  ⟨[names], Frame.field names read none⟩

/-- A field that may be missing. -/
def defaulted (names : List String) (read : Document → Except Defect α) (absent : α) : Fields α :=
  ⟨[names], Frame.field names read (some absent)⟩

/-- A field that may be missing or `null`. -/
def optional (names : List String) (read : Document → Except Defect α) : Fields (Option α) :=
  defaulted names (Document.asOption read) none

instance : Applicative Fields where
  pure a := ⟨[], fun _ _ => pure a⟩
  seq f x :=
    let x := x ()
    ⟨f.names ++ x.names, fun frame i => f.read frame i <*> x.read frame (i + f.names.length)⟩

/-- The number of fields. -/
def arity (fs : Fields α) : Nat := fs.names.length

/-- The description of a record in messages about its length. -/
def wanted (fs : Fields α) (title : String) : String :=
  title ++ " with " ++ toString fs.arity ++ if fs.arity = 1 then " element" else " elements"

/-- The fields read from a frame. -/
def ofFrame (fs : Fields α) (takenIn : Bool) (frame : Frame) : Except Defect α :=
  ((fun _ a => a) <$> frame.check fs.names.flatten fs.arity takenIn <*> fs.read frame 0).outcome

/-- A record called `title` in messages, with fields whose own parts may be nested `depth` deep
inside. -/
def record (title : String) (fields : Nat → Fields α) (takenIn : Bool) (depth : Nat)
    (d : Document) : Except Defect α :=
  match d, depth with
  | .object _ _, 0 => .error .notJson
  | .array _ _, 0 => .error .notJson
  | .object ms closed, depth + 1 => (fields depth).ofFrame takenIn (.members ms closed)
  | .array ds closed, depth + 1 =>
    (fields depth).ofFrame takenIn (.items ds closed ((fields depth).wanted title))
  | d, _ => .error (d.mismatch title)

end Fields

/-! ### Names and tags -/

/-- A set of alternatives in order, each with its names. `known` is the list of names that
messages show. -/
structure Variants (τ : Type) where
  names : List (String × τ)
  known : List String
  all : List τ

namespace Variants

/-- The alternative with the given name. -/
def ofName (vs : Variants τ) (name : String) : Except Defect τ :=
  match vs.names.lookup name with
  | some t => .ok t
  | none => .error (.unknownVariant name vs.known)

/-- The alternative at the given position. -/
def ofIndex (vs : Variants τ) (index : Nat) : Except Defect τ :=
  match vs.all[index]? with
  | some t => .ok t
  | none =>
    .error (.wrongValue (.integer index)
      ("variant index 0 <= i < " ++ toString vs.all.length))

/-- The alternative that a document names, or gives the position of if it has been taken in. -/
def read (vs : Variants τ) (takenIn : Bool) (d : Document) : Except Defect τ :=
  match d with
  | .string (some name) => vs.ofName name
  | .number (.integer false n) =>
    if takenIn && n < 18446744073709551616 then vs.ofIndex n
    else .error (d.mismatch "variant identifier")
  | d => .error (d.mismatch "variant identifier")

end Variants

/-- What a tagged object holds beside its tag. -/
inductive Payload where
  | members (members : List (Option String × Document))
  | items (items : List Document)

namespace Payload

/-- The fields of a record called `title` in messages. -/
def fields (p : Payload) (title : String) (fs : Fields α) : Except Defect α :=
  match p with
  | members ms => fs.ofFrame true (.members ms true)
  | items ds => fs.ofFrame true (.items ds true (fs.wanted title))

end Payload

namespace Document

/-- The tag among the members of an object, and the members beside it. All of them are taken in,
in text order. -/
def splitTag (tag : String) (read : Document → Except Defect τ) (depth : Nat) :
    List (Option String × Document) → Option τ →
      Except Defect (Option τ × List (Option String × Document))
  | [], seen => .ok (seen, [])
  | (none, _) :: _, _ => .error .notJson
  | (some key, d) :: rest, seen =>
    if key = tag then
      match seen with
      | some _ => .error (.duplicateField tag)
      | none => do splitTag tag read depth rest (some (← read d))
    else if d.isSound depth then do
      let (seen, members) ← splitTag tag read depth rest seen
      .ok (seen, (some key, d) :: members)
    else .error .notJson

/-- The tag of a tagged object, or of an array that begins with the tag, with what stands beside
it. `title` is the kind of thing in messages, and `takenIn` says whether the object is part of one
that has been taken in. -/
def takeTag (tag title : String) (variants : Variants τ) (takenIn : Bool) (depth : Nat) :
    Document → Except Defect (τ × Payload)
  | .object ms closed =>
    match depth with
    | 0 => .error .notJson
    | depth + 1 => do
      let (seen, members) ← splitTag tag (variants.read takenIn) depth ms none
      if ¬ closed then .error .notJson
      else
        match seen with
        | some t => .ok (t, .members members)
        | none => .error (.missingField tag)
  | .array items closed =>
    match depth, items with
    | 0, _ => .error .notJson
    | _ + 1, [] => .error (if closed then .missingField tag else .notJson)
    | depth + 1, d :: rest => do
      let t ← variants.read takenIn d
      if closed && areSound depth rest then .ok (t, .items rest) else .error .notJson
  | d => .error (d.mismatch ("internally tagged enum " ++ title))

end Document

end GimpleLowering.Json

import GimpleLowering.Number.Decimal

/-!
# JSON documents

A `Json.Document` is what a JSON text says, before anyone asks what it means. It keeps more than
a value would: members in their order and with repetitions, numbers as they were written, and the
place where the text stops being JSON. An array or object whose text breaks off is kept with
`closed = false` and everything up to the break, and a value that is no JSON at all is `broken`.
Readers of a document work through it in text order, so they report the first defect of a text,
whether it is one of syntax or one of meaning.

## Main definitions

* `Json.Numeral` — a number as written, and its `reading` as an integer or a binary64 number
* `Json.Document` — the tree
* `Json.Document.isClosed`, `isSound` — the tree is JSON throughout; it can be taken in as a whole
* `Json.Document.nesting` — the depth of arrays and objects
-/

namespace GimpleLowering.Json

/-! ### Numbers -/

/-- A number as it was written. An integer stays apart from a decimal of the same value, and `-0`
from `0`. The fraction of a decimal is the list of its digits; a decimal that is written with an
exponent alone has none. -/
inductive Numeral where
  | integer (negative : Bool) (magnitude : Nat)
  | decimal (negative : Bool) (whole : Nat) (fraction : List Nat) (exponent : Int)
  deriving DecidableEq, Repr

/-- What a number stands for. -/
inductive Reading where
  | integer (value : Int)
  | double (value : Double)
  deriving DecidableEq, Repr

namespace Numeral

/-- An integer is read as one if it fits sixty-four bits, unsigned when it is written without a
sign and signed otherwise. All else is read as a binary64 number, also the integer `-0`; a number
that is too large for one has no reading. -/
def reading : Numeral → Option Reading
  | .integer false n =>
    if n < 18446744073709551616 then some (.integer n)
    else (Double.ofDecimal? false n [] 0).map .double
  | .integer true n =>
    if n = 0 ∨ 9223372036854775808 < n then (Double.ofDecimal? true n [] 0).map .double
    else some (.integer (-n))
  | .decimal negative whole fraction exponent =>
    (Double.ofDecimal? negative whole fraction exponent).map .double

/-- The numeral of an integer. -/
def ofInt (i : Int) : Numeral := .integer (decide (i < 0)) i.natAbs

end Numeral

/-! ### Documents -/

/-- A JSON text as a tree. A string whose escapes do not form characters is `none`: where nobody
reads it such a string does no harm. -/
inductive Document where
  | null
  | bool (value : Bool)
  | number (value : Numeral)
  | string (value : Option String)
  | array (items : List Document) (closed : Bool)
  | object (members : List (Option String × Document)) (closed : Bool)
  | broken

namespace Document

instance : Inhabited Document := ⟨.null⟩

/-- A string that is written as it is. -/
def text (s : String) : Document := .string (some s)

/-- An integer. -/
def int (i : Int) : Document := .number (.ofInt i)

/-- A natural number. -/
def nat (n : Nat) : Document := .number (.integer false n)

/-- A complete array. -/
def list (items : List Document) : Document := .array items true

/-- A complete object. -/
def record (members : List (String × Document)) : Document :=
  .object (members.map fun (key, value) => (some key, value)) true

mutual

/-- The document is JSON throughout, and nobody needs to understand it: brackets are closed, and
numbers and strings have the right shape. -/
def isClosed : Document → Bool
  | .broken => false
  | .array items closed => closed && areClosed items
  | .object members closed => closed && membersClosed members
  | _ => true
termination_by structural d => d

/-- Every document of a list is closed. -/
def areClosed : List Document → Bool
  | [] => true
  | d :: rest => d.isClosed && areClosed rest
termination_by structural ds => ds

/-- Every member of an object is closed. -/
def membersClosed : List (Option String × Document) → Bool
  | [] => true
  | (_, d) :: rest => d.isClosed && membersClosed rest
termination_by structural ms => ms

end

mutual

/-- The document can be taken in as a whole: it is closed, its strings are text, its numbers have
a reading, and arrays and objects are nested at most `depth` deep. -/
def isSound (depth : Nat) : Document → Bool
  | .broken => false
  | .null | .bool _ => true
  | .number n => n.reading.isSome
  | .string s => s.isSome
  | .array items closed =>
    match depth with
    | 0 => false
    | depth + 1 => closed && areSound depth items
  | .object members closed =>
    match depth with
    | 0 => false
    | depth + 1 => closed && membersSound depth members
termination_by structural d => d

/-- Every document of a list can be taken in. -/
def areSound (depth : Nat) : List Document → Bool
  | [] => true
  | d :: rest => d.isSound depth && areSound depth rest
termination_by structural ds => ds

/-- Every member of an object can be taken in. -/
def membersSound (depth : Nat) : List (Option String × Document) → Bool
  | [] => true
  | (key, d) :: rest => key.isSome && d.isSound depth && membersSound depth rest
termination_by structural ms => ms

end

mutual

/-- How deep arrays and objects are nested in the document. -/
def nesting : Document → Nat
  | .array items _ => 1 + nestingOfItems items
  | .object members _ => 1 + nestingOfMembers members
  | _ => 0
termination_by structural d => d

/-- The deepest nesting in a list of documents. -/
def nestingOfItems : List Document → Nat
  | [] => 0
  | d :: rest => max d.nesting (nestingOfItems rest)
termination_by structural ds => ds

/-- The deepest nesting in the members of an object. -/
def nestingOfMembers : List (Option String × Document) → Nat
  | [] => 0
  | (_, d) :: rest => max d.nesting (nestingOfMembers rest)
termination_by structural ms => ms

end

end Document

end GimpleLowering.Json

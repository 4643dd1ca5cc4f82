import GimpleLowering.Json.Document

/-!
# Reading JSON text

`Document.ofText` turns a text into a document and says whether anything but blanks follows it.
It never fails: where the text stops being JSON, the document says so (`Json.Document`).

The grammar is that of RFC 8259: no comments, no byte order mark, no leading zeros or plus signs,
no raw control characters inside strings.

## Main definitions

* `Json.Reader.string`, `number`, `value` — one production each, returning the rest of the text
* `Json.Document.ofText` — a whole text
-/

namespace GimpleLowering.Json

namespace Reader

/-- The four blanks of JSON. -/
def isBlank (c : Char) : Bool := c = ' ' || c = '\n' || c = '\t' || c = '\r'

/-- The text after its leading blanks. -/
def skip (s : List Char) : List Char := s.dropWhile isBlank

/-! ### Strings -/

/-- A character of a string: as it stands, or as the number of a `\u` escape. -/
inductive Piece where
  | char (c : Char)
  | unit (code : Nat)

/-- The value of a hexadecimal digit. -/
def hexValue (c : Char) : Option Nat :=
  if '0' ≤ c ∧ c ≤ '9' then some (c.toNat - 48)
  else if 'a' ≤ c ∧ c ≤ 'f' then some (c.toNat - 87)
  else if 'A' ≤ c ∧ c ≤ 'F' then some (c.toNat - 55)
  else none

/-- The number that four hexadecimal digits stand for. -/
def hexUnit (a b c d : Char) : Option Nat := do
  return ((← hexValue a) * 16 + (← hexValue b)) * 256 + (← hexValue c) * 16 + (← hexValue d)

/-- The character that a one-letter escape stands for. -/
def escaped : Char → Option Char
  | '"' => some '"'
  | '\\' => some '\\'
  | '/' => some '/'
  | 'b' => some '\x08'
  | 'f' => some '\x0c'
  | 'n' => some '\n'
  | 'r' => some '\r'
  | 't' => some '\t'
  | _ => none

/-- The pieces of a string up to its closing quote, and the text after that. -/
def pieces : List Char → List Piece → Option (List Piece × List Char)
  | '"' :: rest, acc => some (acc.reverse, rest)
  | '\\' :: 'u' :: a :: b :: c :: d :: rest, acc =>
    match hexUnit a b c d with
    | some code => pieces rest (.unit code :: acc)
    | none => none
  | '\\' :: c :: rest, acc =>
    match escaped c with
    | some c => pieces rest (.char c :: acc)
    | none => none
  | c :: rest, acc => if c < ' ' ∨ c = '\\' then none else pieces rest (.char c :: acc)
  | [], _ => none

/-- Pieces as characters. Two escapes that form a surrogate pair are one character, and a lone
surrogate is none. -/
def characters : List Piece → Option (List Char)
  | [] => some []
  | .char c :: rest => (characters rest).map (c :: ·)
  | .unit high :: .unit low :: rest =>
    if 0xd800 ≤ high ∧ high < 0xdc00 then
      if 0xdc00 ≤ low ∧ low < 0xe000 then
        (characters rest).map
          (Char.ofNat (0x10000 + (high - 0xd800) * 0x400 + (low - 0xdc00)) :: ·)
      else none
    else if 0xdc00 ≤ high ∧ high < 0xe000 then none
    else (characters (.unit low :: rest)).map (Char.ofNat high :: ·)
  | .unit code :: rest =>
    if 0xd800 ≤ code ∧ code < 0xe000 then none
    else (characters rest).map (Char.ofNat code :: ·)

/-- The string after its opening quote. -/
def string (s : List Char) : Option (Option String × List Char) :=
  (pieces s []).map fun (ps, rest) => ((characters ps).map String.ofList, rest)

/-! ### Numbers -/

/-- A decimal digit. -/
def isDigit (c : Char) : Bool := '0' ≤ c && c ≤ '9'

/-- The value of a decimal digit. -/
def digitValue (c : Char) : Nat := c.toNat - 48

/-- The value of a row of decimal digits. -/
def digitsValue (ds : List Char) : Nat := ds.foldl (fun n c => 10 * n + digitValue c) 0

/-- The integer part: a zero, or digits that do not begin with one. -/
def integerPart (s : List Char) : Option (List Char × List Char) :=
  let ds := s.takeWhile isDigit
  match ds with
  | [] => none
  | '0' :: _ :: _ => none
  | ds => some (ds, s.drop ds.length)

/-- The digits after a point, if there is a point. -/
def fractionPart : List Char → Option (Option (List Char) × List Char)
  | '.' :: rest =>
    let ds := rest.takeWhile isDigit
    if ds.isEmpty then none else some (some ds, rest.drop ds.length)
  | s => some (none, s)

/-- The exponent, if there is one. -/
def exponentPart : List Char → Option (Option Int × List Char)
  | c :: rest =>
    if c = 'e' ∨ c = 'E' then
      let (negative, rest) :=
        match rest with
        | '-' :: rest => (true, rest)
        | '+' :: rest => (false, rest)
        | rest => (false, rest)
      let ds := rest.takeWhile isDigit
      if ds.isEmpty then none
      else
        let n : Int := digitsValue ds
        some (some (if negative then -n else n), rest.drop ds.length)
    else some (none, c :: rest)
  | [] => some (none, [])

/-- A number, with its sign. -/
def number (s : List Char) : Option (Numeral × List Char) := do
  let (negative, s) :=
    match s with
    | '-' :: rest => (true, rest)
    | s => (false, s)
  let (whole, s) ← integerPart s
  let (fraction, s) ← fractionPart s
  let (exponent, s) ← exponentPart s
  match fraction, exponent with
  | none, none => return (.integer negative (digitsValue whole), s)
  | fraction, exponent =>
    let digits := (fraction.getD []).map digitValue
    return (.decimal negative (digitsValue whole) digits (exponent.getD 0), s)

/-! ### Values -/

/-- The rest of a text that begins with the given word. -/
def word? (w : String) (s : List Char) : Option (List Char) :=
  if w.toList.isPrefixOf s then some (s.drop w.length) else none

mutual

/-- A value, after blanks. -/
def value : Nat → List Char → Document × List Char
  | 0, s => (.broken, s)
  | fuel + 1, s =>
    match skip s with
    | '"' :: rest =>
      match string rest with
      | some (s, rest) => (.string s, rest)
      | none => (.broken, [])
    | '[' :: rest =>
      match skip rest with
      | ']' :: rest => (.array [] true, rest)
      | rest =>
        let (items, closed, rest) := items fuel rest
        (.array items closed, rest)
    | '{' :: rest =>
      match skip rest with
      | '}' :: rest => (.object [] true, rest)
      | rest =>
        let (members, closed, rest) := members fuel rest
        (.object members closed, rest)
    | s =>
      match word? "null" s, word? "true" s, word? "false" s with
      | some rest, _, _ => (.null, rest)
      | _, some rest, _ => (.bool true, rest)
      | _, _, some rest => (.bool false, rest)
      | none, none, none =>
        match number s with
        | some (n, rest) => (.number n, rest)
        | none => (.broken, [])

/-- The items of an array from its next item on, whether they are closed, and the rest. An item
that is not closed is the last. -/
def items : Nat → List Char → List Document × Bool × List Char
  | 0, s => ([], false, s)
  | fuel + 1, s =>
    let (item, rest) := value fuel s
    if item.isClosed then
      match skip rest with
      | ']' :: rest => ([item], true, rest)
      | ',' :: rest =>
        let (others, closed, rest) := items fuel rest
        (item :: others, closed, rest)
      | rest => ([item], false, rest)
    else ([item], false, rest)

/-- The members of an object from its next member on, whether they are closed, and the rest. A
member that is not closed is the last. -/
def members : Nat → List Char → List (Option String × Document) × Bool × List Char
  | 0, s => ([], false, s)
  | fuel + 1, s =>
    match skip s with
    | '"' :: rest =>
      match string rest with
      | none => ([], false, [])
      | some (key, rest) =>
        match skip rest with
        | ':' :: rest =>
          let (item, rest) := value fuel rest
          if item.isClosed then
            match skip rest with
            | '}' :: rest => ([(key, item)], true, rest)
            | ',' :: rest =>
              let (others, closed, rest) := members fuel rest
              ((key, item) :: others, closed, rest)
            | rest => ([(key, item)], false, rest)
          else ([(key, item)], false, rest)
        | rest => ([(key, .broken)], false, rest)
    | rest => ([], false, rest)

end

end Reader

namespace Document

/-- The document of a text, and whether only blanks follow it. A step of the reader either takes a
character or is followed by one that does, so the text's length bounds the steps. -/
def ofText (text : String) : Document × Bool :=
  let s := text.toList
  let (d, rest) := Reader.value (2 * s.length + 2) s
  (d, (Reader.skip rest).isEmpty)

end Document

end GimpleLowering.Json

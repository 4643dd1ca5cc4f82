import GimpleLowering.Sexpr.Basic

/-!
# Reading s-expressions

One s-expression with blanks around it makes a text. Inside a list, elements are separated by at
least one blank, and there is none after the opening or before the closing parenthesis. Between
bars, a backslash stands for the character after it, and other special characters are refused.

## Main definitions

* `Sexpr.ofText?` — the s-expression of a text
-/

namespace GimpleLowering.Sexpr

namespace Reader

/-- A symbol between bars, after the opening bar. -/
def quoted : List Char → List Char → Option (String × List Char)
  | '|' :: rest, acc => some (String.ofList acc.reverse, rest)
  | '\\' :: c :: rest, acc => quoted rest (c :: acc)
  | c :: rest, acc => if isSpecial c then none else quoted rest (c :: acc)
  | [], _ => none

/-- A symbol that stands as it is. -/
def bare (s : List Char) : Option (String × List Char) :=
  let name := s.takeWhile fun c => ¬ isSpecial c
  if name.isEmpty then none else some (String.ofList name, s.drop name.length)

/-- The text after its leading blanks. -/
def skip (s : List Char) : List Char := s.dropWhile Text.isBlank

mutual

/-- One s-expression, and the text after it. -/
def value : Nat → List Char → Option (Sexpr × List Char)
  | 0, _ => none
  | fuel + 1, s =>
    match s with
    | '(' :: ')' :: rest => some (.list [], rest)
    | '(' :: rest => (items fuel rest).map fun (ss, rest) => (.list ss, rest)
    | '|' :: rest => (quoted rest []).map fun (name, rest) => (.symbol name, rest)
    | s => (bare s).map fun (name, rest) => (.symbol name, rest)

/-- The elements of a list from the next one on, up to its closing parenthesis. -/
def items : Nat → List Char → Option (List Sexpr × List Char)
  | 0, _ => none
  | fuel + 1, s =>
    match value fuel s with
    | none => none
    | some (item, ')' :: rest) => some ([item], rest)
    | some (item, c :: rest) =>
      if Text.isBlank c then
        (items fuel (skip rest)).map fun (others, rest) => (item :: others, rest)
      else none
    | some (_, []) => none

end

end Reader

/-- The s-expression of a text. A step of the reader either takes a character or is followed by
one that does, so the text's length bounds the steps. -/
def ofText? (text : String) : Option Sexpr :=
  let s := Reader.skip text.toList
  match Reader.value (2 * s.length + 2) s with
  | some (e, rest) => if (Reader.skip rest).isEmpty then some e else none
  | none => none

end GimpleLowering.Sexpr

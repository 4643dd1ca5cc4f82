import GimpleLowering.Text.Blank

/-!
# S-expressions

An s-expression is a symbol or a list. In its text a list stands in parentheses with single blanks
between the elements. A symbol stands as it is, unless it is empty or has a character that would
be taken for something else: then it stands between bars, with a backslash before every such
character.

## Main definitions

* `Sexpr` — the tree, and `Sexpr.depth`
* `Sexpr.text` — its text
-/

namespace GimpleLowering

/-- A symbol or a list. -/
inductive Sexpr where
  | symbol (name : String)
  | list (items : List Sexpr)

namespace Sexpr

instance : Inhabited Sexpr := ⟨.list []⟩

/-- A symbol with this character has to be quoted: blanks, parentheses, bars and backslashes. -/
def isSpecial (c : Char) : Bool :=
  Text.isBlank c || c = '(' || c = ')' || c = '|' || c = '\\'

/-- A symbol that cannot stand as it is. -/
def needsBars (name : List Char) : Bool := name.isEmpty || name.any isSpecial

/-- A quoted character: special ones have a backslash before them. -/
def escape (c : Char) : List Char := if isSpecial c then ['\\', c] else [c]

/-- The text of a symbol. -/
def symbolChars (name : List Char) : List Char :=
  if needsBars name then '|' :: name.flatMap escape ++ ['|'] else name

mutual

/-- The text of an s-expression, as characters. -/
def chars : Sexpr → List Char
  | .symbol name => symbolChars name.toList
  | .list items => '(' :: itemChars items ++ [')']
termination_by structural s => s

/-- The texts of the elements of a list, with blanks between them. -/
def itemChars : List Sexpr → List Char
  | [] => []
  | [s] => s.chars
  | s :: rest => s.chars ++ ' ' :: itemChars rest
termination_by structural ss => ss

end

/-- The text of an s-expression. -/
def text (s : Sexpr) : String := String.ofList s.chars

mutual

/-- How deep lists are nested. -/
def depth : Sexpr → Nat
  | .symbol _ => 0
  | .list items => 1 + itemDepth items
termination_by structural s => s

/-- The deepest nesting in a list of s-expressions. -/
def itemDepth : List Sexpr → Nat
  | [] => 0
  | s :: rest => max s.depth (itemDepth rest)
termination_by structural ss => ss

end

end Sexpr

end GimpleLowering

import GimpleLowering.Json.Document
import GimpleLowering.Text.Quoted

/-!
# Writing JSON text

`Document.render` writes a document on one line without blanks, in ASCII: every other character
is written by the numbers of its UTF-16 units. A decimal is always written with its exponent, and without a
point if it has no fraction. An open document is written as far as it goes.
-/

namespace GimpleLowering.Json

namespace Numeral

/-- A number, in a form that reads as the same numeral. -/
def render : Numeral → String
  | .integer negative n => (if negative then "-" else "") ++ toString n
  | .decimal negative whole fraction exponent =>
    let point := if fraction.isEmpty then "" else "."
    (if negative then "-" else "") ++ toString whole ++ point
      ++ String.join (fraction.map toString) ++ "e" ++ toString exponent

end Numeral

namespace Printer

/-- The escape of one UTF-16 unit. -/
def unitEscape (code : Nat) : String := "\\u" ++ String.ofList (Text.hexDigits 4 code)

/-- One character inside quotes. -/
def character (c : Char) : String :=
  match c with
  | '"' => "\\\""
  | '\\' => "\\\\"
  | '\n' => "\\n"
  | c =>
    let n := c.toNat
    if 0x20 ≤ n ∧ n < 0x7f then c.toString
    else if n < 0x10000 then unitEscape n
    else unitEscape (0xd800 + (n - 0x10000) / 0x400) ++ unitEscape (0xdc00 + n % 0x400)

/-- A string between quotes. -/
def string (s : String) : String := "\"" ++ String.join (s.toList.map character) ++ "\""

end Printer

namespace Document

mutual

/-- The text of a document. -/
def render : Document → String
  | .null => "null"
  | .bool true => "true"
  | .bool false => "false"
  | .number n => n.render
  | .string none => "\"\\ud800\""
  | .string (some s) => Printer.string s
  | .array items closed => "[" ++ renderItems items ++ if closed then "]" else ""
  | .object members closed => "\x7b" ++ renderMembers members ++ if closed then "\x7d" else ""
  | .broken => ""
termination_by structural d => d

/-- The items of an array, with commas between them. -/
def renderItems : List Document → String
  | [] => ""
  | [d] => d.render
  | d :: rest => d.render ++ "," ++ renderItems rest
termination_by structural ds => ds

/-- The members of an object, with commas between them. -/
def renderMembers : List (Option String × Document) → String
  | [] => ""
  | [(key, d)] => Printer.string (key.getD "") ++ ":" ++ d.render
  | (key, d) :: rest =>
    Printer.string (key.getD "") ++ ":" ++ d.render ++ "," ++ renderMembers rest
termination_by structural ms => ms

end

end Document

end GimpleLowering.Json

import GimpleLowering.Text.Invisible

/-!
# Quoted text in messages

Messages show a text they object to between double quotes. A quote and a backslash inside are
escaped, as are the usual control characters, and any character without a glyph is written by its
code point. Apostrophes stay as they are.

## Main definitions

* `Text.quoted` — a text between quotes
* `Text.hex` — a natural number in lowercase hexadecimal
-/

namespace GimpleLowering.Text

/-- One hexadecimal digit, in lower case. -/
def hexDigit (n : Nat) : Char := if n < 10 then Char.ofNat (48 + n) else Char.ofNat (87 + n)

/-- The lowest `width` hexadecimal digits of `n`. -/
def hexDigits : Nat → Nat → List Char
  | 0, _ => []
  | width + 1, n => hexDigits width (n / 16) ++ [hexDigit (n % 16)]

/-- `n` in lowercase hexadecimal, without leading zeros. -/
def hex (n : Nat) : String := String.ofList (hexDigits (n.log2 / 4 + 1) n)

/-- One character as it stands between quotes. -/
def quotedChar (c : Char) : String :=
  match c with
  | '"' => "\\\""
  | '\\' => "\\\\"
  | '\n' => "\\n"
  | '\r' => "\\r"
  | '\t' => "\\t"
  | '\x00' => "\\0"
  | c => if isInvisible c then "\\u\x7b" ++ hex c.toNat ++ "\x7d" else c.toString

/-- A text between double quotes, with what cannot stand there escaped. -/
def quoted (s : String) : String := "\"" ++ String.join (s.toList.map quotedChar) ++ "\""

example : hex 0x1f600 = "1f600" := by decide

end GimpleLowering.Text

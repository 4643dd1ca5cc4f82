import GimpleLowering.Compilation
import GimpleLowering.Flo.Text.Writer

/-!
# The command

Reads the description of a unit from the standard input, and writes the text of one object per line
to the standard output, in the order of the definitions. What cannot be compiled or written is told
on the standard error, and makes the command end with a status other than zero.
-/

namespace GimpleLowering.Main

/-- What the command prints for one function: the text of its object, or why there is none. -/
def entryText (name : String) : Except Failure Flo.Object → Except String String
  | .error f => .error f.message
  | .ok o =>
    o.text.mapError fun e => "Could not write " ++ name ++ ".flo: " ++ e.message

/-- What the command prints for a unit, or why it could not be compiled. -/
def unitTexts (text : String) : Except String (List (Except String String)) := do
  let u ← (Gimple.CompilationUnit.ofText text).mapError Error.message
  match Compiler.standard.run u with
  | .error e => .error e.message
  | .ok (.error e) => .error e.message
  | .ok (.ok m) => .ok (m.entries.map fun e => entryText e.1 e.2)

/-- Everything up to the end of a stream. -/
partial def readAll (input : IO.FS.Stream) (taken : String) : IO String := do
  let line ← input.getLine
  if line.isEmpty then return taken else readAll input (taken ++ line)

end GimpleLowering.Main

open GimpleLowering.Main in
/-- Compiles the unit on the standard input. -/
def main : IO UInt32 := do
  match unitTexts (← readAll (← IO.getStdin) "") with
  | .error message =>
    IO.eprintln message
    return 1
  | .ok entries =>
    for entry in entries do
      match entry with
      | .ok text => IO.println text
      | .error message => IO.eprintln message
    let failed := (entries.filter fun e => ! e.toBool).length
    if failed = 0 then return 0
    IO.eprintln (toString failed ++ " function(s) could not be translated")
    return 1

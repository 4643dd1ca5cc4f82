import GimpleLowering.Error
import GimpleLowering.Gimple.Unit

/-!
# The index of a unit

The index says what the names of a compilation unit mean: the signatures of the functions that can
be called, the types of the globals, and the definitions that forward references to records stand
for. A function may be declared any number of times as long as all its signatures are equal; a
global only once.

## Main definitions

* `UnitIndex`, with its lookups `function?`, `global?` and `record?`
* `UnitIndex.ofUnit` — the index of a unit, unless its declarations contradict each other
-/

namespace GimpleLowering

open Gimple

/-- The meaning of the names of a unit. Every list has at most one entry of a name, except for
`definitions`, which lists the names of all function definitions in order. -/
structure UnitIndex where
  definitions : List String
  functions : List Signature
  globals : List Declaration
  records : List RecordDefinition
  deriving DecidableEq, Inhabited

namespace UnitIndex

/-- The index of a unit that declares nothing. -/
def empty : UnitIndex := ⟨[], [], [], []⟩

/-! ### Lookups -/

/-- The signature of a function. -/
def function? (x : UnitIndex) (name : String) : Option Signature :=
  x.functions.find? fun f => f.name = name

/-- The type of a global. -/
def global? (x : UnitIndex) (name : String) : Option Ty :=
  (x.globals.find? fun g => g.name = name).map Declaration.ty

/-- The definition of a record. -/
def record? (x : UnitIndex) (name : String) : Option RecordDefinition :=
  x.records.find? fun r => r.name = name

/-! ### Construction -/

/-- Adds a signature, unless there is another one for the same function. -/
def addSignature (fs : List Signature) (s : Signature) : Except Error (List Signature) :=
  match fs.find? fun f => f.name = s.name with
  | some f => if f = s then .ok fs else .error (.malformed (.conflictingSignatures s.name))
  | none => .ok (fs ++ [s])

/-- Adds a global, unless there is one of the same name. -/
def addGlobal (gs : List Declaration) (g : Declaration) : Except Error (List Declaration) :=
  if gs.any fun d => d.name = g.name then .error (.malformed (.globalTwice g.name))
  else .ok (gs ++ [g])

/-- Adds a record definition in place of an earlier one of the same name. -/
def addRecord (rs : List RecordDefinition) (r : RecordDefinition) : List RecordDefinition :=
  (rs.filter fun d => d.name ≠ r.name) ++ [r]

/-- The index of a unit. Definitions count as declarations, and come before them. -/
def ofUnit (u : CompilationUnit) : Except Error UnitIndex := do
  let functions ← (u.functions.map Function.signature ++ u.declarations).foldlM addSignature []
  let globals ← u.globals.foldlM addGlobal []
  return ⟨u.functions.map Function.name, functions, globals, u.records.foldl addRecord []⟩

/-! ### Interface lemmas -/

@[simp] theorem function?_empty (name : String) : empty.function? name = none := rfl

@[simp] theorem global?_empty (name : String) : empty.global? name = none := rfl

@[simp] theorem record?_empty (name : String) : empty.record? name = none := rfl

/-- A signature that is found has the name that was asked for. -/
theorem name_of_function? {x : UnitIndex} {name : String} {s : Signature}
    (h : x.function? name = some s) : s.name = name := by
  simpa using List.find?_some h

/-- A record definition that is found has the name that was asked for. -/
theorem name_of_record? {x : UnitIndex} {name : String} {r : RecordDefinition}
    (h : x.record? name = some r) : r.name = name := by
  simpa using List.find?_some h

end UnitIndex

end GimpleLowering

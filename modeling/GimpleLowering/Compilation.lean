import GimpleLowering.Gimple.Wire.Reader
import GimpleLowering.Lowering.Function
import GimpleLowering.Pass.IndexUnit

/-!
# Compilation of a unit

The passes run first, and one of them has to index the unit. Then every function is lowered by
itself: one that fails does not stand in the way of the others. The types are shared, and every
object gets all of them in the end.

The functions are lowered one after the other, and the types are completed in the order of their
ids. A compiler that lowers functions at the same time lets their requests for types interleave. No
such run is described here; what it can do to the types is what any sequence of their changes can.

## Main definitions

* `Gimple.CompilationUnit.ofText` — from a text to a unit
* `Compiler`, `Compiler.run` — from a unit to a manifest
* `Manifest` — the outcome for each function, in the order of their definitions
-/

namespace GimpleLowering

open Gimple Layout

/-- The results of a pipeline that the lowering knows of. -/
inductive Finding where
  | unitIndex (index : UnitIndex)
  deriving DecidableEq, Inhabited

/-- The passes of a pipeline that the lowering knows of. -/
inductive Analysis where
  | unitIndex
  deriving DecidableEq, Repr, Inhabited

instance : ToString Analysis := ⟨fun .unitIndex => "BuildUnitMap"⟩

/-- The unit that a text describes. Names in it have to be unique. -/
def Gimple.CompilationUnit.ofText (text : String) : Except Error CompilationUnit := do
  let u ← (readText CompilationUnit.read text).mapError fun e => .malformed (.defect e)
  u.validate.mapError fun c => .malformed (.contradiction c)
  return u

/-! ### Manifests -/

/-- The outcome for each function, by name, in the order of their definitions. -/
structure Manifest where
  entries : List (String × Except Failure Flo.Object)

namespace Manifest

/-- The outcome for a function. -/
def get? (m : Manifest) (name : String) : Option (Except Failure Flo.Object) :=
  (m.entries.find? fun e => e.1 = name).map Prod.snd

/-- The number of functions. -/
def size (m : Manifest) : Nat := m.entries.length

/-- The unit defines no functions. -/
def isEmpty (m : Manifest) : Bool := m.entries.isEmpty

/-- The functions that were lowered. -/
def successes (m : Manifest) : List (String × Flo.Object) :=
  m.entries.filterMap fun e => match e.2 with
    | .ok o => some (e.1, o)
    | .error _ => none

/-- The failures of the other functions. -/
def failures (m : Manifest) : List Failure :=
  m.entries.filterMap fun e => match e.2 with
    | .ok _ => none
    | .error f => some f

end Manifest

/-! ### Compilers -/

/-- How to compile a unit. -/
structure Compiler where
  /-- The passes that run first. -/
  passes : List (Pass Analysis CompilationUnit Finding)
  /-- The routines for operations. -/
  polyfills : Polyfills

namespace Compiler

/-- The usual compiler. -/
def standard : Compiler where
  passes := [.indexUnit .unitIndex (toString Analysis.unitIndex) .unitIndex]
  polyfills := .library

instance : Inhabited Compiler := ⟨standard⟩

/-- Lowers functions one after the other. -/
def lowerAll (x : UnitIndex) (polyfills : Polyfills) (source : String) :
    List Function → Registry →
      Except Breakdown (List (String × Except Failure Flo.Object) × Registry)
  | [], types => .ok ([], types)
  | f :: rest, types => do
    let (r, types) ← (Lowering.lowerFunction x polyfills source f).runOn types
    let (entries, types) ← lowerAll x polyfills source rest types
    return ((f.name, r) :: entries, types)

/-- Lowers all functions of a unit, and completes the types that they share. -/
def lowerUnit (x : UnitIndex) (polyfills : Polyfills) (u : CompilationUnit) :
    Except Breakdown Manifest := do
  let (entries, types) ← lowerAll x polyfills (u.sourceFile.getD "") u.functions .empty
  let (_, types) ← (finalize x).runOn types
  return ⟨entries.map fun e => (e.1, e.2.map fun o => { o with types := types.tables })⟩

/-- Runs the passes and lowers all functions of the unit that they leave. -/
def run (c : Compiler) (u : CompilationUnit) : Except Breakdown (Except Error Manifest) :=
  match Pass.run c.passes u with
  | .error e => .ok (.error e)
  | .ok (u, results) =>
    match results.get? .unitIndex with
    | none => .ok (.error (.missingPassData (toString Analysis.unitIndex)))
    | some (.unitIndex x) => (lowerUnit x c.polyfills u).map .ok

end Compiler

end GimpleLowering

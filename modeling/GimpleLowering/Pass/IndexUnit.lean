import GimpleLowering.Pass.Basic
import GimpleLowering.UnitIndex

/-!
# Indexing as a pass

The pass that the lowering cannot do without: it reads the unit, changes nothing, and its result
is the index of the unit as it is at that point.
-/

namespace GimpleLowering.Pass

open Gimple

/-- The pass that indexes the unit, with its result put into the results of a pipeline by
`wrap`. -/
def indexUnit {κ ρ : Type} (key : κ) (name : String) (wrap : UnitIndex → ρ) :
    Pass κ CompilationUnit ρ where
  key := key
  name := name
  depends := []
  invalidates := []
  execute unit _ := do
    return (unit, wrap (← UnitIndex.ofUnit unit))

end GimpleLowering.Pass

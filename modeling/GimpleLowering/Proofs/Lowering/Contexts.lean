import GimpleLowering.Proofs.Lowering.Survival
import Mathlib.Logic.Relation

/-!
# The types of a unit while it is compiled

The types that were registered are used in a few ways: to represent a type, to resolve a record, to
read the fields of a struct, to lower a function, and to complete everything in the end. Each use
may be refused, and leaves behind what it registered. `Uses` is one of them, and what is reached
from the empty registry by any number of them are the registries that occur.

## Main definitions

* `Lowering.Uses` — one use of the registered types

## Main results

* `Lowering.Uses.evolves` — every use keeps what was registered
* `Lowering.evolves_of_uses` — so do any number of uses
-/

namespace GimpleLowering.Lowering

open Gimple Layout Relation

/-- One use of the types that are registered for a unit, whether or not it is refused. -/
inductive Uses (x : UnitIndex) : Registry → Registry → Prop where
  | represent {r r' : Registry} {ty : Ty} {res : Except Error Representation}
      (run : (represent x ty).runOn r = .ok (res, r')) : Uses x r r'
  | resolve {r r' : Registry} {ty : Ty} {res : Except Error Nat}
      (run : (resolve x ty).runOn r = .ok (res, r')) : Uses x r r'
  | resolveHandle {r r' : Registry} {ty : Ty} {res : Except Error Nat}
      (run : (resolveHandle x ty).runOn r = .ok (res, r')) : Uses x r r'
  | slotsOf {r r' : Registry} {id : Nat} {res : Except Error (List Slot)}
      (run : (slotsOf x id).runOn r = .ok (res, r')) : Uses x r r'
  | registerArray {r : Registry} {base : Ty} {typ : Flo.Ty} (length : Nat)
      (member : HasValueType x r base typ) : Uses x r (r.registerArray typ length).2
  | lower {r r' : Registry} {ps : Polyfills} {source : String} {f : Function}
      {res : Except Failure Flo.Object}
      (run : (lowerFunction x ps source f).runOn r = .ok (res, r')) : Uses x r r'
  | finalize {r r' : Registry} {res : Except Error Unit}
      (run : (finalize x).runOn r = .ok (res, r')) : Uses x r r'

variable {x : UnitIndex} {r r' : Registry}

/-- Every use keeps what was registered, and what it registers is true. -/
theorem Uses.evolves (h : Uses x r r') : Evolves x (fun _ => True) [] r r' := by
  have hx : x.Closed fun _ => True := .univ x
  cases h with
  | represent run => exact represent_keeps hx trivial _ _ _ run
  | resolve run => exact resolve_keeps hx trivial _ _ _ run
  | resolveHandle run => exact resolveHandle_keeps hx trivial _ _ _ run
  | slotsOf run => exact slotsOf_keeps hx _ _ _ _ run
  | registerArray length member =>
    obtain ⟨rep, hrep, rfl⟩ := member
    exact registerArray_evolves trivial hrep
  | lower run => exact lowerFunction_keeps hx _ _ (by simp) _ _ _ run
  | finalize run => exact finalize_keeps hx _ _ _ run

/-- So do any number of uses. -/
theorem evolves_of_uses (h : ReflTransGen (Uses x) r r') : Evolves x (fun _ => True) [] r r' := by
  induction h with
  | refl => exact refl_of (Evolves x (fun _ => True) []) r
  | tail _ last ih => exact trans_of (Evolves x (fun _ => True) []) ih last.evolves

end GimpleLowering.Lowering

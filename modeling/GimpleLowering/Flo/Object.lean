import GimpleLowering.Flo.Table
import GimpleLowering.Pairing

/-!
# Objects

An object holds one or more functions of the runtime, in tables that refer to each other by id,
and the names under which it exports them. An object is *complete* when no code in it can reach a
poisoned entry; an opaque struct is no obstacle, since it is only ever used through handles.

## Main definitions

* `Flo.Object`, `Flo.TypeTables` — objects and the types that they share
* `Flo.Object.poisonedEntries` — the entries that keep an object from being complete
-/

namespace GimpleLowering.Flo

/-- The array and struct types that variables refer to. -/
structure TypeTables where
  arrays : Table ArrayType
  structs : Table StructType
  deriving DecidableEq

/-- No types. -/
def TypeTables.empty : TypeTables := ⟨.empty, .empty⟩

instance : Inhabited TypeTables := ⟨.empty⟩

/-- A flat object. -/
structure Object where
  moduleName : String
  /-- The entry block of each exported function. -/
  symbols : Pairing String Nat
  blocks : Table Block
  statements : Table Statement
  matchArms : Table MatchArm
  vars : Table Variable
  types : TypeTables
  diagnostics : Table Diagnostic
  locations : Table Location
  deriving DecidableEq

namespace Object

/-- The object of the given name with nothing in it. -/
def empty (moduleName : String) : Object :=
  ⟨moduleName, .empty, .empty, .empty, .empty, .empty, .empty, .empty, .empty⟩

instance : Inhabited Object := ⟨.empty ""⟩

/-- The structs whose layout could not be produced. -/
def failedStructs (o : Object) : List Nat :=
  o.types.structs.toList.filterMap fun (id, s) =>
    match s.poison with
    | .because _ => some id
    | _ => none

/-- The poisoned entries that code can reach, each with the name of its table. -/
def poisonedEntries (o : Object) : List (String × Nat) :=
  o.blocks.poisonedIds.map (("blocks", ·)) ++ o.statements.poisonedIds.map (("statements", ·))
    ++ o.matchArms.poisonedIds.map (("match_arms", ·))
    ++ o.vars.poisonedIds.map (("variables", ·)) ++ o.failedStructs.map (("structs", ·))

/-- No code can reach a poisoned entry. -/
def isComplete (o : Object) : Bool := o.poisonedEntries.isEmpty

/-- The words for an object that is not complete. -/
def incompleteText (o : Object) : String :=
  let entries := o.poisonedEntries.map fun (table, id) =>
    "(\"" ++ table ++ "\", " ++ toString id ++ ")"
  "object `" ++ o.moduleName ++ "` contains poisoned entries [" ++ ", ".intercalate entries ++ "]"

end Object

end GimpleLowering.Flo

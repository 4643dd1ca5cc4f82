import GimpleLowering.Gimple.Statement

/-!
# Functions and compilation units

A function is a list of basic blocks, of which one is the entry. Blocks refer to each other by
index; index 1 is reserved for the place where control leaves the function, and no block may claim
it. A compilation unit collects the functions, globals and record definitions of one source file,
and the signatures of functions that it calls without defining them.

## Main definitions

* `Gimple.Function`, `Gimple.Function.successors` — functions and their control flow
* `Gimple.Function.validate` — block indices are unique, and the entry exists
* `Gimple.CompilationUnit`, `Gimple.CompilationUnit.validate` — units with unique names
-/

namespace GimpleLowering.Gimple

/-- The index that stands for leaving the function. -/
def exitIndex : Nat := 1

/-- A name with its type: a parameter, a local variable or a global. -/
structure Declaration where
  name : String
  ty : Ty
  deriving DecidableEq, Inhabited

/-- Statements that run one after the other. -/
structure Block where
  index : Nat
  statements : List Statement
  deriving DecidableEq, Inhabited

/-- What one has to know to call a function. A function without a return type is void. -/
structure Signature where
  name : String
  parameterTypes : List Ty
  returnType : Option Ty
  deriving DecidableEq, Inhabited

/-- A function definition. -/
structure Function where
  name : String
  parameters : List Declaration
  returnType : Option Ty
  entryBlock : Nat
  locals : List Declaration
  blocks : List Block
  deriving DecidableEq, Inhabited

/-- The definition that forward references to a named record stand for. -/
structure RecordDefinition where
  name : String
  fields : List Field
  deriving DecidableEq, Inhabited

/-- The record type that a definition describes. -/
def RecordDefinition.ty (r : RecordDefinition) : Ty := .record r.name r.fields

/-- Everything that the compiler says about one source file. -/
structure CompilationUnit where
  sourceFile : Option String
  functions : List Function
  globals : List Declaration
  records : List RecordDefinition
  declarations : List Signature
  deriving DecidableEq, Inhabited

/-- The unit that declares nothing. -/
def CompilationUnit.empty : CompilationUnit := ⟨none, [], [], [], []⟩

/-- The ways in which a unit or a function can contradict itself. -/
inductive Contradiction where
  | functionTwice (name : String)
  | recordUnnamed
  | recordTwice (name : String)
  | exitDefined (function : String)
  | blockTwice (function : String) (index : Nat)
  | entryMissing (index : Nat) (function : String)
  deriving DecidableEq, Repr

/-- The words for a contradiction. -/
def Contradiction.message : Contradiction → String
  | functionTwice name => "function `" ++ name ++ "` is defined more than once"
  | recordUnnamed => "record definitions must be named"
  | recordTwice name => "record `" ++ name ++ "` is defined more than once"
  | exitDefined function => "function `" ++ function ++ "` defines the reserved exit block 1"
  | blockTwice function index =>
    "function `" ++ function ++ "` defines block " ++ toString index ++ " more than once"
  | entryMissing index function =>
    "the entry block " ++ toString index ++ " of function `" ++ function ++ "` does not exist"

/-! ### Functions -/

namespace Function

/-- How the function is called. -/
def signature (f : Function) : Signature :=
  ⟨f.name, f.parameters.map Declaration.ty, f.returnType⟩

/-- The first block with the given index. -/
def block? (f : Function) (index : Nat) : Option Block := f.blocks.find? fun b => b.index = index

/-- The block after the first one with the given index, in declaration order. -/
def blockAfter? (f : Function) (index : Nat) : Option Block :=
  (f.blocks.dropWhile fun b => b.index ≠ index)[1]?

/-- Where control can go from the block with the given index: to the targets of its terminator,
or on to the next block if it has none. -/
def successors (f : Function) (index : Nat) : List Nat :=
  match f.block? index with
  | none => []
  | some b =>
    match b.statements.getLast? with
    | some s => if s.isTerminator then s.targets else (f.blockAfter? index).toList.map Block.index
    | none => (f.blockAfter? index).toList.map Block.index

/-- The first index that is reserved or was used before. -/
def firstBadIndex (function : String) (seen : List Nat) : List Block → Except Contradiction Unit
  | [] => .ok ()
  | b :: rest =>
    if b.index = exitIndex then .error (.exitDefined function)
    else if b.index ∈ seen then .error (.blockTwice function b.index)
    else firstBadIndex function (b.index :: seen) rest

/-- Block indices are unique and not reserved, and the entry block exists. -/
def validate (f : Function) : Except Contradiction Unit := do
  firstBadIndex f.name [] f.blocks
  if (f.block? f.entryBlock).isNone then .error (.entryMissing f.entryBlock f.name)

end Function

/-! ### Units -/

namespace CompilationUnit

/-- The first function name that was used before. -/
def firstRepeatedFunction (seen : List String) : List Function → Except Contradiction Unit
  | [] => .ok ()
  | f :: rest =>
    if f.name ∈ seen then .error (.functionTwice f.name)
    else firstRepeatedFunction (f.name :: seen) rest

/-- The first record definition without a name or with a name that was used before. -/
def firstBadRecord (seen : List String) : List RecordDefinition → Except Contradiction Unit
  | [] => .ok ()
  | r :: rest =>
    if r.name = "" then .error .recordUnnamed
    else if r.name ∈ seen then .error (.recordTwice r.name)
    else firstBadRecord (r.name :: seen) rest

/-- Functions and record definitions have names of their own. Blocks are left to
`Function.validate`, so that a bad function fails alone. -/
def validate (u : CompilationUnit) : Except Contradiction Unit := do
  firstRepeatedFunction [] u.functions
  firstBadRecord [] u.records

end CompilationUnit

end GimpleLowering.Gimple

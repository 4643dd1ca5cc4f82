import GimpleLowering.Flo.Ty
import GimpleLowering.Number.Double

/-!
# The entries of an object

An object keeps everything in tables and refers to it by id: blocks, statements, match arms,
variables, array and struct types, diagnostics and locations. An entry can be *poisoned*, which
says that it must not be used: it was reserved and never filled in, it could not be produced, or it
is the null entry at id 0 of every table.

## Main definitions

* `Flo.Poison` — whether and why an entry is unusable
* `Flo.Block`, `Statement`, `MatchArm`, `Variable`, `ArrayType`, `StructType`, `Diagnostic`,
  `Location` — the entries
* `Flo.Entry` — what all entries have in common
-/

namespace GimpleLowering.Flo

/-- Whether an entry can be used. -/
inductive Poison where
  /-- The entry can be used. -/
  | usable
  /-- The entry could not be produced. -/
  | because (reason : String)
  /-- The entry was reserved and is not filled in. A struct type in this state is opaque. -/
  | undefined
  /-- The entry at id 0 of a table. -/
  | nullEntry
  deriving DecidableEq, Repr

/-- Everything but a usable entry is poisoned. -/
def Poison.isPoisoned (p : Poison) : Bool := p ≠ .usable

/-! ### Blocks -/

/-- How a function is called: the variables that take the arguments and hold the results, and
whether a call can panic. -/
structure Signature where
  params : List Nat
  returns : List Nat
  canPanic : Bool
  location : Option Nat
  deriving DecidableEq, Repr

/-- Where control goes at the end of a block. -/
inductive BlockExit where
  /-- Back to the caller, with the values of variables. -/
  | ret (values : List Nat)
  /-- Nowhere: execution ends with a message and the values of variables. -/
  | panic (message : String) (values : List Nat)
  | goto (block : Nat)
  /-- To the target of the first arm whose condition holds. -/
  | branch (arms : List Nat)
  /-- The exit of entries that stand for nothing. -/
  | unspecified
  deriving DecidableEq, Repr

/-- Statements that run one after the other, and an exit. A block with a signature is the entry
of a function. -/
structure Block where
  signature : Option Signature
  poison : Poison
  statements : List Nat
  exit : BlockExit
  diagnostics : List Nat
  deriving DecidableEq, Repr

/-! ### Statements -/

/-- A constant: the bits of its value and its type. Integers are in two's complement at the width
of their type, reals are their binary64 bits, and the null handle is zero. -/
structure Constant where
  value : Nat
  typ : Ty
  deriving DecidableEq, Repr

namespace Constant

/-- A truth value. -/
def ofBool (b : Bool) : Constant := ⟨b.toNat, .bool⟩

/-- An integer of thirty-two bits. -/
def signed32 (i : Int) : Constant := ⟨(i % 4294967296).toNat, .signed32⟩

/-- An integer of sixty-four bits. -/
def signed64 (i : Int) : Constant := ⟨(i % 18446744073709551616).toNat, .signed64⟩

/-- A real number. -/
def ofDouble (x : Double) : Constant := ⟨x.bits.toNat, .double⟩

/-- The null value of a handle type. -/
def null (typ : Ty) : Constant := ⟨0, typ⟩

end Constant

/-- The part of a managed object that is accessed. -/
inductive Member where
  /-- The whole object. -/
  | whole
  /-- A struct member, by position. -/
  | field (index : Nat)
  /-- An array element, at the index held in a variable. -/
  | element (index : Nat)
  deriving DecidableEq, Repr

/-- What a call or a match arm transfers control to. -/
inductive BlockRef where
  /-- A block of this object. -/
  | here (block : Nat)
  /-- A function that some object exports. -/
  | external (symbol : String)
  /-- A routine of the runtime library. -/
  | builtin (name : String)
  /-- The reference of entries that stand for nothing. -/
  | unspecified
  deriving DecidableEq, Repr

/-- The messages and the source position attached to an entry. -/
structure Note where
  diagnostics : List Nat
  location : Option Nat
  deriving DecidableEq, Repr

/-- One step of execution. -/
inductive Statement where
  /-- `target = value`. -/
  | assignConst (target : Nat) (value : Constant) (note : Note)
  /-- `target = source`. Structs are copied, handles and arrays shared. -/
  | assign (target source : Nat) (note : Note)
  /-- `outputs… = block(input…)`. -/
  | call (block : BlockRef) (input outputs : List Nat) (note : Note)
  /-- Builds a struct from one variable per member. -/
  | construct (target : Nat) (initializer : List Nat) (note : Note)
  /-- Copies each member of a struct into a variable. -/
  | destructure (whole : Nat) (parts : List Nat) (note : Note)
  /-- `target = handle.member`. -/
  | load (handle : Nat) (member : Member) (target : Nat) (note : Note)
  /-- `handle.member = value`. -/
  | store (handle : Nat) (member : Member) (value : Nat) (note : Note)
  /-- A slot that was reserved and never filled. -/
  | poisoned (poison : Poison)
  deriving DecidableEq, Repr

/-- One arm of a branch, taken when its condition is true. -/
structure MatchArm where
  condition : Nat
  target : BlockRef
  poison : Poison
  diagnostics : List Nat
  location : Option Nat
  deriving DecidableEq, Repr

/-! ### Variables and types -/

/-- Where the storage of a variable is. -/
inductive Linkage where
  /-- In the frame of the function. -/
  | frame
  /-- In a global that is exported under a name. -/
  | external (symbol : String)
  /-- The linkage of entries that stand for nothing. -/
  | unspecified
  deriving DecidableEq, Repr

/-- A typed storage slot. One that stands for a named source variable has its name as a
diagnostic. -/
structure Variable where
  typ : Ty
  linkage : Linkage
  poison : Poison
  diagnostics : List Nat
  location : Option Nat
  deriving DecidableEq, Repr

/-- An array type: the type of its members and its length. -/
structure ArrayType where
  memberType : Ty
  length : Nat
  poison : Poison
  deriving DecidableEq, Repr

/-- A struct type, with named members in declaration order. -/
structure StructType where
  name : String
  memberNames : List String
  members : List Ty
  poison : Poison
  deriving DecidableEq, Repr

/-! ### Diagnostics -/

/-- A message attached to an entry. -/
structure Diagnostic where
  message : String
  poison : Poison
  location : Option Nat
  deriving DecidableEq, Repr

/-- A position in a source file. -/
structure Location where
  source : String
  line : Option Nat
  poison : Poison
  deriving DecidableEq, Repr

/-! ### Poisoned entries -/

/-- What all entries have in common: one can stand in for any of them, poisoned. -/
class Entry (α : Type) where
  poisoned : Poison → α
  isPoisoned : α → Bool

instance : Entry Block := ⟨fun p => ⟨none, p, [], .unspecified, []⟩, fun b => b.poison.isPoisoned⟩

instance : Entry MatchArm :=
  ⟨fun p => ⟨0, .unspecified, p, [], none⟩, fun a => a.poison.isPoisoned⟩

instance : Entry Variable :=
  ⟨fun p => ⟨.unspecified, .unspecified, p, [], none⟩, fun v => v.poison.isPoisoned⟩

instance : Entry ArrayType := ⟨fun p => ⟨.unspecified, 0, p⟩, fun a => a.poison.isPoisoned⟩

instance : Entry StructType := ⟨fun p => ⟨"", [], [], p⟩, fun s => s.poison.isPoisoned⟩

instance : Entry Diagnostic := ⟨fun p => ⟨"", p, none⟩, fun d => d.poison.isPoisoned⟩

instance : Entry Location := ⟨fun p => ⟨"", none, p⟩, fun l => l.poison.isPoisoned⟩

/-- A statement is poisoned by being one, even if the poison in it says that it is usable. -/
instance : Entry Statement :=
  ⟨.poisoned, fun s => match s with
    | .poisoned _ => true
    | _ => false⟩

end GimpleLowering.Flo

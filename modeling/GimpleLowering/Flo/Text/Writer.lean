import GimpleLowering.Flo.Object
import GimpleLowering.Sexpr.Basic

/-!
# Writing objects as text

The text form of an object is an s-expression. A record is a list of pairs of field names and
values in declaration order, an absent value is the empty list, and an alternative is its name,
followed by its parts in a list if it has any. Only complete objects are written. The value of a
constant is wider than the form has room for, so an object that assigns a constant has no text.

## Main definitions

* `Flo.Object.sexpr?` — an object as an s-expression
* `Flo.Object.text` — the text, or the reason why there is none
-/

namespace GimpleLowering.Flo

open Sexpr

/-- A truth value or a number, as a symbol. -/
def atom [ToString α] (a : α) : Sexpr := .symbol (toString a)

/-- A list of numbers. -/
def ids (xs : List Nat) : Sexpr := .list (xs.map atom)

/-- A value, or the empty list. -/
def optionSexpr (write : α → Sexpr) : Option α → Sexpr
  | some a => write a
  | none => .list []

/-- The pairs of a record. -/
def recordSexpr (fields : List (String × Sexpr)) : Sexpr :=
  .list (fields.map fun (name, value) => .list [.symbol name, value])

/-- An alternative with parts. -/
def variantSexpr (name : String) (parts : List Sexpr) : Sexpr := .list (.symbol name :: parts)

/-- Whether and why an entry is unusable. -/
def Poison.sexpr : Poison → Sexpr
  | .usable => .symbol "None"
  | .because reason => variantSexpr "Poison" [.symbol reason]
  | .undefined => .symbol "Undefined"
  | .nullEntry => .symbol "NullInternedValue"

/-- A runtime type. -/
def Ty.sexpr : Ty → Sexpr
  | .bool => .symbol "Bool"
  | .signed32 => .symbol "Signed32"
  | .signed64 => .symbol "Signed64"
  | .double => .symbol "Double"
  | .array id => variantSexpr "Array" [atom id]
  | .struct id => variantSexpr "Struct" [atom id]
  | .handle pointee nullable =>
    variantSexpr "Handle" [recordSexpr [("pointee", pointee.sexpr), ("nullable", atom nullable)]]
  | .unspecified => .symbol "Unspecified"

/-- The signature of a function. -/
def Signature.sexpr (s : Signature) : Sexpr :=
  recordSexpr [("params", ids s.params), ("returns", ids s.returns),
    ("can_panic", atom s.canPanic), ("location", optionSexpr atom s.location)]

/-- The end of a block. -/
def BlockExit.sexpr : BlockExit → Sexpr
  | .ret values => variantSexpr "Return" [ids values]
  | .panic message values => variantSexpr "Panic" [.symbol message, ids values]
  | .goto block => variantSexpr "Goto" [atom block]
  | .branch arms => variantSexpr "Match" [ids arms]
  | .unspecified => .symbol "Unspecified"

/-- A block. -/
def Block.sexpr (b : Block) : Sexpr :=
  recordSexpr [("signature", optionSexpr Signature.sexpr b.signature),
    ("poison", b.poison.sexpr), ("statements", ids b.statements), ("exit", b.exit.sexpr),
    ("diagnostics", ids b.diagnostics)]

/-- The part of an object that is accessed. -/
def Member.sexpr : Member → Sexpr
  | .whole => .symbol "Whole"
  | .field index => variantSexpr "Field" [atom index]
  | .element index => variantSexpr "Element" [atom index]

/-- The target of a call or an arm. -/
def BlockRef.sexpr : BlockRef → Sexpr
  | .here block => variantSexpr "Local" [atom block]
  | .external name => variantSexpr "External" [.symbol name]
  | .builtin name => variantSexpr "Builtin" [.symbol name]
  | .unspecified => .symbol "Unspecified"

/-- A statement, unless it assigns a constant. -/
def Statement.sexpr? : Statement → Option Sexpr
  | .assignConst .. => none
  | .assign target source note =>
    step "Assign" [("target", atom target), ("source", atom source)] note
  | .call block input outputs note =>
    step "Call" [("block", block.sexpr), ("input", ids input), ("outputs", ids outputs)] note
  | .construct target initializer note =>
    step "Construct" [("target", atom target), ("initializer", ids initializer)] note
  | .destructure whole parts note =>
    step "Destructure" [("whole", atom whole), ("parts", ids parts)] note
  | .load handle member target note =>
    step "Load" [("handle", atom handle), ("member", member.sexpr), ("target", atom target)] note
  | .store handle member value note =>
    step "Store" [("handle", atom handle), ("member", member.sexpr), ("value", atom value)] note
  | .poisoned poison => some (variantSexpr "Poisoned" [poison.sexpr])
where
  /-- A statement by its name and fields, with the note after them. -/
  step (name : String) (fields : List (String × Sexpr)) (note : Note) : Option Sexpr :=
    some (variantSexpr name [recordSexpr (fields
      ++ [("diagnostics", ids note.diagnostics), ("location", optionSexpr atom note.location)])])

/-- A match arm. -/
def MatchArm.sexpr (a : MatchArm) : Sexpr :=
  recordSexpr [("condition", atom a.condition), ("target_block", a.target.sexpr),
    ("poison", a.poison.sexpr), ("diagnostics", ids a.diagnostics),
    ("location", optionSexpr atom a.location)]

/-- Where a variable is stored. -/
def Linkage.sexpr : Linkage → Sexpr
  | .frame => .symbol "Local"
  | .external name => variantSexpr "External" [.symbol name]
  | .unspecified => .symbol "Unspecified"

/-- A variable. -/
def Variable.sexpr (v : Variable) : Sexpr :=
  recordSexpr [("typ", v.typ.sexpr), ("linkage", v.linkage.sexpr), ("poison", v.poison.sexpr),
    ("diagnostics", ids v.diagnostics), ("location", optionSexpr atom v.location)]

/-- An array type. -/
def ArrayType.sexpr (a : ArrayType) : Sexpr :=
  recordSexpr [("member_type", a.memberType.sexpr), ("length", atom a.length),
    ("poison", a.poison.sexpr)]

/-- A struct type. -/
def StructType.sexpr (s : StructType) : Sexpr :=
  recordSexpr [("name", .symbol s.name), ("member_names", .list (s.memberNames.map .symbol)),
    ("members", .list (s.members.map Ty.sexpr)), ("poison", s.poison.sexpr)]

/-- A diagnostic. -/
def Diagnostic.sexpr (d : Diagnostic) : Sexpr :=
  recordSexpr [("message", .symbol d.message), ("poison", d.poison.sexpr),
    ("location", optionSexpr atom d.location)]

/-- A source position. -/
def Location.sexpr (l : Location) : Sexpr :=
  recordSexpr [("source", .symbol l.source), ("line", optionSexpr atom l.line),
    ("poison", l.poison.sexpr)]

/-- A table, with the null entry. -/
def Table.sexpr (write : α → Sexpr) (t : Table α) : Sexpr :=
  recordSexpr [("entries", .list (t.entries.toList.map write))]

/-- The exported names. -/
def symbolsSexpr (p : Pairing String Nat) : Sexpr :=
  recordSexpr [("code",
    .list (p.pairs.map fun (name, block) => .list [.symbol name, atom block]))]

/-- An object, unless one of its statements has no s-expression. -/
def Object.sexpr? (o : Object) : Option Sexpr := do
  let statements ← o.statements.entries.toList.mapM Statement.sexpr?
  return recordSexpr [("module_name", .symbol o.moduleName), ("symbols", symbolsSexpr o.symbols),
    ("blocks", o.blocks.sexpr Block.sexpr),
    ("statements", recordSexpr [("entries", .list statements)]),
    ("match_arms", o.matchArms.sexpr MatchArm.sexpr),
    ("variables", o.vars.sexpr Variable.sexpr),
    ("types", recordSexpr [("arrays", o.types.arrays.sexpr ArrayType.sexpr),
      ("structs", o.types.structs.sexpr StructType.sexpr)]),
    ("diagnostics", o.diagnostics.sexpr Diagnostic.sexpr),
    ("locations", o.locations.sexpr Location.sexpr)]

/-- Why an object has no text. -/
inductive TextFailure where
  /-- Code can reach a poisoned entry. -/
  | incomplete (object : Object)
  /-- A statement assigns a constant. -/
  | constant

/-- The words for why an object has no text. -/
def TextFailure.message : TextFailure → String
  | incomplete o => o.incompleteText
  | constant => "u128 is not supported"

/-- The text of a complete object. -/
def Object.text (o : Object) : Except TextFailure String :=
  if o.isComplete then
    match o.sexpr? with
    | some s => .ok s.text
    | none => .error .constant
  else .error (.incomplete o)

end GimpleLowering.Flo

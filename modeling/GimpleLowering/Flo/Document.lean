import GimpleLowering.Flo.Object
import GimpleLowering.Json.Document

/-!
# Objects as JSON documents

The document that says everything about an object, entry by entry, for tools that would rather not
read s-expressions. Records have all their fields, an absent value is `null`, and an alternative is
its name, or an object with its name as the only member if it holds anything. Unlike the text form
it has room for constants, and it does not ask whether the object is complete.
-/

namespace GimpleLowering.Flo

open Json

/-- A value or `null`. -/
def orNull {α : Type} (write : α → Document) : Option α → Document
  | some a => write a
  | none => .null

/-- A list of ids. -/
def idDocuments (ids : List Nat) : Document := .list (ids.map .nat)

/-- A list of names. -/
def nameDocuments (names : List String) : Document := .list (names.map .text)

/-- An alternative that holds something. -/
def holding (name : String) (content : Document) : Document := .record [(name, content)]

/-- Whether and why an entry is unusable. -/
def Poison.document : Poison → Document
  | .usable => .text "None"
  | .because reason => holding "Poison" (.text reason)
  | .undefined => .text "Undefined"
  | .nullEntry => .text "NullInternedValue"

/-- A runtime type. -/
def Ty.document : Ty → Document
  | .bool => .text "Bool"
  | .signed32 => .text "Signed32"
  | .signed64 => .text "Signed64"
  | .double => .text "Double"
  | .array id => holding "Array" (.nat id)
  | .struct id => holding "Struct" (.nat id)
  | .handle pointee nullable =>
    holding "Handle" (.record [("pointee", pointee.document), ("nullable", .bool nullable)])
  | .unspecified => .text "Unspecified"

/-- The signature of a function. -/
def Signature.document (s : Signature) : Document :=
  .record [("params", idDocuments s.params), ("returns", idDocuments s.returns),
    ("can_panic", .bool s.canPanic), ("location", orNull .nat s.location)]

/-- The end of a block. -/
def BlockExit.document : BlockExit → Document
  | .ret values => holding "Return" (idDocuments values)
  | .panic message values => holding "Panic" (.list [.text message, idDocuments values])
  | .goto block => holding "Goto" (.nat block)
  | .branch arms => holding "Match" (idDocuments arms)
  | .unspecified => .text "Unspecified"

/-- A block. -/
def Block.document (b : Block) : Document :=
  .record [("signature", orNull Signature.document b.signature), ("poison", b.poison.document),
    ("statements", idDocuments b.statements), ("exit", b.exit.document),
    ("diagnostics", idDocuments b.diagnostics)]

/-- The part of an object that is accessed. -/
def Member.document : Member → Document
  | .whole => .text "Whole"
  | .field index => holding "Field" (.nat index)
  | .element index => holding "Element" (.nat index)

/-- The target of a call or an arm. -/
def BlockRef.document : BlockRef → Document
  | .here block => holding "Local" (.nat block)
  | .external name => holding "External" (.text name)
  | .builtin name => holding "Builtin" (.text name)
  | .unspecified => .text "Unspecified"

/-- A constant. -/
def Constant.document (c : Constant) : Document :=
  .record [("value", .nat c.value), ("typ", c.typ.document)]

/-- A statement. -/
def Statement.document : Statement → Document
  | .assignConst target value note =>
    step "AssignConst" [("variable", .nat target), ("value", value.document)] note
  | .assign target source note =>
    step "Assign" [("target", .nat target), ("source", .nat source)] note
  | .call block input outputs note =>
    step "Call" [("block", block.document), ("input", idDocuments input),
      ("outputs", idDocuments outputs)] note
  | .construct target initializer note =>
    step "Construct" [("target", .nat target), ("initializer", idDocuments initializer)] note
  | .destructure whole parts note =>
    step "Destructure" [("whole", .nat whole), ("parts", idDocuments parts)] note
  | .load handle member target note =>
    step "Load" [("handle", .nat handle), ("member", member.document), ("target", .nat target)]
      note
  | .store handle member value note =>
    step "Store" [("handle", .nat handle), ("member", member.document), ("value", .nat value)] note
  | .poisoned poison => holding "Poisoned" poison.document
where
  /-- A statement by its name and fields, with the note after them. -/
  step (name : String) (fields : List (String × Document)) (note : Note) : Document :=
    holding name (.record (fields
      ++ [("diagnostics", idDocuments note.diagnostics), ("location", orNull .nat note.location)]))

/-- A match arm. -/
def MatchArm.document (a : MatchArm) : Document :=
  .record [("condition", .nat a.condition), ("target_block", a.target.document),
    ("poison", a.poison.document), ("diagnostics", idDocuments a.diagnostics),
    ("location", orNull .nat a.location)]

/-- Where a variable is stored. -/
def Linkage.document : Linkage → Document
  | .frame => .text "Local"
  | .external name => holding "External" (.text name)
  | .unspecified => .text "Unspecified"

/-- A variable. -/
def Variable.document (v : Variable) : Document :=
  .record [("typ", v.typ.document), ("linkage", v.linkage.document), ("poison", v.poison.document),
    ("diagnostics", idDocuments v.diagnostics), ("location", orNull .nat v.location)]

/-- An array type. -/
def ArrayType.document (a : ArrayType) : Document :=
  .record [("member_type", a.memberType.document), ("length", .nat a.length),
    ("poison", a.poison.document)]

/-- A struct type. -/
def StructType.document (s : StructType) : Document :=
  .record [("name", .text s.name), ("member_names", nameDocuments s.memberNames),
    ("members", .list (s.members.map Ty.document)), ("poison", s.poison.document)]

/-- A diagnostic. -/
def Diagnostic.document (d : Diagnostic) : Document :=
  .record [("message", .text d.message), ("poison", d.poison.document),
    ("location", orNull .nat d.location)]

/-- A source position. -/
def Location.document (l : Location) : Document :=
  .record [("source", .text l.source), ("line", orNull .nat l.line), ("poison", l.poison.document)]

/-- A table, with the null entry. -/
def Table.document {α : Type} (write : α → Document) (t : Table α) : Document :=
  .record [("entries", .list (t.entries.toList.map write))]

/-- The array and struct types. -/
def TypeTables.document (t : TypeTables) : Document :=
  .record [("arrays", t.arrays.document ArrayType.document),
    ("structs", t.structs.document StructType.document)]

/-- An object. The exported names are the members of an object. -/
def Object.document (o : Object) : Document :=
  .record [("module_name", .text o.moduleName),
    ("symbols", .record [("code", .record (o.symbols.pairs.map fun p => (p.1, .nat p.2)))]),
    ("blocks", o.blocks.document Block.document),
    ("statements", o.statements.document Statement.document),
    ("match_arms", o.matchArms.document MatchArm.document),
    ("variables", o.vars.document Variable.document), ("types", o.types.document),
    ("diagnostics", o.diagnostics.document Diagnostic.document),
    ("locations", o.locations.document Location.document)]

end GimpleLowering.Flo

import GimpleLowering.Gimple.Unit
import GimpleLowering.Json.Fields
import GimpleLowering.Json.Reader

/-!
# Reading units from JSON

The compiler plugin describes a unit as JSON. Types, operands and statements are objects with a
tag (`type` or `code`); everything else is a record. The names in here are the plugin's, and the
titles are those that its messages use.

Nesting is limited: a text with more than `nestingLimit` arrays and objects inside each other is
refused. The readers of types and operands call themselves, each time at least one level further
down, so a number of calls that exceeds the levels left is never used up.

## Main definitions

* `Gimple.Ty.read`, `Expr.read`, `Statement.read`, `Function.read`, `CompilationUnit.read` —
  readers of documents
* `Gimple.readText` — a reader of documents as a reader of texts
-/

namespace GimpleLowering.Gimple

open Json Json.Fields

/-- Arrays and objects may be nested this deep. -/
def nestingLimit : Nat := 127

/-- The whole text as one document without anything after it. -/
def readText (read : Nat → Document → Except Defect α) (text : String) : Except Defect α :=
  let (d, ends) := Document.ofText text
  match read nestingLimit d with
  | .ok a => if ends then .ok a else .error .notJson
  | .error e => .error e

/-! ### Types -/

/-- The tags of types. -/
def Ty.Kind.variants : Variants Ty.Kind :=
  ⟨Ty.Kind.all.map fun k => (k.tag, k), Ty.Kind.all.map Ty.Kind.tag, Ty.Kind.all⟩

/-- A field of a record, given a reader of types. It has been taken in as a whole if it is part of
a type, and has not if it is part of a definition. -/
def Field.readWith (readTy : Nat → Document → Except Defect Ty) (takenIn : Bool) :
    Nat → Document → Except Defect Field :=
  record "struct GimpleField"
    (fun depth => Field.mk <$> required ["name"] Document.asText
      <*> required ["type"] (readTy depth))
    takenIn

/-- A type, with at most `calls` types inside each other. The types inside of it have been taken in
with it. -/
def Ty.readWithin : (calls : Nat) → (takenIn : Bool) → (depth : Nat) → Document → Except Defect Ty
  | 0, _, _, _ => .error .notJson
  | calls + 1, takenIn, depth, d => do
    let (kind, parts) ← d.takeTag "type" "GimpleType" Kind.variants takenIn depth
    let inner := depth - 1
    let width := required ["width", "precision"] Document.asWord32
    let base := required ["base_type"] (readWithin calls true inner)
    match kind with
    | .integer => parts.fields "struct variant GimpleType::Integer" (Ty.integer <$> width)
    | .real => parts.fields "struct variant GimpleType::Real" (Ty.real <$> width)
    | .boolean =>
      match parts with
      | .members _ => .ok .boolean
      | .items ds => Payload.fields (.items ds) "" (pure .boolean)
    | .pointer => parts.fields "struct variant GimpleType::Pointer" (Ty.pointer <$> base)
    | .reference => parts.fields "struct variant GimpleType::Reference" (Ty.reference <$> base)
    | .array =>
      parts.fields "struct variant GimpleType::Array"
        (Ty.array <$> base <*> required ["length"] Document.asWord64)
    | .record =>
      parts.fields "struct variant GimpleType::Record"
        (Ty.record <$> defaulted ["name"] Document.asText ""
          <*> defaulted ["fields"]
            (Document.asList (Field.readWith (readWithin calls true) true) inner) [])

/-- A type that is part of an untagged record, or stands alone. -/
def Ty.read (depth : Nat) (d : Document) : Except Defect Ty :=
  Ty.readWithin (depth + 1) false depth d

/-- A type that has been taken in as part of an operand or statement. -/
def Ty.readPart (depth : Nat) (d : Document) : Except Defect Ty :=
  Ty.readWithin (depth + 1) true depth d

/-! ### Operators -/

/-- The codes that name an operator. The operands of a plain copy name it, too. -/
def Operator.codes : Operator → List String
  | .copy =>
    ["array_ref", "component_ref", "integer_cst", "mem_ref", "nop_expr", "parm_decl", "real_cst",
     "ssa_name", "var_decl"]
  | .convert => ["convert_expr", "nop_convert_expr"]
  | op => [op.name]

/-- The codes of all operators. -/
def Operator.variants : Variants Operator :=
  ⟨Operator.all.flatMap fun op => op.codes.map fun code => (code, op),
   Operator.all.flatMap Operator.codes, Operator.all⟩

/-- An operator by itself: its code, or an object that gives the code a `null`. -/
def Operator.read (depth : Nat) : Document → Except Defect Operator
  | .string (some code) => variants.ofName code
  | .object ((some code, d) :: rest) closed =>
    match depth with
    | 0 => .error .notJson
    | _ + 1 => do
      let op ← variants.ofName code
      match d with
      | .null => if rest.isEmpty && closed then .ok op else .error .notJson
      | d => .error (d.mismatch "unit")
  | _ => .error .notJson

/-- The operator of a statement, which has been taken in as a whole. -/
def Operator.readPart : Document → Except Defect Operator
  | .string (some code) => variants.ofName code
  | .object [(some code, d)] _ => do
    let op ← variants.ofName code
    match d with
    | .null | .object [] _ => .ok op
    | d => .error (d.mismatch "unit")
  | .object _ _ => .error (.wrongValue .map "map with a single key")
  | d => .error (d.mismatch "string or map")

/-! ### Operands -/

namespace Expr

/-- An operand without its parts. -/
inductive Shape where
  | integer | real | named | component | deref | element | address
  deriving DecidableEq, Repr

/-- The codes of operands. Variables are reported under three of them. -/
def Shape.variants : Variants Shape :=
  ⟨[("integer_cst", .integer), ("real_cst", .real), ("parm_decl", .named), ("ssa_name", .named),
    ("var_decl", .named), ("component_ref", .component), ("mem_ref", .deref),
    ("array_ref", .element), ("addr_expr", .address)],
   ["integer_cst", "real_cst", "parm_decl", "ssa_name", "var_decl", "component_ref", "mem_ref",
    "array_ref", "addr_expr"],
   [.integer, .real, .named, .component, .deref, .element, .address]⟩

/-- An operand, with at most `calls` operands inside each other. The operands and types inside of
it have been taken in with it. -/
def readWithin : (calls : Nat) → (takenIn : Bool) → (depth : Nat) → Document → Except Defect Expr
  | 0, _, _, _ => .error .notJson
  | calls + 1, takenIn, depth, d => do
    let (shape, parts) ← d.takeTag "code" "GimpleExpr" Shape.variants takenIn depth
    let inner := depth - 1
    let ty := required ["type"] (Ty.readPart inner)
    let part (name : String) := required [name] (readWithin calls true inner)
    match shape with
    | .integer =>
      parts.fields "struct variant GimpleExpr::IntegerConstant"
        (Expr.integer <$> ty <*> required ["value"] Document.asSigned64)
    | .real =>
      parts.fields "struct variant GimpleExpr::RealConstant"
        (Expr.real <$> ty <*> required ["value"] Document.asDouble)
    | .named =>
      parts.fields "struct variant GimpleExpr::Variable"
        (Expr.named <$> ty <*> required ["name"] Document.asText)
    | .component =>
      parts.fields "struct variant GimpleExpr::ComponentRef"
        (Expr.component <$> ty <*> part "value" <*> required ["member"] Document.asText)
    | .deref =>
      parts.fields "struct variant GimpleExpr::MemRef" (Expr.deref <$> ty <*> part "pointer")
    | .element =>
      parts.fields "struct variant GimpleExpr::ArrayRef"
        (Expr.element <$> ty <*> part "array" <*> part "index")
    | .address =>
      parts.fields "struct variant GimpleExpr::AddressOf" (Expr.address <$> ty <*> part "value")

/-- An operand that stands alone. -/
def read (depth : Nat) (d : Document) : Except Defect Expr := readWithin (depth + 1) false depth d

/-- An operand that has been taken in as part of a statement. -/
def readPart (depth : Nat) (d : Document) : Except Defect Expr :=
  readWithin (depth + 1) true depth d

end Expr

/-! ### Statements -/

/-- A label of a switch. -/
def Case.read : Nat → Document → Except Defect Case :=
  record "struct GimpleCase"
    (fun _ => Case.mk <$> required ["low"] Document.asSigned64
      <*> optional ["high"] Document.asSigned64 <*> required ["block"] Document.asWord32)
    true

namespace Statement

/-- A statement without its parts. -/
inductive Shape where
  | assign | call | conditional | ret | goto | switch
  deriving DecidableEq, Repr

/-- The tags of statements. -/
def Shape.variants : Variants Shape :=
  ⟨[("assign", .assign), ("call", .call), ("conditional", .conditional), ("return", .ret),
    ("goto", .goto), ("switch", .switch)],
   ["assign", "call", "conditional", "return", "goto", "switch"],
   [.assign, .call, .conditional, .ret, .goto, .switch]⟩

/-- A statement. -/
def read (depth : Nat) (d : Document) : Except Defect Statement := do
  let (shape, parts) ← d.takeTag "type" "GimpleStatement" Shape.variants false depth
  let inner := depth - 1
  let operator := required ["operator"] Operator.readPart
  let operands := required ["operands"] (Document.asList Expr.readPart inner)
  let line := optional ["line"] Document.asWord32
  let label (name : String) := required [name] Document.asWord32
  match shape with
  | .assign =>
    parts.fields "struct GimpleAssign"
      (Statement.assign <$> operator <*> required ["lhs"] (Expr.readPart inner) <*> operands <*> line)
  | .call =>
    parts.fields "struct GimpleCall"
      (Statement.call <$> required ["function"] Document.asText
        <*> defaulted ["arguments"] (Document.asList Expr.readPart inner) []
        <*> optional ["lhs"] (Expr.readPart inner) <*> line)
  | .conditional =>
    parts.fields "struct GimpleConditional"
      (Statement.conditional <$> operator <*> operands <*> label "true_label"
        <*> label "false_label" <*> line)
  | .ret =>
    parts.fields "struct GimpleReturn"
      (Statement.ret <$> optional ["value"] (Expr.readPart inner) <*> line)
  | .goto => parts.fields "struct GimpleGoto" (Statement.goto <$> label "target" <*> line)
  | .switch =>
    parts.fields "struct GimpleSwitch"
      (Statement.switch <$> required ["value"] (Expr.readPart inner)
        <*> defaulted ["cases"] (Document.asList Case.read inner) [] <*> label "default_label"
        <*> line)

end Statement

/-! ### Functions and units -/

/-- A parameter, a local variable or a global. -/
def Declaration.read : Nat → Document → Except Defect Declaration :=
  record "struct GimpleVarDecl"
    (fun depth => Declaration.mk <$> required ["name"] Document.asText
      <*> required ["type"] (Ty.read depth))
    false

/-- A basic block. -/
def Block.read : Nat → Document → Except Defect Block :=
  record "struct GimpleBasicBlock"
    (fun depth => Block.mk <$> required ["index"] Document.asWord32
      <*> defaulted ["statements"] (Document.asList Statement.read depth) [])
    false

/-- A function definition. -/
def Function.read : Nat → Document → Except Defect Function :=
  record "struct GimpleFunction"
    (fun depth => Function.mk <$> required ["name"] Document.asText
      <*> defaulted ["parameters"] (Document.asList Declaration.read depth) []
      <*> optional ["return_type"] (Ty.read depth)
      <*> required ["entry_block"] Document.asWord32
      <*> defaulted ["variables"] (Document.asList Declaration.read depth) []
      <*> required ["blocks"] (Document.asList Block.read depth))
    false

/-- The signature of a function. -/
def Signature.read : Nat → Document → Except Defect Signature :=
  record "struct GimpleFunctionDecl"
    (fun depth => Signature.mk <$> required ["name"] Document.asText
      <*> defaulted ["parameter_types"] (Document.asList Ty.read depth) []
      <*> optional ["return_type"] (Ty.read depth))
    false

/-- The definition of a record. -/
def RecordDefinition.read : Nat → Document → Except Defect RecordDefinition :=
  record "struct GimpleRecordDefinition"
    (fun depth => RecordDefinition.mk <$> required ["name"] Document.asText
      <*> required ["fields"] (Document.asList (Field.readWith Ty.read false) depth))
    false

/-- A compilation unit. -/
def CompilationUnit.read : Nat → Document → Except Defect CompilationUnit :=
  record "struct GimpleCompilationUnit"
    (fun depth => CompilationUnit.mk <$> optional ["source_file"] Document.asText
      <*> defaulted ["functions"] (Document.asList Function.read depth) []
      <*> defaulted ["globals"] (Document.asList Declaration.read depth) []
      <*> defaulted ["records"] (Document.asList RecordDefinition.read depth) []
      <*> defaulted ["declarations"] (Document.asList Signature.read depth) [])
    false

end GimpleLowering.Gimple

import GimpleLowering.Gimple.Unit
import GimpleLowering.Json.Document
import GimpleLowering.Number.Shortest

/-!
# Writing units as JSON

The document that says everything about a unit: every field is there, also an absent one as
`null`, under its first name and with the first code of an alternative. How real numbers are written
is left open (`documentWith`); `document` writes them with the fewest digits that round to them.
-/

namespace GimpleLowering.Gimple

open Json

/-- A value or `null`. -/
def optionDocument (write : α → Document) : Option α → Document
  | some a => write a
  | none => .null

/-- A real number. Infinities and values that are not numbers have no JSON, and are `null`. -/
def realDocument (write : Double → Numeral) (x : Double) : Document :=
  if x.isFinite then .number (write x) else .null

/-- A finite number with the fewest digits that round to it. -/
def shortestNumeral (x : Double) : Numeral :=
  let (c, k) := if x.isZero then (0, 0) else x.shortest .even
  .decimal x.negative c [] k

mutual

/-- The document of a type. -/
def Ty.document : Ty → Document
  | .integer width => .record [("type", .text "integer_type"), ("width", .nat width)]
  | .real width => .record [("type", .text "real_type"), ("width", .nat width)]
  | .boolean => .record [("type", .text "boolean_type")]
  | .pointer base => .record [("type", .text "pointer_type"), ("base_type", base.document)]
  | .reference base => .record [("type", .text "reference_type"), ("base_type", base.document)]
  | .array base length =>
    .record [("type", .text "array_type"), ("base_type", base.document), ("length", .nat length)]
  | .record name fields =>
    .record [("type", .text "record_type"), ("name", .text name),
      ("fields", .list (Field.documents fields))]
termination_by structural ty => ty

/-- The documents of the fields of a record. -/
def Field.documents : List Field → List Document
  | [] => []
  | ⟨name, ty⟩ :: rest =>
    .record [("name", .text name), ("type", ty.document)] :: Field.documents rest
termination_by structural fs => fs

end

/-- The document of an operand. -/
def Expr.documentWith (write : Double → Numeral) : Expr → Document
  | .integer ty value =>
    .record [("code", .text "integer_cst"), ("type", ty.document), ("value", .int value)]
  | .real ty value =>
    .record [("code", .text "real_cst"), ("type", ty.document),
      ("value", realDocument write value)]
  | .named ty name =>
    .record [("code", .text "var_decl"), ("type", ty.document), ("name", .text name)]
  | .component ty value member =>
    .record [("code", .text "component_ref"), ("type", ty.document),
      ("value", value.documentWith write), ("member", .text member)]
  | .deref ty pointer =>
    .record [("code", .text "mem_ref"), ("type", ty.document),
      ("pointer", pointer.documentWith write)]
  | .element ty array index =>
    .record [("code", .text "array_ref"), ("type", ty.document),
      ("array", array.documentWith write), ("index", index.documentWith write)]
  | .address ty value =>
    .record [("code", .text "addr_expr"), ("type", ty.document),
      ("value", value.documentWith write)]

/-- The document of a label of a switch. -/
def Case.document (c : Case) : Document :=
  .record [("low", .int c.low), ("high", optionDocument .int c.high), ("block", .nat c.block)]

/-- The document of a statement. -/
def Statement.documentWith (write : Double → Numeral) (s : Statement) : Document :=
  let tag := ("type", Document.text s.kindName)
  let line := ("line", optionDocument Document.nat s.line)
  match s with
  | .assign operator lhs operands _ =>
    .record [tag, ("operator", .text operator.name), ("lhs", lhs.documentWith write),
      ("operands", .list (operands.map (Expr.documentWith write))), line]
  | .call function arguments lhs _ =>
    .record [tag, ("function", .text function),
      ("arguments", .list (arguments.map (Expr.documentWith write))),
      ("lhs", optionDocument (Expr.documentWith write) lhs), line]
  | .conditional operator operands trueLabel falseLabel _ =>
    .record [tag, ("operator", .text operator.name),
      ("operands", .list (operands.map (Expr.documentWith write))),
      ("true_label", .nat trueLabel), ("false_label", .nat falseLabel), line]
  | .ret value _ => .record [tag, ("value", optionDocument (Expr.documentWith write) value), line]
  | .goto target _ => .record [tag, ("target", .nat target), line]
  | .switch value cases default _ =>
    .record [tag, ("value", value.documentWith write),
      ("cases", .list (cases.map Case.document)), ("default_label", .nat default), line]

/-- The document of a declaration. -/
def Declaration.document (v : Declaration) : Document :=
  .record [("name", .text v.name), ("type", v.ty.document)]

/-- The document of a block. -/
def Block.documentWith (write : Double → Numeral) (b : Block) : Document :=
  .record [("index", .nat b.index),
    ("statements", .list (b.statements.map (Statement.documentWith write)))]

/-- The document of a function. -/
def Function.documentWith (write : Double → Numeral) (f : Function) : Document :=
  .record [("name", .text f.name),
    ("parameters", .list (f.parameters.map Declaration.document)),
    ("return_type", optionDocument Ty.document f.returnType), ("entry_block", .nat f.entryBlock),
    ("variables", .list (f.locals.map Declaration.document)),
    ("blocks", .list (f.blocks.map (Block.documentWith write)))]

/-- The document of a signature. -/
def Signature.document (s : Signature) : Document :=
  .record [("name", .text s.name),
    ("parameter_types", .list (s.parameterTypes.map Ty.document)),
    ("return_type", optionDocument Ty.document s.returnType)]

/-- The document of a record definition. -/
def RecordDefinition.document (r : RecordDefinition) : Document :=
  .record [("name", .text r.name), ("fields", .list (Field.documents r.fields))]

/-- The document of a unit. -/
def CompilationUnit.documentWith (write : Double → Numeral) (u : CompilationUnit) : Document :=
  .record [("source_file", optionDocument Document.text u.sourceFile),
    ("functions", .list (u.functions.map (Function.documentWith write))),
    ("globals", .list (u.globals.map Declaration.document)),
    ("records", .list (u.records.map RecordDefinition.document)),
    ("declarations", .list (u.declarations.map Signature.document))]

/-! ### Shortest digits -/

/-- The document of an operand, its real numbers with the fewest digits. -/
def Expr.document (e : Expr) : Document := e.documentWith shortestNumeral

/-- The document of a statement, its real numbers with the fewest digits. -/
def Statement.document (s : Statement) : Document := s.documentWith shortestNumeral

/-- The document of a function, its real numbers with the fewest digits. -/
def Function.document (f : Function) : Document := f.documentWith shortestNumeral

/-- The document of a unit, its real numbers with the fewest digits. -/
def CompilationUnit.document (u : CompilationUnit) : Document := u.documentWith shortestNumeral

end GimpleLowering.Gimple

import GimpleLowering.Flo.Object

/-!
# Objects under construction

A draft is an object that is being built for one source file. Entries are added one by one, and a
block can be reserved before its contents are known, so a draft need not be complete. A source line
has at most one location in it, however often it is mentioned.

## Main definitions

* `Flo.Draft` — an object and the file that its locations refer to
* `Flo.Draft.locate` — the location of a line
* `Flo.Draft.addVariable`, `addStatement`, `addMatchArm`, `addBlock`, `reserveBlock`, `fillBlock`
-/

namespace GimpleLowering.Flo

/-- An object under construction. -/
structure Draft where
  object : Object
  /-- The file that locations refer to. -/
  source : String
  deriving DecidableEq, Inhabited

namespace Draft

/-- The draft of an object with nothing in it. -/
def empty (moduleName source : String) : Draft := ⟨.empty moduleName, source⟩

/-- The location of a line that was mentioned before. -/
def location? (d : Draft) (line : Nat) : Option Nat :=
  (d.object.locations.toList.find? fun l => l.2.line = some line).map Prod.fst

/-- The location of a line, which is made if there is none yet. There is none for an unknown line,
and line 0 stands for an unknown one. -/
def locate (d : Draft) (line : Option Nat) : Option Nat × Draft :=
  match line with
  | none | some 0 => (none, d)
  | some line =>
    match d.location? line with
    | some id => (some id, d)
    | none =>
      let (id, locations) := d.object.locations.insert ⟨d.source, some line, .usable⟩
      (some id, { d with object := { d.object with locations } })

/-- Adds a variable. A label becomes a diagnostic, which relates the variable to the source. -/
def addVariable (d : Draft) (typ : Ty) (linkage : Linkage) (label : Option String)
    (location : Option Nat) : Nat × Draft :=
  let (notes, diagnostics) := match label with
    | none => ([], d.object.diagnostics)
    | some name =>
      let (id, diagnostics) := d.object.diagnostics.insert ⟨"`" ++ name ++ "`", .usable, location⟩
      ([id], diagnostics)
  let (id, vars) := d.object.vars.insert ⟨typ, linkage, .usable, notes, location⟩
  (id, { d with object := { d.object with diagnostics, vars } })

/-- Adds a statement. -/
def addStatement (d : Draft) (s : Statement) : Nat × Draft :=
  let (id, statements) := d.object.statements.insert s
  (id, { d with object := { d.object with statements } })

/-- Adds an arm that continues at a block of the object if a condition holds. -/
def addMatchArm (d : Draft) (condition target : Nat) (location : Option Nat) : Nat × Draft :=
  let (id, matchArms) :=
    d.object.matchArms.insert ⟨condition, .here target, .usable, [], location⟩
  (id, { d with object := { d.object with matchArms } })

/-- Adds a block whose contents are known. -/
def addBlock (d : Draft) (b : Block) : Nat × Draft :=
  let (id, blocks) := d.object.blocks.insert b
  (id, { d with object := { d.object with blocks } })

/-- Hands out the id of a block whose contents are not known yet. -/
def reserveBlock (d : Draft) : Nat × Draft :=
  let (id, blocks) := d.object.blocks.reserve .undefined
  (id, { d with object := { d.object with blocks } })

/-- Fills in a block, if its id was handed out. -/
def fillBlock? (d : Draft) (id : Nat) (b : Block) : Option Draft := do
  let (_, blocks) ← d.object.blocks.swap? id b
  return { d with object := { d.object with blocks } }

/-- Fills in a block. An id that was not handed out changes nothing. -/
def fillBlock (d : Draft) (id : Nat) (b : Block) : Draft := (d.fillBlock? id b).getD d

/-- Exports a block under a name. -/
def exportBlock (d : Draft) (name : String) (block : Nat) : Draft :=
  { d with object := { d.object with symbols := d.object.symbols.insert name block } }

/-! ### Interface lemmas -/

@[simp] theorem source_locate (d : Draft) (line : Option Nat) :
    (d.locate line).2.source = d.source := by
  unfold locate
  split <;> (try split) <;> rfl

@[simp] theorem locate_none (d : Draft) : d.locate none = (none, d) := rfl

@[simp] theorem locate_zero (d : Draft) : d.locate (some 0) = (none, d) := rfl

@[simp] theorem source_addVariable (d : Draft) (typ : Ty) (linkage : Linkage)
    (label : Option String) (location : Option Nat) :
    (d.addVariable typ linkage label location).2.source = d.source := rfl

@[simp] theorem source_addStatement (d : Draft) (s : Statement) :
    (d.addStatement s).2.source = d.source := rfl

end Draft

end GimpleLowering.Flo

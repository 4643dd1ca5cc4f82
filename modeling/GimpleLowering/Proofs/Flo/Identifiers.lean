import GimpleLowering.Proofs.Flo.Draft
import Mathlib.Algebra.Group.Nat.Defs

/-!
# The numbers in an object

The entries of an object refer to each other by number, to the members of structs by position, and
to lines and lengths of the source. What each of these numbers may be is said once (`Ids`), and
`Uses` says of an entry that its numbers are of that kind: identifiers that were handed out, say,
or numbers that have room in a machine word.

## Main definitions

* `Flo.Ids` — which numbers may stand for what
* `Flo.Ids.words` — numbers that have room in a text
* `Flo.Object.ids` — the identifiers of the entries of an object
* `Flo.Object.Uses`, `Statement.Uses` and others — the numbers in an object and in its entries

## Main results

* `Flo.Object.Uses.mono` — an object stays one when more numbers are allowed
* `Flo.Object.ids_le_words` — the identifiers of an object that is not too large are words
-/

namespace GimpleLowering.Flo

/-! ### Kinds of numbers -/

/-- Which numbers may stand for the entries of each table, for the members of structs, for the
lengths of arrays and for lines. -/
structure Ids where
  blocks : Nat → Prop
  statements : Nat → Prop
  matchArms : Nat → Prop
  vars : Nat → Prop
  arrays : Nat → Prop
  structs : Nat → Prop
  diagnostics : Nat → Prop
  locations : Nat → Prop
  members : Nat → Prop
  lengths : Nat → Prop
  lines : Nat → Prop

/-- Whatever the first allows, the second does. -/
structure Ids.Le (I J : Ids) : Prop where
  blocks : ∀ {n}, I.blocks n → J.blocks n
  statements : ∀ {n}, I.statements n → J.statements n
  matchArms : ∀ {n}, I.matchArms n → J.matchArms n
  vars : ∀ {n}, I.vars n → J.vars n
  arrays : ∀ {n}, I.arrays n → J.arrays n
  structs : ∀ {n}, I.structs n → J.structs n
  diagnostics : ∀ {n}, I.diagnostics n → J.diagnostics n
  locations : ∀ {n}, I.locations n → J.locations n
  members : ∀ {n}, I.members n → J.members n
  lengths : ∀ {n}, I.lengths n → J.lengths n
  lines : ∀ {n}, I.lines n → J.lines n

/-- The number is one of sixty-four bits. -/
def IsWord (n : Nat) : Prop := n < 2 ^ 64

/-- The number of a line: a positive one of thirty-two bits. -/
def IsLine (n : Nat) : Prop := n ≠ 0 ∧ n < 2 ^ 32

/-- Every number that has room in a text. -/
def Ids.words : Ids :=
  ⟨IsWord, IsWord, IsWord, IsWord, IsWord, IsWord, IsWord, IsWord, IsWord, IsWord, IsLine⟩

/-! ### The numbers in entries -/

variable {I J : Ids}

/-- The ids in a type. -/
def Ty.Uses (I : Ids) : Ty → Prop
  | .array id => I.arrays id
  | .struct id => I.structs id
  | .handle pointee _ => pointee.Uses I
  | .bool | .signed32 | .signed64 | .double | .unspecified => True

/-- The ids in a signature. -/
structure Signature.Uses (I : Ids) (s : Signature) : Prop where
  params : ∀ id ∈ s.params, I.vars id
  returns : ∀ id ∈ s.returns, I.vars id
  location : ∀ id ∈ s.location, I.locations id

/-- The ids in the end of a block. -/
def BlockExit.Uses (I : Ids) : BlockExit → Prop
  | .ret values | .panic _ values => ∀ id ∈ values, I.vars id
  | .goto block => I.blocks block
  | .branch arms => ∀ id ∈ arms, I.matchArms id
  | .unspecified => True

/-- The ids in a block. -/
structure Block.Uses (I : Ids) (b : Block) : Prop where
  signature : ∀ s ∈ b.signature, s.Uses I
  statements : ∀ id ∈ b.statements, I.statements id
  exit : b.exit.Uses I
  diagnostics : ∀ id ∈ b.diagnostics, I.diagnostics id

/-- The position or the index in an access. -/
def Member.Uses (I : Ids) : Member → Prop
  | .whole => True
  | .field position => I.members position
  | .element index => I.vars index

/-- The id of a target in the object. -/
def BlockRef.Uses (I : Ids) : BlockRef → Prop
  | .here block => I.blocks block
  | .external _ | .builtin _ | .unspecified => True

/-- The ids in a note. -/
structure Note.Uses (I : Ids) (n : Note) : Prop where
  diagnostics : ∀ id ∈ n.diagnostics, I.diagnostics id
  location : ∀ id ∈ n.location, I.locations id

/-- The numbers in a statement. -/
def Statement.Uses (I : Ids) : Statement → Prop
  | .assignConst target value note => I.vars target ∧ value.typ.Uses I ∧ note.Uses I
  | .assign target source note => I.vars target ∧ I.vars source ∧ note.Uses I
  | .call block input outputs note =>
    block.Uses I ∧ (∀ id ∈ input, I.vars id) ∧ (∀ id ∈ outputs, I.vars id) ∧ note.Uses I
  | .construct target initializer note =>
    I.vars target ∧ (∀ id ∈ initializer, I.vars id) ∧ note.Uses I
  | .destructure whole parts note => I.vars whole ∧ (∀ id ∈ parts, I.vars id) ∧ note.Uses I
  | .load handle member target note =>
    I.vars handle ∧ member.Uses I ∧ I.vars target ∧ note.Uses I
  | .store handle member value note => I.vars handle ∧ member.Uses I ∧ I.vars value ∧ note.Uses I
  | .poisoned _ => True

/-- The ids in an arm. -/
structure MatchArm.Uses (I : Ids) (a : MatchArm) : Prop where
  condition : I.vars a.condition
  target : a.target.Uses I
  diagnostics : ∀ id ∈ a.diagnostics, I.diagnostics id
  location : ∀ id ∈ a.location, I.locations id

/-- The ids in a variable. -/
structure Variable.Uses (I : Ids) (v : Variable) : Prop where
  typ : v.typ.Uses I
  diagnostics : ∀ id ∈ v.diagnostics, I.diagnostics id
  location : ∀ id ∈ v.location, I.locations id

/-- The ids and the length in an array type. -/
structure ArrayType.Uses (I : Ids) (a : ArrayType) : Prop where
  memberType : a.memberType.Uses I
  length : I.lengths a.length

/-- The ids in a struct type. -/
def StructType.Uses (I : Ids) (s : StructType) : Prop := ∀ typ ∈ s.members, typ.Uses I

/-- The id in a diagnostic. -/
def Diagnostic.Uses (I : Ids) (d : Diagnostic) : Prop := ∀ id ∈ d.location, I.locations id

/-- The line of a position. -/
def Location.Uses (I : Ids) (l : Location) : Prop := ∀ n ∈ l.line, I.lines n

/-! ### More numbers -/

theorem Ty.Uses.mono {ty : Ty} (h : ty.Uses I) (hle : I.Le J) : ty.Uses J := by
  induction ty with
  | array id => exact hle.arrays h
  | struct id => exact hle.structs h
  | handle pointee nullable ih => exact ih h
  | bool | signed32 | signed64 | double | unspecified => trivial

theorem Signature.Uses.mono {s : Signature} (h : s.Uses I) (hle : I.Le J) : s.Uses J :=
  ⟨fun id hid => hle.vars (h.params id hid), fun id hid => hle.vars (h.returns id hid),
    fun id hid => hle.locations (h.location id hid)⟩

theorem BlockExit.Uses.mono {e : BlockExit} (h : e.Uses I) (hle : I.Le J) : e.Uses J := by
  cases e with
  | ret values => exact fun id hid => hle.vars (h id hid)
  | panic message values => exact fun id hid => hle.vars (h id hid)
  | goto block => exact hle.blocks h
  | branch arms => exact fun id hid => hle.matchArms (h id hid)
  | unspecified => trivial

theorem Block.Uses.mono {b : Block} (h : b.Uses I) (hle : I.Le J) : b.Uses J :=
  ⟨fun s hs => (h.signature s hs).mono hle, fun id hid => hle.statements (h.statements id hid),
    h.exit.mono hle, fun id hid => hle.diagnostics (h.diagnostics id hid)⟩

theorem Member.Uses.mono {m : Member} (h : m.Uses I) (hle : I.Le J) : m.Uses J := by
  cases m with
  | whole => trivial
  | field position => exact hle.members h
  | element index => exact hle.vars h

theorem BlockRef.Uses.mono {r : BlockRef} (h : r.Uses I) (hle : I.Le J) : r.Uses J := by
  cases r with
  | here block => exact hle.blocks h
  | external | builtin | unspecified => trivial

theorem Note.Uses.mono {n : Note} (h : n.Uses I) (hle : I.Le J) : n.Uses J :=
  ⟨fun id hid => hle.diagnostics (h.diagnostics id hid),
    fun id hid => hle.locations (h.location id hid)⟩

theorem Statement.Uses.mono {s : Statement} (h : s.Uses I) (hle : I.Le J) : s.Uses J := by
  cases s with
  | assignConst target value note =>
    exact ⟨hle.vars h.1, h.2.1.mono hle, h.2.2.mono hle⟩
  | assign target source note => exact ⟨hle.vars h.1, hle.vars h.2.1, h.2.2.mono hle⟩
  | call block input outputs note =>
    exact ⟨h.1.mono hle, fun id hid => hle.vars (h.2.1 id hid),
      fun id hid => hle.vars (h.2.2.1 id hid), h.2.2.2.mono hle⟩
  | construct target initializer note =>
    exact ⟨hle.vars h.1, fun id hid => hle.vars (h.2.1 id hid), h.2.2.mono hle⟩
  | destructure whole parts note =>
    exact ⟨hle.vars h.1, fun id hid => hle.vars (h.2.1 id hid), h.2.2.mono hle⟩
  | load handle member target note =>
    exact ⟨hle.vars h.1, h.2.1.mono hle, hle.vars h.2.2.1, h.2.2.2.mono hle⟩
  | store handle member value note =>
    exact ⟨hle.vars h.1, h.2.1.mono hle, hle.vars h.2.2.1, h.2.2.2.mono hle⟩
  | poisoned poison => trivial

theorem MatchArm.Uses.mono {a : MatchArm} (h : a.Uses I) (hle : I.Le J) : a.Uses J :=
  ⟨hle.vars h.condition, h.target.mono hle, fun id hid => hle.diagnostics (h.diagnostics id hid),
    fun id hid => hle.locations (h.location id hid)⟩

theorem Variable.Uses.mono {v : Variable} (h : v.Uses I) (hle : I.Le J) : v.Uses J :=
  ⟨h.typ.mono hle, fun id hid => hle.diagnostics (h.diagnostics id hid),
    fun id hid => hle.locations (h.location id hid)⟩

theorem ArrayType.Uses.mono {a : ArrayType} (h : a.Uses I) (hle : I.Le J) : a.Uses J :=
  ⟨h.memberType.mono hle, hle.lengths h.length⟩

theorem StructType.Uses.mono {s : StructType} (h : s.Uses I) (hle : I.Le J) : s.Uses J :=
  fun typ htyp => (h typ htyp).mono hle

theorem Diagnostic.Uses.mono {d : Diagnostic} (h : d.Uses I) (hle : I.Le J) : d.Uses J :=
  fun id hid => hle.locations (h id hid)

theorem Location.Uses.mono {l : Location} (h : l.Uses I) (hle : I.Le J) : l.Uses J :=
  fun n hn => hle.lines (h n hn)

/-! ### The numbers in objects -/

namespace Object

/-- The numbers in all entries, apart from the null entries, and in the exports. -/
structure Uses (I : Ids) (o : Object) : Prop where
  symbols : ∀ p ∈ o.symbols, I.blocks p.2
  blocks : o.blocks.All (Block.Uses I)
  statements : o.statements.All (Statement.Uses I)
  matchArms : o.matchArms.All (MatchArm.Uses I)
  vars : o.vars.All (Variable.Uses I)
  arrays : o.types.arrays.All (ArrayType.Uses I)
  structs : o.types.structs.All (StructType.Uses I)
  diagnostics : o.diagnostics.All (Diagnostic.Uses I)
  locations : o.locations.All (Location.Uses I)

theorem Uses.mono {o : Object} (h : o.Uses I) (hle : I.Le J) : o.Uses J :=
  ⟨fun p hp => hle.blocks (h.symbols p hp), h.blocks.mono fun _ hb => hb.mono hle,
    h.statements.mono fun _ hs => hs.mono hle, h.matchArms.mono fun _ ha => ha.mono hle,
    h.vars.mono fun _ hv => hv.mono hle, h.arrays.mono fun _ ha => ha.mono hle,
    h.structs.mono fun _ hs => hs.mono hle, h.diagnostics.mono fun _ hd => hd.mono hle,
    h.locations.mono fun _ hl => hl.mono hle⟩

/-- The ids that were handed out for the entries of the object, and the positions of the members
of its structs. Lengths and lines come from the source. -/
def ids (o : Object) (lengths lines : Nat → Prop) : Ids where
  blocks := o.blocks.Has
  statements := o.statements.Has
  matchArms := o.matchArms.Has
  vars := o.vars.Has
  arrays := o.types.arrays.Has
  structs := o.types.structs.Has
  diagnostics := o.diagnostics.Has
  locations := o.locations.Has
  members i := ∃ s ∈ o.types.structs.rows, i < s.members.length
  lengths := lengths
  lines := lines

/-- The tables of the object and the members of its structs can be counted in sixty-four bits, as
everything can that is in the memory of a machine of that width. -/
structure IsCountable (o : Object) : Prop where
  blocks : o.blocks.rows.length ≤ 2 ^ 64
  statements : o.statements.rows.length ≤ 2 ^ 64
  matchArms : o.matchArms.rows.length ≤ 2 ^ 64
  vars : o.vars.rows.length ≤ 2 ^ 64
  arrays : o.types.arrays.rows.length ≤ 2 ^ 64
  structs : o.types.structs.rows.length ≤ 2 ^ 64
  diagnostics : o.diagnostics.rows.length ≤ 2 ^ 64
  locations : o.locations.rows.length ≤ 2 ^ 64
  members : ∀ s ∈ o.types.structs.rows, s.members.length ≤ 2 ^ 64

theorem isWord_of_has {α : Type} {t : Table α} (h : t.rows.length ≤ 2 ^ 64) {id : Nat}
    (hid : t.Has id) : IsWord id :=
  Nat.lt_of_lt_of_le hid.2 h

/-- The ids of an object that is not too large have room in its text. -/
theorem ids_le_words {o : Object} (h : o.IsCountable) {lengths lines : Nat → Prop}
    (hlength : ∀ {n}, lengths n → IsWord n) (hline : ∀ {n}, lines n → IsLine n) :
    (o.ids lengths lines).Le .words where
  blocks := isWord_of_has h.blocks
  statements := isWord_of_has h.statements
  matchArms := isWord_of_has h.matchArms
  vars := isWord_of_has h.vars
  arrays := isWord_of_has h.arrays
  structs := isWord_of_has h.structs
  diagnostics := isWord_of_has h.diagnostics
  locations := isWord_of_has h.locations
  members := fun ⟨s, hs, hlt⟩ => Nat.lt_of_lt_of_le hlt (h.members s hs)
  lengths := hlength
  lines := hline

end Object

end GimpleLowering.Flo

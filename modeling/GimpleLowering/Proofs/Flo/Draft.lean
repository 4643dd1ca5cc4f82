import GimpleLowering.Flo.Draft
import Mathlib.Data.List.Basic
import Mathlib.Tactic.Common

/-!
# Drafts that grow

A table is read as the list of its rows, so that a table that grew is one whose rows begin with the
old ones. While statements are lowered, a draft only gets rows: new statements in the order in which
they are emitted, and variables, arms, diagnostics and locations as they are needed.

A draft is *kept* if everything that it was told about the source is there: the locations that its
rows mention exist, and they are in the file of the draft, on lines of the function.

## Main definitions

* `Flo.Table.rows` — the rows of a table, with the null entry in front
* `Flo.Table.Has`, `Flo.Table.All` — ids of a table, and a property of all its entries
* `Flo.Draft.Extends` — a draft with some more rows
* `Flo.Draft.Kept` — the notes of a draft refer to rows of it
-/

namespace GimpleLowering.Flo

/-! ### Rows -/

namespace Table

variable {α : Type}

/-- The rows of a table. The row of an id stands at the position of the id. -/
def rows (t : Table α) : List α := t.entries.toList

theorem get?_eq_rows (t : Table α) (id : Nat) : t.get? id = t.rows[id]? := by
  simp [get?, rows]

@[simp] theorem rows_insert (t : Table α) (a : α) : (t.insert a).2.rows = t.rows ++ [a] := by
  simp [rows, insert]

@[simp] theorem fst_insert (t : Table α) (a : α) : (t.insert a).1 = t.rows.length := by
  simp [rows, insert]

@[simp] theorem rows_empty [Entry α] :
    (empty : Table α).rows = [(Entry.poisoned .nullEntry : α)] := rfl

theorem ext_rows {t t' : Table α} (h : t.rows = t'.rows) : t = t' := by
  cases t
  cases t'
  simpa [rows] using h

/-- The id was handed out. -/
def Has (t : Table α) (id : Nat) : Prop := 0 < id ∧ id < t.rows.length

theorem Has.mono {t t' : Table α} {id : Nat} (h : t.Has id) (hp : t.rows <+: t'.rows) :
    t'.Has id :=
  ⟨h.1, Nat.lt_of_lt_of_le h.2 hp.length_le⟩

/-- A table lists the entries of all slots but slot zero. -/
theorem mem_toList {t : Table α} {id : Nat} {a : α} :
    (id, a) ∈ t.toList ↔ id ≠ 0 ∧ t.get? id = some a := by
  rw [toList, List.mem_map, get?_eq_rows, rows]
  constructor
  · rintro ⟨⟨b, i⟩, hmem, heq⟩
    obtain ⟨rfl, rfl⟩ := Prod.mk.inj heq
    obtain ⟨hle, hrow⟩ := List.mk_mem_zipIdx_iff_le_and_getElem?_sub.1 hmem
    rw [List.getElem?_drop, Nat.add_sub_cancel' hle] at hrow
    exact ⟨Nat.one_le_iff_ne_zero.1 hle, hrow⟩
  · rintro ⟨hne, hrow⟩
    have hle : 1 ≤ id := Nat.one_le_iff_ne_zero.2 hne
    refine ⟨(a, id), List.mk_mem_zipIdx_iff_le_and_getElem?_sub.2 ⟨hle, ?_⟩, rfl⟩
    rw [List.getElem?_drop, Nat.add_sub_cancel' hle, hrow]

theorem has_of_mem_toList {t : Table α} {p : Nat × α} (h : p ∈ t.toList) : t.Has p.1 := by
  obtain ⟨⟨a, i⟩, hi, rfl⟩ := List.mem_map.1 h
  obtain ⟨hle, hlt, -⟩ := List.mem_zipIdx hi
  simp only [List.length_drop] at hlt
  exact ⟨hle, by simp only [rows]; omega⟩

/-- The null entry is followed by entries that have the property. -/
def All [Entry α] (t : Table α) (P : α → Prop) : Prop :=
  ∃ rest, t.rows = Entry.poisoned .nullEntry :: rest ∧ ∀ a ∈ rest, P a

variable [Entry α] {P Q : α → Prop}

/-- What holds of the rows of all ids holds of all entries. -/
theorem all_of_has {t : Table α} (hnull : t.rows.head? = some (Entry.poisoned .nullEntry))
    (h : ∀ id, t.Has id → ∃ a, t.rows[id]? = some a ∧ P a) : t.All P := by
  obtain ⟨rest, hrows⟩ := List.head?_eq_some_iff.1 hnull
  refine ⟨rest, hrows, fun a ha => ?_⟩
  obtain ⟨i, hi, rfl⟩ := List.getElem_of_mem ha
  obtain ⟨a, hrow, hP⟩ := h (i + 1) ⟨Nat.succ_pos i, by simpa [hrows] using hi⟩
  rw [hrows, List.getElem?_cons_succ, List.getElem?_eq_getElem hi] at hrow
  exact Option.some.inj hrow ▸ hP

/-- All entries but the null entry have ids that were handed out. -/
theorem has_of_ne {t : Table α} (hnull : t.rows.head? = some (Entry.poisoned .nullEntry)) {id : Nat}
    {a : α} (hrow : t.rows[id]? = some a) (hne : a ≠ Entry.poisoned .nullEntry) : t.Has id := by
  refine ⟨Nat.pos_of_ne_zero ?_, (List.getElem?_eq_some_iff.1 hrow).1⟩
  rintro rfl
  rw [List.head?_eq_getElem?, hrow] at hnull
  exact hne (Option.some.inj hnull)

theorem all_empty : (empty : Table α).All P := ⟨[], rfl, by simp⟩

theorem All.head?_rows {t : Table α} (h : t.All P) :
    t.rows.head? = some (Entry.poisoned .nullEntry) := by
  obtain ⟨rest, hrows, -⟩ := h
  rw [hrows, List.head?_cons]

theorem All.rows_pos {t : Table α} (h : t.All P) : 0 < t.rows.length := by
  obtain ⟨rest, hrows, -⟩ := h
  simp [hrows]

theorem All.mono {t : Table α} (h : t.All P) (hPQ : ∀ a, P a → Q a) : t.All Q := by
  obtain ⟨rest, hrows, hall⟩ := h
  exact ⟨rest, hrows, fun a ha => hPQ a (hall a ha)⟩

theorem All.insert {t : Table α} (h : t.All P) {a : α} (ha : P a) : (t.insert a).2.All P := by
  obtain ⟨rest, hrows, hall⟩ := h
  refine ⟨rest ++ [a], by simp [hrows], fun b hb => ?_⟩
  rcases List.mem_append.1 hb with hb | hb
  · exact hall b hb
  · exact List.mem_singleton.1 hb ▸ ha

theorem All.has_insert {t : Table α} (h : t.All P) (a : α) :
    (t.insert a).2.Has (t.insert a).1 := by
  obtain ⟨rest, hrows, -⟩ := h
  simp [Has, hrows]

theorem All.and {t : Table α} (h : t.All P) (h' : ∀ a ∈ t.rows, Q a) :
    t.All fun a => P a ∧ Q a := by
  obtain ⟨rest, hrows, hall⟩ := h
  exact ⟨rest, hrows, fun a ha => ⟨hall a ha, h' a (hrows ▸ List.mem_cons_of_mem _ ha)⟩⟩

/-- An entry of the table is one of those that a property of all entries is about. -/
theorem All.of_mem_toList {t : Table α} (h : t.All P) {p : Nat × α} (hp : p ∈ t.toList) :
    P p.2 := by
  obtain ⟨rest, hrows, hall⟩ := h
  obtain ⟨⟨a, i⟩, hi, rfl⟩ := List.mem_map.1 hp
  refine hall a ?_
  have hmem : a ∈ t.rows.drop 1 := List.fst_mem_of_mem_zipIdx hi
  simpa [hrows] using hmem

/-- Code can reach any entry of a table without poisoned ones. -/
theorem All.poisonedIds_eq_nil {t : Table α} (h : t.All fun a => Entry.isPoisoned a = false) :
    t.poisonedIds = [] := by
  refine List.filterMap_eq_nil_iff.2 fun p hp => ?_
  simp [h.of_mem_toList hp]

end Table

/-- An object is complete if all its entries can be used, and all its structs were laid out. -/
theorem Object.isComplete_of_usable {o : Object} (hb : o.blocks.All fun b => b.poison = .usable)
    (hs : o.statements.All fun s => Entry.isPoisoned s = false)
    (ha : o.matchArms.All fun a => a.poison = .usable)
    (hv : o.vars.All fun v => v.poison = .usable)
    (ht : o.types.structs.All fun s => ∀ reason, s.poison ≠ .because reason) : o.isComplete := by
  have hpoison : ∀ {p : Poison}, p = .usable → p.isPoisoned = false := by
    rintro p rfl
    rfl
  have hblocks := (hb.mono fun b hb => hpoison hb).poisonedIds_eq_nil
  have harms := (ha.mono fun a ha => hpoison ha).poisonedIds_eq_nil
  have hvars := (hv.mono fun v hv => hpoison hv).poisonedIds_eq_nil
  have hfailed : o.failedStructs = [] := by
    refine List.filterMap_eq_nil_iff.2 fun p hp => ?_
    obtain ⟨id, s⟩ := p
    have hreason := ht.of_mem_toList hp
    cases hpoison : s.poison with
    | because reason => exact absurd hpoison (hreason reason)
    | usable | undefined | nullEntry => simp [hpoison]
  simp only [isComplete, poisonedEntries, hblocks, hs.poisonedIds_eq_nil, harms, hvars, hfailed]
  rfl

namespace Draft

/-! ### Extension -/

/-- The second draft is the first one with more rows. The new statements are `code`. Blocks and
exports are as they were. -/
structure Extends (d : Draft) (code : List Statement) (d' : Draft) : Prop where
  statements : d'.object.statements.rows = d.object.statements.rows ++ code
  vars : d.object.vars.rows <+: d'.object.vars.rows
  matchArms : d.object.matchArms.rows <+: d'.object.matchArms.rows
  diagnostics : d.object.diagnostics.rows <+: d'.object.diagnostics.rows
  locations : d.object.locations.rows <+: d'.object.locations.rows
  blocks : d'.object.blocks = d.object.blocks
  symbols : d'.object.symbols = d.object.symbols
  moduleName : d'.object.moduleName = d.object.moduleName
  types : d'.object.types = d.object.types
  source : d'.source = d.source

namespace Extends

theorem refl (d : Draft) : d.Extends [] d :=
  ⟨by simp, List.prefix_rfl, List.prefix_rfl, List.prefix_rfl, List.prefix_rfl, rfl, rfl, rfl, rfl,
    rfl⟩

end Extends

theorem extends_locate (d : Draft) (line : Option Nat) : d.Extends [] (d.locate line).2 := by
  unfold locate
  split
  · exact .refl d
  · exact .refl d
  · split
    · exact .refl d
    · exact { Extends.refl d with locations := by simp }

theorem extends_addVariable (d : Draft) (typ : Ty) (linkage : Linkage) (label : Option String)
    (location : Option Nat) : d.Extends [] (d.addVariable typ linkage label location).2 := by
  cases label with
  | none => exact { Extends.refl d with vars := by simp [addVariable] }
  | some name =>
    exact { Extends.refl d with
      vars := by simp [addVariable]
      diagnostics := by simp [addVariable] }

theorem extends_addStatement (d : Draft) (s : Statement) : d.Extends [s] (d.addStatement s).2 :=
  { Extends.refl d with statements := by simp [addStatement] }

theorem extends_addMatchArm (d : Draft) (condition target : Nat) (location : Option Nat) :
    d.Extends [] (d.addMatchArm condition target location).2 :=
  { Extends.refl d with matchArms := by simp [addMatchArm] }

@[simp] theorem vars_locate (d : Draft) (line : Option Nat) :
    (d.locate line).2.object.vars = d.object.vars := by
  unfold locate
  split
  · rfl
  · rfl
  · split <;> rfl

@[simp] theorem matchArms_locate (d : Draft) (line : Option Nat) :
    (d.locate line).2.object.matchArms = d.object.matchArms := by
  unfold locate
  split
  · rfl
  · rfl
  · split <;> rfl

theorem fst_addStatement (d : Draft) (s : Statement) :
    (d.addStatement s).1 = d.object.statements.rows.length := by
  simp [addStatement]

/-- A variable that is added stands behind the others. -/
theorem fst_addVariable (d : Draft) (typ : Ty) (linkage : Linkage) (label : Option String)
    (location : Option Nat) :
    (d.addVariable typ linkage label location).1 = d.object.vars.rows.length := by
  cases label <;> simp [addVariable]

/-- The row of a variable that is added. It has a diagnostic if it has a label. -/
theorem vars_addVariable (d : Draft) (typ : Ty) (linkage : Linkage) (label : Option String)
    (location : Option Nat) :
    (d.addVariable typ linkage label location).2.object.vars.rows = d.object.vars.rows ++
      [⟨typ, linkage, .usable, (label.map fun _ => d.object.diagnostics.rows.length).toList,
        location⟩] := by
  cases label <;> simp [addVariable]

/-- A block that is filled in replaces the one that was there, and nothing else. -/
theorem fillBlock_eq (d : Draft) (id : Nat) (b : Block) :
    d.fillBlock id b = { d with object := { d.object with
      blocks := (d.fillBlock id b).object.blocks } } := by
  unfold fillBlock fillBlock?
  cases d.object.blocks.swap? id b with
  | none => rfl
  | some p => rfl

theorem rows_fillBlock (d : Draft) (id : Nat) (b : Block) :
    (d.fillBlock id b).object.blocks.rows = d.object.blocks.rows.set id b := by
  unfold fillBlock fillBlock? Table.swap?
  split
  · simp [Table.rows]
  · rename_i h
    simp only [Option.bind_eq_bind, Option.bind_none, Option.getD_none]
    rw [List.set_eq_of_length_le]
    simpa [Table.rows] using h

/-! ### Notes -/

/-- What is known of a position in the source: either nothing, or a location of the draft. -/
def Knows (d : Draft) (location : Option Nat) : Prop :=
  ∀ id, location = some id → d.object.locations.Has id

/-- The arm can be used: its condition and its target were handed out. -/
structure KeepsArm (d : Draft) (a : MatchArm) : Prop where
  poison : a.poison = .usable
  location : d.Knows a.location
  diagnostics : a.diagnostics = []
  condition : d.object.vars.Has a.condition
  target : ∃ block, a.target = .here block ∧ d.object.blocks.Has block

/-- All rows are usable, and the notes on them refer to rows. Locations are on the given lines. -/
structure Kept (d : Draft) (lines : Nat → Prop) : Prop where
  vars : d.object.vars.All fun v => v.poison = .usable ∧ d.Knows v.location ∧
    ∀ id ∈ v.diagnostics, d.object.diagnostics.Has id
  diagnostics : d.object.diagnostics.All fun g => g.poison = .usable ∧ d.Knows g.location
  locations : d.object.locations.All fun l => l.poison = .usable ∧ l.source = d.source ∧
    ∃ n, l.line = some n ∧ n ≠ 0 ∧ lines n
  matchArms : d.object.matchArms.All d.KeepsArm
  statements : d.object.statements.All fun _ => True

variable {d d' : Draft} {lines : Nat → Prop} {code : List Statement}

theorem Knows.mono {location : Option Nat} (h : d.Knows location) (he : d.Extends code d') :
    d'.Knows location :=
  fun id hid => (h id hid).mono he.locations

theorem KeepsArm.mono {a : MatchArm} (h : d.KeepsArm a) (he : d.Extends code d') :
    d'.KeepsArm a := by
  obtain ⟨block, htarget, hhas⟩ := h.target
  exact ⟨h.poison, h.location.mono he, h.diagnostics, h.condition.mono he.vars, block, htarget,
    he.blocks ▸ hhas⟩

theorem knows_none (d : Draft) : d.Knows none := fun _ h => nomatch h

theorem kept_empty (moduleName source : String) : (empty moduleName source).Kept lines :=
  ⟨Table.all_empty, Table.all_empty, Table.all_empty, Table.all_empty, Table.all_empty⟩

namespace Kept

/-- What the rows refer to is still there after an extension. -/
theorem lift (h : d.Kept lines) (he : d.Extends code d') :
    (d.object.vars.All fun v => v.poison = .usable ∧ d'.Knows v.location ∧
      ∀ id ∈ v.diagnostics, d'.object.diagnostics.Has id) ∧
    (d.object.diagnostics.All fun g => g.poison = .usable ∧ d'.Knows g.location) ∧
    (d.object.locations.All fun l => l.poison = .usable ∧ l.source = d'.source ∧
      ∃ n, l.line = some n ∧ n ≠ 0 ∧ lines n) ∧
    d.object.matchArms.All d'.KeepsArm := by
  refine ⟨h.vars.mono fun v hv => ?_, h.diagnostics.mono fun g hg => ?_,
    h.locations.mono fun l hl => ?_, h.matchArms.mono fun a ha => ?_⟩
  · exact ⟨hv.1, hv.2.1.mono he, fun id hid => (hv.2.2 id hid).mono he.diagnostics⟩
  · exact ⟨hg.1, hg.2.mono he⟩
  · exact he.source ▸ hl
  · exact ha.mono he

theorem locate (h : d.Kept lines) {line : Option Nat}
    (hline : ∀ n, line = some n → n ≠ 0 → lines n) :
    (d.locate line).2.Kept lines ∧ (d.locate line).2.Knows (d.locate line).1 := by
  have he := d.extends_locate line
  unfold Draft.locate at he ⊢
  split
  · exact ⟨h, d.knows_none⟩
  · exact ⟨h, d.knows_none⟩
  · rename_i n hn
    have hn : n ≠ 0 := fun h0 => hn (by rw [h0])
    cases hl : d.location? n with
    | some id =>
      refine ⟨h, fun i hi => ?_⟩
      obtain rfl : id = i := Option.some.inj hi
      obtain ⟨p, hp, rfl⟩ := Option.map_eq_some_iff.1 hl
      exact Table.has_of_mem_toList (List.mem_of_find?_eq_some hp)
    | none =>
      simp only [hl] at he
      obtain ⟨hv, hd, hlo, ha⟩ := h.lift he
      refine ⟨⟨hv, hd, hlo.insert ⟨rfl, rfl, n, rfl, hn, hline n rfl hn⟩, ha, h.statements⟩,
        fun i hi => ?_⟩
      obtain rfl : (d.object.locations.insert ⟨d.source, some n, .usable⟩).1 = i :=
        Option.some.inj hi
      exact h.locations.has_insert _

theorem addVariable (h : d.Kept lines) {location : Option Nat} (hl : d.Knows location) (typ : Ty)
    (linkage : Linkage) (label : Option String) :
    (d.addVariable typ linkage label location).2.Kept lines := by
  have he := d.extends_addVariable typ linkage label location
  obtain ⟨hv, hd, hlo, ha⟩ := h.lift he
  cases label with
  | none => exact ⟨hv.insert ⟨rfl, hl, by simp⟩, hd, hlo, ha, h.statements⟩
  | some name =>
    refine ⟨hv.insert ⟨rfl, hl, fun id hid => ?_⟩, hd.insert ⟨rfl, hl⟩, hlo, ha, h.statements⟩
    obtain rfl := List.mem_singleton.1 hid
    exact h.diagnostics.has_insert _

theorem addStatement (h : d.Kept lines) (s : Statement) : (d.addStatement s).2.Kept lines := by
  obtain ⟨hv, hd, hlo, ha⟩ := h.lift (d.extends_addStatement s)
  exact ⟨hv, hd, hlo, ha, h.statements.insert trivial⟩

theorem addMatchArm (h : d.Kept lines) {location : Option Nat} (hl : d.Knows location)
    {condition target : Nat} (hc : d.object.vars.Has condition) (ht : d.object.blocks.Has target) :
    (d.addMatchArm condition target location).2.Kept lines := by
  obtain ⟨hv, hd, hlo, ha⟩ := h.lift (d.extends_addMatchArm condition target location)
  exact ⟨hv, hd, hlo, ha.insert ⟨rfl, hl, rfl, hc, target, rfl, ht⟩, h.statements⟩

/-- Blocks and exports are not annotated here. -/
theorem of_blocks (h : d.Kept lines) {blocks : Table Block}
    (hb : d.object.blocks.rows.length ≤ blocks.rows.length) (symbols : Pairing String Nat) :
    Kept { d with object := { d.object with blocks, symbols } } lines := by
  refine ⟨h.vars, h.diagnostics, h.locations, h.matchArms.mono fun a ha => ?_, h.statements⟩
  obtain ⟨block, htarget, hhas⟩ := ha.target
  exact ⟨ha.poison, ha.location, ha.diagnostics, ha.condition, block, htarget, hhas.1,
    Nat.lt_of_lt_of_le hhas.2 hb⟩

end Kept

end Draft

end GimpleLowering.Flo

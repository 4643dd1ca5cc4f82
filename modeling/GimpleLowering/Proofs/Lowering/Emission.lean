import GimpleLowering.Lowering.State
import GimpleLowering.Proofs.Flo.Draft
import GimpleLowering.Proofs.Gimple.Order
import GimpleLowering.Proofs.Layout.Computation

/-!
# Emission

Lowering a part of a function only adds to the state: statements at the end of the block, rows at
the end of tables, types to the registry, globals to the scope, and blocks for labels that are
branched to. `Emits` says so of a run from one state to another, together with the statements that
it added and the labels that it branched to. Everything is composed from a few such steps, so what
is proved of the steps holds of whole functions.

What holds between steps is `State.Inv`: the registry is sound, the variables in scope are the ones
that the runtime variables say, and each label has one block.

## Main definitions

* `Lowering.Setting` — what the lowering of a function is about
* `Lowering.State.Grows` — nothing that was handed out changes
* `Lowering.State.Inv` — what holds between steps
* `Lowering.Emits` — a run that adds statements and branches to labels
* `Lowering.Finishes` — the object in the end, with the types of the whole unit

## Main results

* `Lowering.Emits.trans` — runs compose
* `Lowering.temporary_ran`, `constant_ran`, `callRoutine_ran` and others — what single steps add
-/

namespace GimpleLowering

open Gimple Layout

/-- The line stands at a statement of the function. -/
def Gimple.Function.Mentions (f : Function) (line : Nat) : Prop :=
  ∃ b ∈ f.blocks, ∃ s ∈ b.statements, s.line = some line

namespace Lowering

/-! ### Settings -/

/-- What the lowering of a function is about. -/
structure Setting where
  index : UnitIndex
  function : Function
  /-- The variables that the function returns. -/
  returns : List Nat
  /-- The types that occur in the function and in the unit. -/
  types : Ty → Prop

/-- The setting of a statement, whose line does not matter. -/
def Context.setting (cx : Context) (types : Ty → Prop) : Setting :=
  ⟨cx.index, cx.function, cx.returns, types⟩

/-- The line of the statement is a line of the function. -/
def Context.LineKnown (cx : Context) : Prop :=
  ∀ n, cx.line = some n → n ≠ 0 → cx.function.Mentions n

namespace State

/-- The rows of the variables. -/
abbrev vars (s : State) : List Flo.Variable := s.draft.object.vars.rows

/-- The rows of the statements. -/
abbrev statements (s : State) : List Flo.Statement := s.draft.object.statements.rows

/-- The rows of the arms. -/
abbrev arms (s : State) : List Flo.MatchArm := s.draft.object.matchArms.rows

/-- The rows of the blocks. -/
abbrev rows (s : State) : List Flo.Block := s.draft.object.blocks.rows

/-- The block for a label, if anything branches to the label. -/
def target? (s : State) (label : Nat) : Option Nat :=
  if label = exitIndex then s.exitBlock else s.blocks.lookup label

/-! ### Growth -/

/-- Nothing that the first state has handed out is different in the second one. -/
structure Grows (s s' : State) : Prop where
  types : s.types.Grows s'.types
  vars : s.vars <+: s'.vars
  statements : s.statements <+: s'.statements
  arms : s.arms <+: s'.arms
  locations : s.draft.object.locations.rows <+: s'.draft.object.locations.rows
  scope : s.scope <+: s'.scope
  blocks : s.blocks <+: s'.blocks
  exitBlock : ∀ {id : Nat}, s.exitBlock = some id → s'.exitBlock = some id

namespace Grows

variable {s s' s'' : State}

theorem refl (s : State) : s.Grows s :=
  ⟨.refl _, List.prefix_rfl, List.prefix_rfl, List.prefix_rfl, List.prefix_rfl, List.prefix_rfl,
    List.prefix_rfl, fun h => h⟩

theorem trans (h : s.Grows s') (h' : s'.Grows s'') : s.Grows s'' where
  types := h.types.trans h'.types
  vars := h.vars.trans h'.vars
  statements := h.statements.trans h'.statements
  arms := h.arms.trans h'.arms
  locations := h.locations.trans h'.locations
  scope := h.scope.trans h'.scope
  blocks := h.blocks.trans h'.blocks
  exitBlock hid := h'.exitBlock (h.exitBlock hid)

theorem vars_get (h : s.Grows s') {id : Nat} {v : Flo.Variable} (hv : s.vars[id]? = some v) :
    s'.vars[id]? = some v := by
  obtain ⟨rest, hrest⟩ := h.vars
  rw [← hrest, List.getElem?_append_left (List.getElem?_eq_some_iff.1 hv).1, hv]

theorem arms_get (h : s.Grows s') {id : Nat} {a : Flo.MatchArm} (ha : s.arms[id]? = some a) :
    s'.arms[id]? = some a := by
  obtain ⟨rest, hrest⟩ := h.arms
  rw [← hrest, List.getElem?_append_left (List.getElem?_eq_some_iff.1 ha).1, ha]

theorem mem_scope (h : s.Grows s') {v : Var} (hv : v ∈ s.scope) : v ∈ s'.scope :=
  h.scope.subset hv

/-- A label keeps its block. -/
theorem target? (h : s.Grows s') {label id : Nat} (ht : s.target? label = some id) :
    s'.target? label = some id := by
  unfold State.target? at ht ⊢
  split
  · rename_i hl
    rw [if_pos hl] at ht
    exact h.exitBlock ht
  · rename_i hl
    rw [if_neg hl] at ht
    obtain ⟨rest, hrest⟩ := h.blocks
    rw [← hrest, List.lookup_append, ht]
    rfl

end Grows

end State

/-! ### Variables -/

/-- A variable without a name, which only the code that it was made for uses. -/
def Temp (s : State) (id : Nat) (typ : Flo.Ty) : Prop :=
  ∃ row, s.vars[id]? = some row ∧ row.typ = typ ∧ row.linkage = .frame ∧ row.diagnostics = []

/-- The storage of a variable of the source. -/
def linkageOf (usage : Usage) (name : String) : Flo.Linkage :=
  if usage = .global then .external name else .frame

/-- Where the source declares a variable that is used for something. -/
def Declared (P : Setting) (name : String) (ty : Ty) : Usage → Prop
  | .parameter => ⟨name, ty⟩ ∈ P.function.parameters
  | .automatic => ⟨name, ty⟩ ∈ P.function.locals
  | .global => P.index.global? name = some ty
  | .returnSlot | .temporary => False

/-- The runtime variable has the type of the variable of the source. It has a name, which tells it
from all temporaries. -/
structure Stored (P : Setting) (s : State) (v : Var) : Prop where
  occurs : P.types v.ty
  represents : Represents P.index s.types v.ty v.representation
  row : ∃ row, s.vars[v.id]? = some row ∧ row.typ = v.typ ∧
    row.linkage = linkageOf v.usage v.name ∧ row.diagnostics ≠ []

/-- The runtime variable is what a declaration of the source says. -/
structure Holds (P : Setting) (s : State) (v : Var) : Prop extends Stored P s v where
  declared : Declared P v.name v.ty v.usage

/-- The runtime variable holds the result of the function. -/
def HoldsResult (P : Setting) (s : State) (id : Nat) : Prop :=
  ∃ ty rep row, P.function.returnType = some ty ∧ Represents P.index s.types ty rep ∧
    s.vars[id]? = some row ∧ row.typ = rep.valueType ∧ row.linkage = .frame ∧ row.diagnostics ≠ []

/-- The note on a statement refers to a location that exists. -/
def NoteKnown (s : State) (note : Flo.Note) : Prop :=
  note.diagnostics = [] ∧ s.draft.Knows note.location

variable {P : Setting} {s s' s'' : State}

theorem Temp.mono {id : Nat} {typ : Flo.Ty} (h : Temp s id typ) (hg : s.Grows s') :
    Temp s' id typ := by
  obtain ⟨row, hrow, h⟩ := h
  exact ⟨row, hg.vars_get hrow, h⟩

theorem Stored.mono {v : Var} (h : Stored P s v) (hg : s.Grows s') : Stored P s' v := by
  obtain ⟨row, hrow, h'⟩ := h.row
  exact ⟨h.occurs, h.represents.mono hg.types, ⟨row, hg.vars_get hrow, h'⟩⟩

theorem Holds.mono {v : Var} (h : Holds P s v) (hg : s.Grows s') : Holds P s' v :=
  ⟨h.toStored.mono hg, h.declared⟩

theorem HoldsResult.mono {id : Nat} (h : HoldsResult P s id) (hg : s.Grows s') :
    HoldsResult P s' id := by
  obtain ⟨ty, rep, row, hty, hrep, hrow, h⟩ := h
  exact ⟨ty, rep, row, hty, hrep.mono hg.types, hg.vars_get hrow, h⟩

theorem NoteKnown.mono {note : Flo.Note} (h : NoteKnown s note) (hg : s.Grows s') :
    NoteKnown s' note :=
  ⟨h.1, fun id hid => (h.2 id hid).mono hg.locations⟩

/-! ### The invariant -/

/-- Each label that was branched to has a block of its own, and there is at most one more block,
which leaves the function. -/
structure Planned (P : Setting) (s : State) : Prop where
  labels : (s.blocks.map Prod.fst).Nodup
  declared : ∀ p ∈ s.blocks, p.1 ≠ exitIndex ∧ (P.function.block? p.1).isSome
  ids : (s.blocks.map Prod.snd ++ s.exitBlock.toList).Perm (List.range' 1 (s.rows.length - 1))
  null : s.rows.head? = some (Flo.Entry.poisoned .nullEntry)
  exitRow : ∀ id, s.exitBlock = some id →
    s.rows[id]? = some ⟨none, .usable, [], .ret P.returns, []⟩

theorem Planned.rows_pos (h : Planned P s) : 0 < s.rows.length := by
  obtain ⟨rest, hrows⟩ := List.head?_eq_some_iff.1 h.null
  simp [hrows]

theorem Planned.null_append (h : Planned P s) (b : Flo.Block) :
    (s.rows ++ [b]).head? = some (Flo.Entry.poisoned .nullEntry) := by
  rw [List.head?_append, h.null]
  rfl

theorem Planned.ids_nodup (h : Planned P s) :
    (s.blocks.map Prod.snd ++ s.exitBlock.toList).Nodup :=
  h.ids.nodup_iff.2 List.nodup_range'

/-- The blocks of the object are those of labels. -/
theorem Planned.mem_ids_iff (h : Planned P s) {id : Nat} :
    id ∈ s.blocks.map Prod.snd ++ s.exitBlock.toList ↔ s.draft.object.blocks.Has id := by
  rw [h.ids.mem_iff, List.mem_range'_1, Flo.Table.Has]
  have := h.rows_pos
  change _ ↔ 0 < id ∧ id < s.rows.length
  omega

theorem Planned.id_bounds (h : Planned P s) {p : Nat × Nat} (hp : p ∈ s.blocks) :
    0 < p.2 ∧ p.2 < s.rows.length :=
  h.mem_ids_iff.1 (List.mem_append_left _ (List.mem_map_of_mem hp))

theorem State.mem_of_target? {label id : Nat} (h : s.target? label = some id)
    (hl : label ≠ exitIndex) : (label, id) ∈ s.blocks := by
  rw [State.target?, if_neg hl] at h
  obtain ⟨before, after, heq, -⟩ := List.lookup_eq_some_iff.1 h
  simp [heq]

theorem Planned.has_of_target? (h : Planned P s) {label id : Nat}
    (ht : s.target? label = some id) : s.draft.object.blocks.Has id := by
  rw [← h.mem_ids_iff, List.mem_append]
  by_cases hl : label = exitIndex
  · rw [State.target?, if_pos hl] at ht
    exact .inr (by simp [ht])
  · exact .inl (List.mem_map_of_mem (f := Prod.snd) (State.mem_of_target? ht hl))

/-- The variable has a type of the registry. One that is linked with a global has its type. -/
structure SoundRow (x : UnitIndex) (types : Registry) (row : Flo.Variable) : Prop where
  covers : types.Covers row.typ
  global : ∀ {symbol : String}, row.linkage = .external symbol → ∃ ty rep,
    x.global? symbol = some ty ∧ Represents x types ty rep ∧ row.typ = rep.valueType

theorem SoundRow.mono {x : UnitIndex} {types types' : Registry} {row : Flo.Variable}
    (h : SoundRow x types row) (hg : types.Grows types') : SoundRow x types' row := by
  refine ⟨h.covers.mono hg, fun hl => ?_⟩
  obtain ⟨ty, rep, hty, hrep, htyp⟩ := h.global hl
  exact ⟨ty, rep, hty, hrep.mono hg, htyp⟩

/-- What holds between the steps of lowering a function. -/
structure State.Inv (P : Setting) (s : State) : Prop where
  sound : s.types.Sound P.index P.types
  names : (s.scope.map Var.name).Nodup
  ids : (P.returns ++ s.scope.map Var.id).Nodup
  holds : ∀ v ∈ s.scope, Holds P s v
  result : ∀ id ∈ P.returns, HoldsResult P s id
  typed : ∀ row ∈ s.vars, SoundRow P.index s.types row
  kept : s.draft.Kept P.function.Mentions
  planned : Planned P s

/-- A variable with a linkage is not the null entry. -/
theorem State.Inv.has_var (h : s.Inv P) {id : Nat} {row : Flo.Variable}
    (hrow : s.vars[id]? = some row) (hl : row.linkage ≠ .unspecified) :
    s.draft.object.vars.Has id := by
  refine Flo.Table.has_of_ne h.kept.vars.head?_rows hrow ?_
  rintro rfl
  exact hl rfl

theorem State.Inv.has_temp (h : s.Inv P) {id : Nat} {typ : Flo.Ty} (ht : Temp s id typ) :
    s.draft.object.vars.Has id := by
  obtain ⟨row, hrow, -, hl, -⟩ := ht
  exact h.has_var hrow (by simp [hl])

/-! ### Scheduling -/

/-- The blocks that the second state has more than the first one are for some of the labels, all
of which have blocks then. The new blocks are pending, in the order of the labels. -/
structure Schedules (labels : List Nat) (s s' : State) : Prop where
  blocks : ∃ new, s'.blocks = s.blocks ++ new ∧ s'.pending = s.pending ++ new ∧
    ∀ p ∈ new, p.1 ∈ labels
  order : s'.blocks.map Prod.fst = enqueue (s.blocks.map Prod.fst) labels
  exitBlock : s'.exitBlock = s.exitBlock ∨ exitIndex ∈ labels
  rows : s.rows <+: s'.rows
  target : ∀ label ∈ labels, (s'.target? label).isSome

theorem Schedules.of_eq (hb : s'.blocks = s.blocks) (hp : s'.pending = s.pending)
    (he : s'.exitBlock = s.exitBlock) (hr : s'.rows = s.rows) : Schedules [] s s' :=
  ⟨⟨[], by simp [hb], by simp [hp], by simp⟩, by rw [hb, enqueue_nil], .inl he,
    hr ▸ List.prefix_rfl, by simp⟩

theorem Schedules.trans {labels labels' : List Nat} (h : Schedules labels s s')
    (h' : Schedules labels' s' s'') (hg : s'.Grows s'') : Schedules (labels ++ labels') s s'' := by
  obtain ⟨new, hb, hp, hnew⟩ := h.blocks
  obtain ⟨new', hb', hp', hnew'⟩ := h'.blocks
  refine ⟨⟨new ++ new', by rw [hb', hb, List.append_assoc], by rw [hp', hp, List.append_assoc],
    fun p hmem => ?_⟩, by rw [h'.order, h.order, enqueue_append], ?_, h.rows.trans h'.rows,
    fun label hl => ?_⟩
  · rcases List.mem_append.1 hmem with hmem | hmem
    · exact List.mem_append_left _ (hnew p hmem)
    · exact List.mem_append_right _ (hnew' p hmem)
  · rcases h'.exitBlock with he' | he'
    · rcases h.exitBlock with he | he
      · exact .inl (he'.trans he)
      · exact .inr (List.mem_append_left _ he)
    · exact .inr (List.mem_append_right _ he')
  · rcases List.mem_append.1 hl with hl | hl
    · obtain ⟨id, hid⟩ := Option.isSome_iff_exists.1 (h.target label hl)
      rw [hg.target? hid]
      rfl
    · exact h'.target label hl

/-! ### Emission -/

/-- The run adds the statements `code` at the end of the block and branches to the labels. -/
structure Emits (P : Setting) (s : State) (code : List Flo.Statement) (labels : List Nat)
    (s' : State) : Prop where
  grows : s.Grows s'
  inv : s'.Inv P
  statements : s'.statements = s.statements ++ code
  body : s'.body = s.body ++ List.range' s.statements.length code.length
  schedules : Schedules labels s s'

namespace Emits

variable {code code' : List Flo.Statement} {labels labels' : List Nat}

theorem refl (h : s.Inv P) : Emits P s [] [] s :=
  ⟨.refl s, h, by simp, by simp, .of_eq rfl rfl rfl rfl⟩

theorem trans (h : Emits P s code labels s') (h' : Emits P s' code' labels' s'') :
    Emits P s (code ++ code') (labels ++ labels') s'' where
  grows := h.grows.trans h'.grows
  inv := h'.inv
  statements := by rw [h'.statements, h.statements, List.append_assoc]
  body := by
    rw [h'.body, h.body, h.statements, List.append_assoc, List.length_append, List.length_append,
      ← List.range'_append_1]
  schedules := h.schedules.trans h'.schedules h'.grows

/-- A step that emits nothing before some code. -/
theorem trans_nil (h : Emits P s [] [] s') (h' : Emits P s' code labels s'') :
    Emits P s code labels s'' :=
  h.trans h'

/-- A step that emits nothing after some code. -/
theorem append_nil (h : Emits P s code labels s') (h' : Emits P s' [] [] s'') :
    Emits P s code labels s'' := by
  simpa using h.trans h'

/-- A step that only branches after some code. -/
theorem append_labels (h : Emits P s code labels s') (h' : Emits P s' [] labels' s'') :
    Emits P s code (labels ++ labels') s'' := by
  simpa using h.trans h'

/-- Code that branches to nothing after some other code. -/
theorem append_code (h : Emits P s code labels s') (h' : Emits P s' code' [] s'') :
    Emits P s (code ++ code') labels s'' := by
  simpa using h.trans h'

end Emits

/-! ### Single steps -/

theorem Planned.of_eq (h : Planned P s) (hb : s'.blocks = s.blocks)
    (he : s'.exitBlock = s.exitBlock) (hr : s'.rows = s.rows) : Planned P s' :=
  ⟨hb ▸ h.labels, hb ▸ h.declared, by rw [hb, he, hr]; exact h.ids, hr ▸ h.null,
    by rw [he, hr]; exact h.exitRow⟩

/-- One more variable, of a type whose ids were handed out. -/
theorem State.Inv.typed_append (h : s.Inv P) {rows : List Flo.Variable} {row : Flo.Variable}
    (hrows : rows = s.vars ++ [row]) (hc : SoundRow P.index s.types row) :
    ∀ r ∈ rows, SoundRow P.index s.types r := by
  intro r hr
  rw [hrows] at hr
  rcases List.mem_append.1 hr with hr | hr
  · exact h.typed r hr
  · exact List.mem_singleton.1 hr ▸ hc

/-- A step on the draft that only adds rows. -/
theorem emits_draft (h : s.Inv P) {d : Flo.Draft} {code : List Flo.Statement}
    (he : s.draft.Extends code d) (ht : ∀ row ∈ d.object.vars.rows, SoundRow P.index s.types row)
    (hk : d.Kept P.function.Mentions) (canPanic : Bool) :
    Emits P s code [] { s with
      draft := d
      body := s.body ++ List.range' s.statements.length code.length
      canPanic := canPanic } := by
  have hrows : d.object.blocks.rows = s.rows := by rw [he.blocks]
  have hg : s.Grows { s with
      draft := d
      body := s.body ++ List.range' s.statements.length code.length
      canPanic := canPanic } :=
    ⟨.refl _, he.vars, ⟨code, he.statements.symm⟩, he.matchArms, he.locations,
      List.prefix_rfl, List.prefix_rfl, fun h => h⟩
  exact ⟨hg, ⟨h.sound, h.names, h.ids, fun v hv => (h.holds v hv).mono hg,
    fun id hid => (h.result id hid).mono hg, ht, hk,
    h.planned.of_eq rfl rfl hrows⟩, he.statements, rfl, .of_eq rfl rfl rfl hrows⟩

/-- A step on the types. -/
theorem emits_types (h : s.Inv P) {types : Registry}
    (he : Evolved P.index P.types [] s.types types) :
    Emits P s [] [] { s with types := types } := by
  have hg : s.Grows { s with types := types } := { State.Grows.refl s with types := he.grows }
  exact ⟨hg, ⟨he.sound, h.names, h.ids, fun v hv => (h.holds v hv).mono hg,
    fun id hid => (h.result id hid).mono hg, fun row hrow => (h.typed row hrow).mono he.grows,
    h.kept, h.planned.of_eq rfl rfl rfl⟩, by simp, by simp, .of_eq rfl rfl rfl rfl⟩

theorem zoom_ran {α : Type} {m : LayoutM α} (hm : m.Keeps (Evolves P.index P.types []))
    (h : s.Inv P) {a : α} (hr : (onTypes m).Ran s a s') :
    m.Ran s.types a s'.types ∧ s'.vars = s.vars ∧ s'.scope = s.scope ∧ Emits P s [] [] s' := by
  obtain ⟨types, ht, rfl⟩ := Build.ran_zoom.1 hr
  exact ⟨ht, rfl, rfl, emits_types h (hm.ran ht h.sound)⟩

theorem markPanic_ran (h : s.Inv P) (hr : markPanic.Ran s () s') :
    s'.vars = s.vars ∧ Emits P s [] [] s' := by
  obtain ⟨-, rfl⟩ := Build.ran_step.1 hr
  have he := emits_draft h (.refl s.draft) h.typed h.kept true
  simp only [List.length_nil, List.range'_zero, List.append_nil] at he
  exact ⟨rfl, he⟩

/-- The location of a line of the function. -/
theorem locate_ran {line : Option Nat} (hl : ∀ n, line = some n → n ≠ 0 → P.function.Mentions n)
    (h : s.Inv P) {l : Option Nat} (hr : (onDraft fun d => d.locate line).Ran s l s') :
    s'.draft.Knows l ∧ s'.vars = s.vars ∧ s'.scope = s.scope ∧ s'.types = s.types ∧
      Emits P s [] [] s' := by
  obtain ⟨rfl, rfl⟩ := Build.ran_step.1 hr
  obtain ⟨hk, hknows⟩ := h.kept.locate hl
  have hv : (s.draft.locate line).2.object.vars.rows = s.vars := by rw [Flo.Draft.vars_locate]
  have he := emits_draft h (s.draft.extends_locate line) (hv ▸ h.typed) hk s.canPanic
  simp only [List.length_nil, List.range'_zero, List.append_nil] at he
  exact ⟨hknows, hv, rfl, rfl, he⟩

theorem emit_ran (h : s.Inv P) {stmt : Flo.Statement} (hr : (emit stmt).Ran s () s') :
    s'.vars = s.vars ∧ Emits P s [stmt] [] s' := by
  simp only [emit, onDraft, Build.ran_bind, Build.ran_step] at hr
  obtain ⟨_, _, ⟨rfl, rfl⟩, -, rfl⟩ := hr
  have he := emits_draft h (s.draft.extends_addStatement stmt) h.typed (h.kept.addStatement stmt)
    s.canPanic
  simp only [List.length_singleton, List.range'_one] at he
  rw [Flo.Draft.fst_addStatement]
  exact ⟨rfl, he⟩

/-! ### Steps of a statement -/

variable {cx : Context} {S : Ty → Prop}

theorem note_ran (hl : cx.LineKnown) (h : s.Inv (cx.setting S)) {note : Flo.Note}
    (hr : (Lowering.note cx).Ran s note s') :
    NoteKnown s' note ∧ s'.vars = s.vars ∧ Emits (cx.setting S) s [] [] s' := by
  simp only [Lowering.note, Build.ran_bind, Build.ran_pure] at hr
  obtain ⟨l, s₁, hr, rfl, rfl⟩ := hr
  obtain ⟨hk, hv, -, -, he⟩ := locate_ran (P := cx.setting S) hl h hr
  exact ⟨⟨rfl, hk⟩, hv, he⟩

/-- A temporary is the next variable. -/
theorem temporary_ran (hl : cx.LineKnown) (h : s.Inv (cx.setting S)) {typ : Flo.Ty}
    (hc : s.types.Covers typ) {v : Nat} (hr : (temporary cx typ).Ran s v s') :
    v = s.vars.length ∧ s'.vars.length = v + 1 ∧ Temp s' v typ ∧
      Emits (cx.setting S) s [] [] s' := by
  simp only [temporary, onDraft, Build.ran_bind, Build.ran_step] at hr
  obtain ⟨l, s₁, hloc, rfl, rfl⟩ := hr
  obtain ⟨hk, hv, -, ht, he⟩ := locate_ran (P := cx.setting S) hl h hloc
  have hx := s₁.draft.extends_addVariable typ .frame none l
  have hrows := s₁.draft.vars_addVariable typ .frame none l
  have htyped := he.inv.typed_append hrows ⟨ht ▸ hc, by simp⟩
  have he' := emits_draft he.inv hx htyped (he.inv.kept.addVariable hk typ .frame none) s₁.canPanic
  simp only [List.length_nil, List.range'_zero, List.append_nil] at he'
  rw [Flo.Draft.fst_addVariable]
  refine ⟨by rw [← hv], by simp [hrows], ⟨⟨typ, .frame, .usable, [], l⟩, ?_, rfl, rfl, rfl⟩,
    he.trans_nil he'⟩
  simp [hrows]

/-- A statement is emitted with a note. -/
theorem emitNoted_ran (hl : cx.LineKnown) (h : s.Inv (cx.setting S))
    {f : Flo.Note → Flo.Statement}
    (hr : (do emit (f (← Lowering.note cx)) : LowerM Unit).Ran s () s') :
    ∃ note, NoteKnown s' note ∧ s'.vars = s.vars ∧
      Emits (cx.setting S) s [f note] [] s' := by
  simp only [Build.ran_bind] at hr
  obtain ⟨note, s₁, hn, hr⟩ := hr
  obtain ⟨hk, hv, he⟩ := note_ran hl h hn
  obtain ⟨hv', he'⟩ := emit_ran he.inv hr
  exact ⟨note, hk.mono he'.grows, hv'.trans hv, he.trans_nil he'⟩

/-- A constant goes to a temporary of its type. -/
theorem constant_ran (hl : cx.LineKnown) (h : s.Inv (cx.setting S)) {c : Flo.Constant}
    (hc : s.types.Covers c.typ) {v : Nat} (hr : (constant cx c).Ran s v s') :
    v = s.vars.length ∧ s'.vars.length = v + 1 ∧ Temp s' v c.typ ∧
      ∃ note, NoteKnown s' note ∧ Emits (cx.setting S) s [.assignConst v c note] [] s' := by
  simp only [constant, Build.ran_bind, Build.ran_pure] at hr
  obtain ⟨t, s₁, ht, note, s₂, hn, _, s₃, hr, rfl, rfl⟩ := hr
  obtain ⟨hv, hlen, htemp, he⟩ := temporary_ran hl h hc ht
  obtain ⟨note', hk, hvars, he'⟩ := emitNoted_ran (f := .assignConst v c) hl he.inv
    (Build.ran_bind.2 ⟨note, s₂, hn, hr⟩)
  exact ⟨hv, hvars ▸ hlen, htemp.mono he'.grows, note', hk, he.trans_nil he'⟩

/-- A load goes to a temporary of the given type. -/
theorem load_ran (hl : cx.LineKnown) (h : s.Inv (cx.setting S)) {handle : Nat}
    {member : Flo.Member} {typ : Flo.Ty} (hc : s.types.Covers typ) {v : Nat}
    (hr : (load cx handle member typ).Ran s v s') :
    v = s.vars.length ∧ s'.vars.length = v + 1 ∧ Temp s' v typ ∧
      ∃ note, NoteKnown s' note ∧ Emits (cx.setting S) s [.load handle member v note] [] s' := by
  simp only [load, Build.ran_bind, Build.ran_pure] at hr
  obtain ⟨t, s₁, ht, note, s₂, hn, _, s₃, hr, rfl, rfl⟩ := hr
  obtain ⟨hv, hlen, htemp, he⟩ := temporary_ran hl h hc ht
  obtain ⟨note', hk, hvars, he'⟩ := emitNoted_ran (f := .load handle member v) hl he.inv
    (Build.ran_bind.2 ⟨note, s₂, hn, hr⟩)
  exact ⟨hv, hvars ▸ hlen, htemp.mono he'.grows, note', hk, he.trans_nil he'⟩

/-- The routine for an operation is called, and its result goes where it should or to a
temporary. -/
theorem callRoutine_ran (hl : cx.LineKnown) (h : s.Inv (cx.setting S)) {op : Operator}
    {input : List Nat} {types : List Flo.Ty} {result : Flo.Ty} (hc : s.types.Covers result)
    {output : Option Nat} {v : Nat} (hr : (callRoutine cx op input types result output).Ran s v s') :
    ∃ routine note, cx.polyfills.forOperation? op types result = some routine ∧
      NoteKnown s' note ∧
      Emits (cx.setting S) s [.call (.builtin routine) input [v] note] [] s' ∧
      ((output = some v ∧ s'.vars = s.vars) ∨
        (output = none ∧ v = s.vars.length ∧ s'.vars.length = v + 1 ∧ Temp s' v result)) := by
  unfold callRoutine at hr
  cases hp : cx.polyfills.forOperation? op types result with
  | none => simp [hp] at hr
  | some routine =>
    cases output with
    | some target =>
      simp only [hp, call, Build.ran_bind, Build.ran_pure] at hr
      obtain ⟨_, _, ⟨rfl, rfl⟩, _, s₂, ⟨note, s₃, hn, hr⟩, rfl, rfl⟩ := hr
      obtain ⟨note', hk, hvars, he⟩ := emitNoted_ran (f := .call (.builtin routine) input [v])
        hl h (Build.ran_bind.2 ⟨note, s₃, hn, hr⟩)
      exact ⟨routine, note', rfl, hk, he, .inl ⟨rfl, hvars⟩⟩
    | none =>
      simp only [hp, call, Build.ran_bind, Build.ran_pure] at hr
      obtain ⟨_, s₁, ht, _, s₂, ⟨note, s₃, hn, hr⟩, rfl, rfl⟩ := hr
      obtain ⟨hv, hlen, htemp, he⟩ := temporary_ran hl h hc ht
      obtain ⟨note', hk, hvars, he'⟩ := emitNoted_ran (f := .call (.builtin routine) input [v])
        hl he.inv (Build.ran_bind.2 ⟨note, s₃, hn, hr⟩)
      exact ⟨routine, note', rfl, hk, he.trans_nil he',
        .inr ⟨rfl, hv, hvars ▸ hlen, htemp.mono he'.grows⟩⟩

/-! ### The object in the end -/

/-- The object of a function with the types of the whole unit, which are known in the end. -/
structure Finishes (P : Setting) (w : State) (r : Registry) (o : Flo.Object) : Prop where
  inv : w.Inv P
  grows : w.types.Grows r
  object : o = { w.draft.object with types := r.tables }

theorem Finishes.vars_get {w : State} {r : Registry} {o : Flo.Object} (h : Finishes P w r o)
    (v : Nat) : o.vars.get? v = w.vars[v]? := by
  rw [h.object, Flo.Table.get?_eq_rows]

end Lowering

end GimpleLowering

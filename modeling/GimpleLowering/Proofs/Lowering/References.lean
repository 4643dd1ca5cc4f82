import GimpleLowering.Proofs.Flo.Identifiers
import GimpleLowering.Proofs.Lowering.ControlFlow

/-!
# References of emitted code

Whatever emitted code refers to exists. It is an induction over the descriptions of the code: each
variable in it is a variable in scope, the result of the function or a temporary, and the invariant
of the lowering says of all of them that they were handed out. The other tables of the object have
what the rows of the draft and the registry of types refer to.

No statement, arm, variable or block is poisoned in the end, so the object is complete.

## Main definitions

* `Flo.Statement.Valid` — a statement that refers to what exists

## Main results

* `Lowering.Finishes.reads`, `performs`, `leaves` — the code of operands and statements is valid
* `Lowering.Finishes.uses` — an object refers to its own entries only
* `Lowering.Finishes.isComplete` — an object is complete
-/

namespace GimpleLowering

open Gimple Layout

/-- The numbers in the statement are allowed, and code may reach it. -/
structure Flo.Statement.Valid (I : Flo.Ids) (s : Flo.Statement) : Prop where
  uses : s.Uses I
  usable : Flo.Entry.isPoisoned s = false

namespace Lowering

variable {P : Setting} {ps : Polyfills} {w : State} {r : Registry} {o : Flo.Object}
  {lengths lines : Nat → Prop}

namespace Finishes

variable (h : Finishes P w r o)

include h

/-! ### Identifiers -/

theorem has_temp {v : Nat} {typ : Flo.Ty} (ht : Temp w v typ) : o.vars.Has v := by
  rw [h.object]
  exact h.inv.has_temp ht

theorem has_temps {first : Nat} {slots : List Slot} (ht : AreTemps w first slots) :
    ∀ id ∈ List.range' first slots.length, o.vars.Has id := by
  intro id hid
  obtain ⟨i, hi, rfl⟩ := List.mem_range'.1 hid
  rw [Nat.one_mul]
  exact h.has_temp (ht (List.getElem?_eq_getElem hi))

theorem has_mem {v : Var} (hv : v ∈ w.scope) : o.vars.Has v.id := by
  obtain ⟨row, hrow, -, hl, -⟩ := (h.inv.holds v hv).row
  rw [h.object]
  refine h.inv.has_var hrow ?_
  rw [hl]
  unfold linkageOf
  split <;> simp

theorem has_result {id : Nat} (hid : id ∈ P.returns) : o.vars.Has id := by
  obtain ⟨ty, rep, row, -, -, hrow, -, hl, -⟩ := h.inv.result id hid
  rw [h.object]
  exact h.inv.has_var hrow (by simp [hl])

theorem has_target {label id : Nat} (ht : w.target? label = some id) : o.blocks.Has id := by
  rw [h.object]
  exact h.inv.planned.has_of_target? ht

theorem has_location {location : Option Nat} (hk : w.draft.Knows location) :
    ∀ id ∈ location, o.locations.Has id := by
  rw [h.object]
  exact fun id hid => hk id hid

/-- An arm that continues at a block is not the null entry. -/
theorem has_arm {arm condition target : Nat} (ha : IsArm w arm condition target) :
    o.matchArms.Has arm := by
  obtain ⟨location, hrow, -⟩ := ha
  obtain ⟨rest, hnull, -⟩ := h.inv.kept.matchArms
  rw [h.object]
  refine ⟨Nat.pos_of_ne_zero ?_, (List.getElem?_eq_some_iff.1 hrow).1⟩
  rintro rfl
  rw [State.arms, hnull] at hrow
  cases hrow

theorem note_uses {note : Flo.Note} (hn : NoteKnown w note) : note.Uses (o.ids lengths lines) :=
  ⟨by simp [hn.1], h.has_location hn.2⟩

/-- The ids in a type were handed out for types. -/
theorem ty_uses {typ : Flo.Ty} (hc : r.Covers typ) : typ.Uses (o.ids lengths lines) := by
  induction typ with
  | array id =>
    refine ⟨hc.1, ?_⟩
    have := hc.2
    simp only [h.object, Registry.tables, Flo.Table.rows, List.length_cons, List.length_map]
    omega
  | struct id =>
    refine ⟨hc.1, ?_⟩
    have := hc.2
    simp only [h.object, Registry.tables, Flo.Table.rows, List.length_cons, List.length_map]
    omega
  | handle pointee nullable ih => exact ih hc
  | bool | signed32 | signed64 | double | unspecified => trivial

theorem constant_uses {e : Expr} {c : Flo.Constant} (hc : IsConstant P.index w e c) :
    c.typ.Uses (o.ids lengths lines) :=
  h.ty_uses (hc.covers.mono h.grows)

/-- A field that is accessed is a member of a struct. -/
theorem slot_uses {record : Ty} {struct : Nat} {slots : List Slot} {member : String} {slot : Slot}
    (hi : IsSlot P.index w record struct slots member slot) :
    slot.member.Uses (o.ids lengths lines) := by
  obtain ⟨s, hs, hslots⟩ := hi.known.mono h.grows
  refine ⟨s.entry, ?_, ?_⟩
  · cases struct with
    | zero => simp at hs
    | succ i =>
      have hs : r.structs[i]? = some s := hs
      simp only [h.object, Registry.tables, Flo.Table.rows]
      exact List.mem_cons_of_mem _ (List.mem_map_of_mem (List.mem_of_getElem? hs))
  · simpa [RecordStruct.entry, hslots] using hi.index_lt

/-! ### Operands -/

theorem reads {e : Expr} {n v m : Nat} {code : List Flo.Statement}
    (hr : Reads P.index w e n v code m) :
    (∀ s ∈ code, s.Valid (o.ids lengths lines)) ∧ o.vars.Has v := by
  induction hr with
  | constant isConstant temp noted =>
    have hv := h.has_temp temp
    refine ⟨List.forall_mem_singleton.2 ⟨?_, rfl⟩, hv⟩
    exact ⟨hv, h.constant_uses isConstant, h.note_uses noted⟩
  | named le mem agrees => exact ⟨by simp, h.has_mem mem⟩
  | through base isSlot agrees readPointer temp noted ih =>
    obtain ⟨hcode, hhandle⟩ := ih
    have hv := h.has_temp temp
    refine ⟨List.forall_mem_append.2 ⟨hcode, List.forall_mem_singleton.2 ⟨?_, rfl⟩⟩, hv⟩
    exact ⟨hhandle, h.slot_uses isSlot, hv, h.note_uses noted⟩
  | part direct isSlot agrees readWhole temps noted ih =>
    obtain ⟨hcode, hwhole⟩ := ih
    have hv := h.has_temp (temps isSlot.getElem?_index)
    refine ⟨List.forall_mem_append.2 ⟨hcode, List.forall_mem_singleton.2 ⟨?_, rfl⟩⟩, hv⟩
    exact ⟨hwhole, h.has_temps temps, h.note_uses noted⟩
  | deref base agrees represents readPointer temp noted ih =>
    obtain ⟨hcode, hhandle⟩ := ih
    have hv := h.has_temp temp
    refine ⟨List.forall_mem_append.2 ⟨hcode, List.forall_mem_singleton.2 ⟨?_, rfl⟩⟩, hv⟩
    exact ⟨hhandle, trivial, hv, h.note_uses noted⟩
  | element isArray agrees integral represents readArray readIndex temp noted iha ihi =>
    obtain ⟨hcode, ha⟩ := iha
    obtain ⟨hcode', hi⟩ := ihi
    have hv := h.has_temp temp
    refine ⟨List.forall_mem_append.2 ⟨List.forall_mem_append.2 ⟨hcode, hcode'⟩,
      List.forall_mem_singleton.2 ⟨?_, rfl⟩⟩, hv⟩
    exact ⟨ha, hi, hv, h.note_uses noted⟩

theorem writes {e : Expr} {n v m : Nat} {code : List Flo.Statement}
    (hw : Writes P.index w e n v code m) (hv : o.vars.Has v) :
    ∀ s ∈ code, s.Valid (o.ids lengths lines) := by
  induction hw with
  | named le mem agrees noted =>
    exact List.forall_mem_singleton.2 ⟨⟨h.has_mem mem, hv, h.note_uses noted⟩, rfl⟩
  | through base isSlot agrees readPointer noted =>
    obtain ⟨hcode, hhandle⟩ := h.reads readPointer
    refine List.forall_mem_append.2 ⟨hcode, List.forall_mem_singleton.2 ⟨?_, rfl⟩⟩
    exact ⟨hhandle, h.slot_uses isSlot, hv, h.note_uses noted⟩
  | @part ty base member struct slots slot value n whole k m code code' note note' direct isSlot
      agrees readWhole temps temp writeBase noted noted' ih =>
    obtain ⟨hcode, hwhole⟩ := h.reads readWhole
    have hparts := h.has_temps temps
    have htemp := h.has_temp temp
    have hset : ∀ id ∈ (List.range' k slots.length).set slot.index value, o.vars.Has id := by
      intro id hid
      rcases List.mem_or_eq_of_mem_set hid with hid | rfl
      · exact hparts id hid
      · exact hv
    refine List.forall_mem_append.2 ⟨List.forall_mem_append.2 ⟨hcode, ?_⟩, ih htemp⟩
    refine List.forall_mem_cons.2 ⟨⟨?_, rfl⟩, List.forall_mem_singleton.2 ⟨?_, rfl⟩⟩
    · exact ⟨hwhole, hparts, h.note_uses noted⟩
    · exact ⟨htemp, hset, h.note_uses noted'⟩
  | deref base agrees readPointer noted =>
    obtain ⟨hcode, hhandle⟩ := h.reads readPointer
    refine List.forall_mem_append.2 ⟨hcode, List.forall_mem_singleton.2 ⟨?_, rfl⟩⟩
    exact ⟨hhandle, trivial, hv, h.note_uses noted⟩
  | element isArray agrees integral readArray readIndex noted =>
    obtain ⟨hcode, ha⟩ := h.reads readArray
    obtain ⟨hcode', hi⟩ := h.reads readIndex
    refine List.forall_mem_append.2 ⟨List.forall_mem_append.2 ⟨hcode, hcode'⟩,
      List.forall_mem_singleton.2 ⟨?_, rfl⟩⟩
    exact ⟨ha, hi, hv, h.note_uses noted⟩

theorem readsAll {es : List Expr} {n m : Nat} {vs : List Nat} {code : List Flo.Statement}
    (hr : ReadsAll P.index w es n vs code m) :
    (∀ s ∈ code, s.Valid (o.ids lengths lines)) ∧ ∀ v ∈ vs, o.vars.Has v := by
  induction hr with
  | nil n => exact ⟨by simp, by simp⟩
  | cons read rest ih =>
    obtain ⟨hcode, hv⟩ := h.reads read
    obtain ⟨hcode', hvs⟩ := ih
    exact ⟨List.forall_mem_append.2 ⟨hcode, hcode'⟩, List.forall_mem_cons.2 ⟨hv, hvs⟩⟩

/-! ### Statements -/

/-- A call of something outside of the object. -/
theorem call_valid (block : Flo.BlockRef) (hb : block.Uses (o.ids lengths lines))
    {input outputs : List Nat} {note : Flo.Note} (hi : ∀ v ∈ input, o.vars.Has v)
    (ho : ∀ v ∈ outputs, o.vars.Has v) (hn : NoteKnown w note) :
    ∀ s ∈ [Flo.Statement.call block input outputs note], s.Valid (o.ids lengths lines) :=
  List.forall_mem_singleton.2 ⟨⟨hb, hi, ho, h.note_uses hn⟩, rfl⟩

theorem performs {stmt : Statement} {n m : Nat} {code : List Flo.Statement}
    (hp : Performs P ps w stmt n code m) : ∀ s ∈ code, s.Valid (o.ids lengths lines) := by
  cases hp with
  | copy isCopy noNull agrees read write =>
    obtain ⟨hcode, hv⟩ := h.reads read
    exact List.forall_mem_append.2 ⟨hcode, h.writes write hv⟩
  | operateTo noCopy arity noNull checked operandTypes resultType isRoutine reads le mem agrees
      noted =>
    obtain ⟨hcode, hvs⟩ := h.readsAll reads
    exact List.forall_mem_append.2 ⟨hcode,
      h.call_valid (.builtin _) trivial hvs (List.forall_mem_singleton.2 (h.has_mem mem)) noted⟩
  | operate noCopy arity unnamed noNull checked operandTypes resultType isRoutine reads temp write
      noted =>
    obtain ⟨hcode, hvs⟩ := h.readsAll reads
    have htemp := h.has_temp temp
    have houtput := List.forall_mem_singleton.2 htemp
    exact List.forall_mem_append.2 ⟨List.forall_mem_append.2 ⟨hcode,
      h.call_valid (.builtin _) trivial hvs houtput noted⟩, h.writes write htemp⟩
  | callTo isCallee passed returns stored reads le mem agrees noted =>
    obtain ⟨hcode, hvs⟩ := h.readsAll reads
    exact List.forall_mem_append.2 ⟨hcode,
      h.call_valid (.external _) trivial hvs (List.forall_mem_singleton.2 (h.has_mem mem)) noted⟩
  | callStore isCallee passed returns stored unnamed reads resultType temp write noted =>
    obtain ⟨hcode, hvs⟩ := h.readsAll reads
    have htemp := h.has_temp temp
    have houtput := List.forall_mem_singleton.2 htemp
    exact List.forall_mem_append.2 ⟨List.forall_mem_append.2 ⟨hcode,
      h.call_valid (.external _) trivial hvs houtput noted⟩, h.writes write htemp⟩
  | callDiscard isCallee passed returns reads resultType temp noted =>
    obtain ⟨hcode, hvs⟩ := h.readsAll reads
    have houtput := List.forall_mem_singleton.2 (h.has_temp temp)
    exact List.forall_mem_append.2 ⟨hcode,
      h.call_valid (.external _) trivial hvs houtput noted⟩
  | callVoid isCallee passed returns reads noted =>
    obtain ⟨hcode, hvs⟩ := h.readsAll reads
    exact List.forall_mem_append.2 ⟨hcode, h.call_valid (.external _) trivial hvs (by simp) noted⟩

/-! ### Terminators -/

theorem compares {selector : Nat} (hsel : o.vars.Has selector) {typ : Flo.Ty} {c : Case}
    {n v m : Nat} {code : List Flo.Statement} (hc : Compares ps w selector typ c n v code m) :
    ∀ s ∈ code, s.Valid (o.ids lengths lines) := by
  have hconstant : ∀ {c : Flo.Constant} {value : Int}, integerConstant typ value = .ok c →
      c.typ.Uses (o.ids lengths lines) := fun hc =>
    h.ty_uses (r.covers_of_isInteger (isInteger_of_integerConstant hc))
  have hassign : ∀ {n : Nat} {c : Flo.Constant} {value : Int} {note : Flo.Note},
      integerConstant typ value = .ok c → Temp w n c.typ → NoteKnown w note →
      (Flo.Statement.assignConst n c note).Valid (o.ids lengths lines) := fun hc ht hn =>
    ⟨⟨h.has_temp ht, hconstant hc, h.note_uses hn⟩, rfl⟩
  have hcall : ∀ {routine : String} {a b v : Nat} {note : Flo.Note}, o.vars.Has a →
      o.vars.Has b → Temp w v .bool → NoteKnown w note →
      (Flo.Statement.call (.builtin routine) [a, b] [v] note).Valid (o.ids lengths lines) := by
    intro routine a b v note ha hb ht hn
    refine ⟨⟨trivial, ?_, List.forall_mem_singleton.2 (h.has_temp ht), h.note_uses hn⟩, rfl⟩
    exact List.forall_mem_cons.2 ⟨ha, List.forall_mem_singleton.2 hb⟩
  cases hc with
  | single isSingle isLow isEq temp result noted noted' =>
    simp only [List.mem_cons, List.not_mem_nil, or_false, forall_eq_or_imp, forall_eq]
    exact ⟨hassign isLow temp noted, hcall hsel (h.has_temp temp) result noted'⟩
  | range isRange isLow isHigh isGe isLe isAnd lowTemp highTemp above below both noted =>
    simp only [List.mem_cons, List.not_mem_nil, or_false, forall_eq_or_imp, forall_eq] at noted ⊢
    obtain ⟨hn₁, hn₂, hn₃, hn₄, hn₅⟩ := noted
    exact ⟨hassign isLow lowTemp hn₁, hassign isHigh highTemp hn₂,
      hcall hsel (h.has_temp lowTemp) above hn₃, hcall hsel (h.has_temp highTemp) below hn₄,
      hcall (h.has_temp above) (h.has_temp below) both hn₅⟩

theorem arms {selector : Nat} (hsel : o.vars.Has selector) {typ : Flo.Ty}
    {cases : List (Case × Nat)} {n m : Nat} {code : List Flo.Statement} {arms : List Nat}
    (ha : Arms ps w selector typ cases n code arms m) :
    (∀ s ∈ code, s.Valid (o.ids lengths lines)) ∧ ∀ arm ∈ arms, o.matchArms.Has arm := by
  induction ha with
  | nil n => exact ⟨by simp, by simp⟩
  | cons compare isArm rest ih =>
    obtain ⟨hcode, harms⟩ := ih
    exact ⟨List.forall_mem_append.2 ⟨h.compares hsel compare, hcode⟩,
      List.forall_mem_cons.2 ⟨h.has_arm isArm, harms⟩⟩

/-- The last condition of a branch is a constant. -/
theorem otherwise_valid {v : Nat} {note : Flo.Note} (ht : Temp w v .bool) (hn : NoteKnown w note) :
    (Flo.Statement.assignConst v (.ofBool true) note).Valid (o.ids lengths lines) :=
  ⟨⟨h.has_temp ht, trivial, h.note_uses hn⟩, rfl⟩

theorem leaves {stmt : Statement} {n m : Nat} {code : List Flo.Statement} {exit : Flo.BlockExit}
    (hp : Leaves P ps w stmt n code exit m) :
    (∀ s ∈ code, s.Valid (o.ids lengths lines)) ∧ exit.Uses (o.ids lengths lines) := by
  cases hp with
  | goto isTarget => exact ⟨by simp, h.has_target isTarget⟩
  | conditional isComparison agrees operandType isTrue isFalse isRoutine readLeft readRight
      condition otherwise isFirst isSecond noted noted' =>
    obtain ⟨hcode, ha⟩ := h.reads readLeft
    obtain ⟨hcode', hb⟩ := h.reads readRight
    have hinput := List.forall_mem_cons.2 ⟨ha, List.forall_mem_singleton.2 hb⟩
    have houtput := List.forall_mem_singleton.2 (h.has_temp condition)
    refine ⟨List.forall_mem_append.2 ⟨List.forall_mem_append.2 ⟨hcode, hcode'⟩, ?_⟩, ?_⟩
    · refine List.forall_mem_cons.2 ⟨⟨⟨trivial, hinput, houtput, h.note_uses noted⟩, rfl⟩, ?_⟩
      exact List.forall_mem_singleton.2 (h.otherwise_valid otherwise noted')
    · exact List.forall_mem_cons.2 ⟨h.has_arm isFirst,
        List.forall_mem_singleton.2 (h.has_arm isSecond)⟩
  | switch integral selectorType valid areTargets isDefault read areArms otherwise isLast noted =>
    obtain ⟨hcode, hv⟩ := h.reads read
    obtain ⟨hcode', harms⟩ := h.arms hv areArms
    refine ⟨List.forall_mem_append.2 ⟨List.forall_mem_append.2 ⟨hcode, hcode'⟩, ?_⟩, ?_⟩
    · exact List.forall_mem_singleton.2 (h.otherwise_valid otherwise noted)
    · exact List.forall_mem_append.2 ⟨harms, List.forall_mem_singleton.2 (h.has_arm isLast)⟩
  | retVoid isVoid => exact ⟨by simp, nofun⟩
  | ret isResult isSlot noNull agrees read noted =>
    obtain ⟨hcode, hv⟩ := h.reads read
    have hslot := h.has_result (isSlot ▸ List.mem_singleton_self _)
    refine ⟨List.forall_mem_append.2 ⟨hcode, List.forall_mem_singleton.2 ⟨?_, rfl⟩⟩, ?_⟩
    · exact ⟨hslot, hv, h.note_uses noted⟩
    · exact List.forall_mem_singleton.2 hslot

theorem lowersAll {stmts : List Statement} {n m : Nat} {codes : List (List Flo.Statement)}
    {exit : Option Flo.BlockExit} (hl : LowersAll P ps w stmts n codes exit m) :
    (∀ s ∈ codes.flatten, s.Valid (o.ids lengths lines)) ∧
      ∀ e, exit = some e → e.Uses (o.ids lengths lines) := by
  induction hl with
  | nil n => exact ⟨by simp, by simp⟩
  | leave leaves =>
    obtain ⟨hcode, hexit⟩ := h.leaves leaves
    exact ⟨by simpa using hcode, fun e he => Option.some.inj he ▸ hexit⟩
  | perform performs others ih =>
    obtain ⟨hcodes, hexit⟩ := ih
    rw [List.flatten_cons]
    exact ⟨List.forall_mem_append.2 ⟨h.performs performs, hcodes⟩, hexit⟩

theorem isBlock {index : Nat} {block : Block} {codes : List (List Flo.Statement)}
    {row : Flo.Block} (hb : IsBlock P ps w index block codes row) :
    (∀ s ∈ codes.flatten, s.Valid (o.ids lengths lines)) ∧
      row.exit.Uses (o.ids lengths lines) := by
  obtain ⟨n, exit, m, hlowers, hexits⟩ := hb.lowers
  obtain ⟨hcode, hexit⟩ := h.lowersAll hlowers
  refine ⟨hcode, ?_⟩
  generalize row.exit = e at hexits ⊢
  cases hexits with
  | leave => exact hexit _ rfl
  | next after isTarget => exact h.has_target isTarget
  | finish | missing => exact nofun

/-! ### Rows of the draft -/

theorem vars_valid : o.vars.All fun v => v.poison = .usable ∧ v.Uses (o.ids lengths lines) := by
  have hvars : o.vars = w.draft.object.vars := by rw [h.object]
  have hdiagnostics : w.draft.object.diagnostics = o.diagnostics := by rw [h.object]
  rw [hvars]
  refine (h.inv.kept.vars.and h.inv.typed).mono fun v hv => ?_
  obtain ⟨⟨husable, hknows, hnotes⟩, hrow⟩ := hv
  rw [hdiagnostics] at hnotes
  exact ⟨husable, h.ty_uses (hrow.covers.mono h.grows), hnotes, h.has_location hknows⟩

theorem matchArms_valid :
    o.matchArms.All fun a => a.poison = .usable ∧ a.Uses (o.ids lengths lines) := by
  have harms : o.matchArms = w.draft.object.matchArms := by rw [h.object]
  have hvars : w.draft.object.vars = o.vars := by rw [h.object]
  have hblocks : w.draft.object.blocks = o.blocks := by rw [h.object]
  rw [harms]
  refine h.inv.kept.matchArms.mono fun a ha => ?_
  obtain ⟨block, htarget, hblock⟩ := ha.target
  have hcondition := ha.condition
  rw [hvars] at hcondition
  rw [hblocks] at hblock
  refine ⟨ha.poison, hcondition, ?_, by simp [ha.diagnostics], h.has_location ha.location⟩
  rw [htarget]
  exact hblock

theorem diagnostics_valid : o.diagnostics.All fun d => d.Uses (o.ids lengths lines) := by
  have hdiagnostics : o.diagnostics = w.draft.object.diagnostics := by rw [h.object]
  rw [hdiagnostics]
  exact h.inv.kept.diagnostics.mono fun d hd => h.has_location hd.2

/-- The lines in an object are lines of the function. -/
theorem locations_valid (hline : ∀ {n : Nat}, n ≠ 0 → P.function.Mentions n → lines n) :
    o.locations.All fun l => l.Uses (o.ids lengths lines) := by
  have hlocations : o.locations = w.draft.object.locations := by rw [h.object]
  rw [hlocations]
  refine h.inv.kept.locations.mono fun l hl => ?_
  obtain ⟨-, -, n, hsome, hne, hmentions⟩ := hl
  intro n' hn'
  obtain rfl := Option.some.inj (hsome.symm.trans hn')
  exact hline hne hmentions

/-! ### Objects -/

/-- A statement that code may reach is not the null entry. -/
theorem has_statement {id : Nat} {s : Flo.Statement} (hs : w.statements[id]? = some s)
    (hv : s.Valid (o.ids lengths lines)) : o.statements.Has id := by
  obtain ⟨rest, hnull, -⟩ := h.inv.kept.statements
  rw [h.object]
  refine ⟨Nat.pos_of_ne_zero ?_, (List.getElem?_eq_some_iff.1 hs).1⟩
  rintro rfl
  rw [State.statements, hnull] at hs
  obtain rfl := Option.some.inj hs
  cases hv.usable

end Finishes

variable {parameters locals : List Var} {entry : Nat} {signature : Flo.Signature}
  (hf : IsFunction P ps w parameters locals entry signature) (h : Finishes P w r o)

include hf h

theorem Finishes.signature_uses : signature.Uses (o.ids lengths lines) := by
  refine ⟨fun id hid => ?_, fun id hid => ?_, h.has_location hf.location⟩
  · rw [hf.params] at hid
    obtain ⟨v, hv, rfl⟩ := List.mem_map.1 hid
    exact h.has_mem (hf.scope.subset (List.mem_append_left _ hv))
  · rw [hf.returns] at hid
    exact h.has_result hid

/-- The blocks of the object can be used and refer to what exists. -/
theorem Finishes.blocks_valid :
    o.blocks.All fun b => b.poison = .usable ∧ b.Uses (o.ids lengths lines) := by
  have hblocks : o.blocks = w.draft.object.blocks := by rw [h.object]
  rw [hblocks]
  refine Flo.Table.all_of_has h.inv.planned.null fun id hid => ?_
  obtain ⟨row, hrow, heq⟩ := hf.row_of_has hid
  refine ⟨row, hrow, ?_⟩
  rcases heq with rfl | ⟨index, block, codes, row', hb, rfl⟩
  · exact ⟨rfl, ⟨nofun, nofun, fun id hid => h.has_result hid, nofun⟩⟩
  · obtain ⟨hcode, hexit⟩ := h.isBlock hb
    refine ⟨hb.poison, ⟨fun s hs => ?_, fun id hid => ?_, hexit, by simp [hb.diagnostics]⟩⟩
    · obtain ⟨-, rfl⟩ := Option.ite_some_none_eq_some.1 hs
      exact h.signature_uses hf
    · obtain ⟨s, hs, hrow⟩ := hb.exists_code hid
      exact h.has_statement hrow (hcode s hs)

theorem Finishes.statements_valid :
    o.statements.All fun s => s.Valid (o.ids lengths lines) := by
  have hstatements : o.statements = w.draft.object.statements := by rw [h.object]
  rw [hstatements]
  obtain ⟨rest, hnull, -⟩ := h.inv.kept.statements
  refine Flo.Table.all_of_has (by rw [hnull]; rfl) fun id hid => ?_
  obtain ⟨p, hp, row, block, codes, hb, s, hs, hrow⟩ := hf.mem_codes hid.1 hid.2
  exact ⟨s, hrow, (h.isBlock hb).1 s hs⟩

omit hf

/-- The registered types refer to each other. -/
theorem Finishes.types_uses (hs : r.Sound P.index P.types)
    (hlength : ∀ {base : Ty} {n : Nat}, P.types (.array base n) → lengths n) :
    (o.types.arrays.All fun a => a.Uses (o.ids lengths lines)) ∧
      o.types.structs.All fun s => s.Uses (o.ids lengths lines) := by
  have htypes : o.types = r.tables := by rw [h.object]
  rw [htypes]
  refine ⟨⟨_, rfl, fun a ha => ?_⟩, ⟨_, rfl, fun s hs' => ?_⟩⟩
  · obtain ⟨⟨typ, n⟩, hmem, rfl⟩ := List.mem_map.1 ha
    obtain ⟨base, rep, hbase, hrep, rfl⟩ := (hs.member _ hmem).resolve_left id
    exact ⟨h.ty_uses hrep.covers, hlength hbase⟩
  · obtain ⟨s, hmem, rfl⟩ := List.mem_map.1 hs'
    cases hslots : s.slots with
    | none => simp [RecordStruct.entry, hslots, Flo.StructType.Uses, Flo.Entry.poisoned]
    | some slots =>
      obtain ⟨i, hi, rfl⟩ := List.getElem_of_mem hmem
      have hstruct : r.struct? (i + 1) = some r.structs[i] := List.getElem?_eq_getElem hi
      have hlaid := hs.laidOut hstruct hslots
      simp only [RecordStruct.entry, hslots]
      intro typ htyp
      obtain ⟨slot, hslot, rfl⟩ := List.mem_map.1 htyp
      exact h.ty_uses (hlaid.covers hslot)

include hf

/-- Whatever an object refers to is in it. The lengths of its arrays and the lines in it are those
of the source. -/
theorem Finishes.uses (hs : r.Sound P.index P.types)
    (hlength : ∀ {base : Ty} {n : Nat}, P.types (.array base n) → lengths n)
    (hline : ∀ {n : Nat}, n ≠ 0 → P.function.Mentions n → lines n) :
    o.Uses (o.ids lengths lines) := by
  obtain ⟨harrays, hstructs⟩ : (o.types.arrays.All fun a => a.Uses (o.ids lengths lines)) ∧
      o.types.structs.All fun s => s.Uses (o.ids lengths lines) := h.types_uses hs hlength
  refine ⟨fun p hp => ?_, (h.blocks_valid hf).mono fun b hb => hb.2,
    (h.statements_valid hf).mono fun s hs => hs.uses, h.matchArms_valid.mono fun a ha => ha.2,
    h.vars_valid.mono fun v hv => hv.2, harrays, hstructs, h.diagnostics_valid,
    h.locations_valid hline⟩
  have hsymbols : p ∈ w.draft.object.symbols.pairs := by
    rw [h.object] at hp
    exact hp
  rw [hf.symbols] at hsymbols
  obtain rfl := List.mem_singleton.1 hsymbols
  exact h.has_target (h.inv.planned.target?_eq hf.isEntry)

/-- Code cannot reach a poisoned entry of an object. -/
theorem Finishes.isComplete : o.isComplete := by
  have hb : o.blocks.All fun b => b.poison = .usable ∧ b.Uses (o.ids Flo.IsWord Flo.IsLine) :=
    h.blocks_valid hf
  have hs : o.statements.All fun s => s.Valid (o.ids Flo.IsWord Flo.IsLine) := h.statements_valid hf
  have ha : o.matchArms.All fun a => a.poison = .usable ∧ a.Uses (o.ids Flo.IsWord Flo.IsLine) :=
    h.matchArms_valid
  have hv : o.vars.All fun v => v.poison = .usable ∧ v.Uses (o.ids Flo.IsWord Flo.IsLine) :=
    h.vars_valid
  refine Flo.Object.isComplete_of_usable (hb.mono fun b hb => hb.1) (hs.mono fun s hs => hs.usable)
    (ha.mono fun a ha => ha.1) (hv.mono fun v hv => hv.1) ?_
  have htypes : o.types = r.tables := by rw [h.object]
  rw [htypes]
  refine ⟨_, rfl, fun s hs reason => ?_⟩
  obtain ⟨s, -, rfl⟩ := List.mem_map.1 hs
  cases hslots : s.slots <;> simp [RecordStruct.entry, hslots, Flo.Entry.poisoned]

end Lowering

end GimpleLowering
